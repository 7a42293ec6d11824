import QueryCalculus.Text.Expand
import QueryCalculus.Variable

/-!
# Sets of variables

- `VarSet` : variables in ascending order, no two with the same identity
- `insert`, `put` : add a variable; on a tie `insert` keeps the old element, `put` the new one
- `union`, `inter`, `diff` : the elements always come from the left set
- `x ∈ s` : some element of `s` has the identity `x`

Which identities a set holds does not depend on the occurrences it keeps: the lemmas at the end say
what each operation does to `x ∈ s`.
-/

namespace QueryCalculus

structure VarSet where
  toList : List Variable
  sorted : toList.Pairwise fun x y => x.toIdent < y.toIdent

namespace VarSet

/-! ## Placing one variable -/

/-- Places `x` in an ascending list. An element with the same identity is kept if `keep` holds
and replaced by `x` otherwise. -/
def place (keep : Bool) (x : Variable) : List Variable → List Variable
  | [] => [x]
  | y :: ys =>
    match compare x.toIdent y.toIdent with
    | .lt => x :: y :: ys
    | .eq => (if keep then y else x) :: ys
    | .gt => y :: place keep x ys

theorem toIdent_mem_place {keep : Bool} {x z : Variable} {ys : List Variable}
    (h : z ∈ place keep x ys) : z.toIdent = x.toIdent ∨ z ∈ ys := by
  induction ys with
  | nil => simp_all [place]
  | cons y ys ih =>
    unfold place at h
    split at h
    · rcases List.mem_cons.1 h with rfl | h
      · exact .inl rfl
      · exact .inr h
    · rename_i hxy
      have same := Std.LawfulEqOrd.eq_of_compare hxy
      rcases List.mem_cons.1 h with rfl | h
      · cases keep
        · exact .inl rfl
        · exact .inl same.symm
      · exact .inr (List.mem_cons_of_mem y h)
    · rcases List.mem_cons.1 h with rfl | h
      · exact .inr List.mem_cons_self
      · exact (ih h).imp_right (List.mem_cons_of_mem y)

theorem pairwise_place (keep : Bool) (x : Variable) {ys : List Variable}
    (h : ys.Pairwise fun x y => x.toIdent < y.toIdent) :
    (place keep x ys).Pairwise fun x y => x.toIdent < y.toIdent := by
  induction ys with
  | nil => simp [place]
  | cons y ys ih =>
    rw [List.pairwise_cons] at h
    unfold place
    split
    · rename_i hxy
      have below : x.toIdent < y.toIdent := hxy
      refine List.pairwise_cons.2 ⟨?_, List.pairwise_cons.2 h⟩
      intro z hz
      rcases List.mem_cons.1 hz with rfl | hz
      · exact below
      · exact Ident.lt_trans below (h.1 z hz)
    · rename_i hxy
      have same := Std.LawfulEqOrd.eq_of_compare hxy
      refine List.pairwise_cons.2 ⟨?_, h.2⟩
      intro z hz
      have above := h.1 z hz
      cases keep <;> simp_all
    · rename_i hxy
      refine List.pairwise_cons.2 ⟨?_, ih h.2⟩
      intro z hz
      rcases toIdent_mem_place hz with same | hz
      · rw [same]
        exact Std.OrientedCmp.lt_of_gt hxy
      · exact h.1 z hz

/-! ## Operations -/

def empty : VarSet := ⟨[], List.Pairwise.nil⟩

instance : EmptyCollection VarSet := ⟨empty⟩
instance : Inhabited VarSet := ⟨empty⟩

def isEmpty (s : VarSet) : Bool :=
  s.toList.isEmpty

def size (s : VarSet) : Nat :=
  s.toList.length

def idents (s : VarSet) : List Ident :=
  s.toList.map Variable.toIdent

instance : Membership Ident VarSet :=
  ⟨fun s x => x ∈ s.idents⟩

instance (x : Ident) (s : VarSet) : Decidable (x ∈ s) :=
  inferInstanceAs (Decidable (x ∈ s.idents))

def contains (s : VarSet) (x : Variable) : Bool :=
  s.toList.contains x

/-- Adds a variable unless it is there already. -/
def insert (s : VarSet) (x : Variable) : VarSet :=
  ⟨place true x s.toList, pairwise_place true x s.sorted⟩

/-- Adds a variable in place of an element with the same identity. -/
def put (s : VarSet) (x : Variable) : VarSet :=
  ⟨place false x s.toList, pairwise_place false x s.sorted⟩

/-- The set of the listed variables. Of several occurrences the last one is kept. -/
def ofList (xs : List Variable) : VarSet :=
  xs.foldl put empty

/-- Adds the listed variables that are not there yet. -/
def extend (s : VarSet) (xs : List Variable) : VarSet :=
  xs.foldl insert s

def filter (keep : Variable → Bool) (s : VarSet) : VarSet :=
  ⟨s.toList.filter keep, s.sorted.filter keep⟩

def union (s t : VarSet) : VarSet :=
  s.extend t.toList

def inter (s t : VarSet) : VarSet :=
  s.filter t.contains

def diff (s t : VarSet) : VarSet :=
  s.filter fun x => !t.contains x

def isSubset (s t : VarSet) : Bool :=
  s.toList.all t.contains

instance : BEq VarSet :=
  ⟨fun s t => s.toList == t.toList⟩

/-- The names of the elements, in order. -/
def text (s : VarSet) : String :=
  Text.commaSeparated (s.toList.map (·.name))

/-! ## Membership -/

theorem mem_iff {x : Ident} {s : VarSet} : x ∈ s ↔ ∃ y ∈ s.toList, y.toIdent = x := by
  show x ∈ s.idents ↔ _
  simp [idents]

theorem toIdent_mem {s : VarSet} {x : Variable} (h : x ∈ s.toList) : x.toIdent ∈ s :=
  mem_iff.2 ⟨x, h, rfl⟩

theorem contains_iff {s : VarSet} {x : Variable} : s.contains x = true ↔ x.toIdent ∈ s := by
  rw [mem_iff, contains, List.contains_iff_exists_mem_beq]
  constructor
  · rintro ⟨y, hy, same⟩
    exact ⟨y, hy, (Variable.beq_iff.1 same).symm⟩
  · rintro ⟨y, hy, same⟩
    exact ⟨y, hy, Variable.beq_iff.2 same.symm⟩

@[simp] theorem not_mem_empty (x : Ident) : x ∉ (∅ : VarSet) := by
  show x ∉ ([] : List Ident)
  simp

theorem isEmpty_iff {s : VarSet} : s.isEmpty = true ↔ ∀ x : Ident, x ∉ s := by
  cases s with
  | mk elements sorted =>
    cases elements with
    | nil =>
      refine ⟨fun _ x => not_mem_empty x, fun _ => rfl⟩
    | cons y ys =>
      refine ⟨fun h => absurd h (by simp [isEmpty]), fun h => ?_⟩
      exact absurd (toIdent_mem List.mem_cons_self) (h y.toIdent)

theorem mem_map_place {keep : Bool} {x : Variable} {z : Ident} {ys : List Variable} :
    z ∈ (place keep x ys).map Variable.toIdent ↔
      z = x.toIdent ∨ z ∈ ys.map Variable.toIdent := by
  induction ys with
  | nil => simp [place]
  | cons y ys ih =>
    unfold place
    split
    · simp
    · rename_i hxy
      have same := Std.LawfulEqOrd.eq_of_compare hxy
      cases keep <;> simp [same]
    · rw [List.map_cons, List.mem_cons, ih, List.map_cons, List.mem_cons]
      exact or_left_comm

@[simp] theorem mem_insert {s : VarSet} {x : Variable} {z : Ident} :
    z ∈ s.insert x ↔ z = x.toIdent ∨ z ∈ s :=
  mem_map_place

@[simp] theorem mem_put {s : VarSet} {x : Variable} {z : Ident} :
    z ∈ s.put x ↔ z = x.toIdent ∨ z ∈ s :=
  mem_map_place

theorem mem_foldl {step : VarSet → Variable → VarSet}
    (mem_step : ∀ {s x z}, z ∈ step s x ↔ z = x.toIdent ∨ z ∈ s)
    (xs : List Variable) (s : VarSet) (z : Ident) :
    z ∈ xs.foldl step s ↔ z ∈ s ∨ ∃ x ∈ xs, x.toIdent = z := by
  induction xs generalizing s with
  | nil => simp
  | cons x xs ih =>
    rw [List.foldl_cons, ih, mem_step]
    constructor
    · rintro ((rfl | hz) | ⟨y, hy, rfl⟩)
      · exact .inr ⟨x, List.mem_cons_self, rfl⟩
      · exact .inl hz
      · exact .inr ⟨y, List.mem_cons_of_mem x hy, rfl⟩
    · rintro (hz | ⟨y, hy, rfl⟩)
      · exact .inl (.inr hz)
      · rcases List.mem_cons.1 hy with rfl | hy
        · exact .inl (.inl rfl)
        · exact .inr ⟨y, hy, rfl⟩

@[simp] theorem mem_ofList {xs : List Variable} {z : Ident} :
    z ∈ ofList xs ↔ ∃ x ∈ xs, x.toIdent = z := by
  have h := mem_foldl mem_put xs empty z
  rw [ofList, h]
  exact or_iff_right (not_mem_empty z)

theorem mem_extend {s : VarSet} {xs : List Variable} {z : Ident} :
    z ∈ s.extend xs ↔ z ∈ s ∨ ∃ x ∈ xs, x.toIdent = z :=
  mem_foldl mem_insert xs s z

@[simp] theorem mem_union {s t : VarSet} {z : Ident} : z ∈ s.union t ↔ z ∈ s ∨ z ∈ t := by
  rw [union, mem_extend, mem_iff (s := t)]

/-- Filtering by a property of identities. -/
theorem mem_filter {keep : Variable → Bool} {p : Ident → Prop} {s : VarSet} {z : Ident}
    (hp : ∀ x, keep x = true ↔ p x.toIdent) : z ∈ s.filter keep ↔ z ∈ s ∧ p z := by
  rw [mem_iff, mem_iff]
  constructor
  · rintro ⟨x, hx, rfl⟩
    have kept := List.mem_filter.1 hx
    exact ⟨⟨x, kept.1, rfl⟩, (hp x).1 kept.2⟩
  · rintro ⟨⟨x, hx, rfl⟩, hpx⟩
    exact ⟨x, List.mem_filter.2 ⟨hx, (hp x).2 hpx⟩, rfl⟩

@[simp] theorem mem_inter {s t : VarSet} {z : Ident} : z ∈ s.inter t ↔ z ∈ s ∧ z ∈ t :=
  mem_filter fun _ => contains_iff

@[simp] theorem mem_diff {s t : VarSet} {z : Ident} : z ∈ s.diff t ↔ z ∈ s ∧ z ∉ t := by
  have absent : ∀ x : Variable, (!t.contains x) = true ↔ x.toIdent ∉ t := by
    intro x
    rw [← contains_iff]
    simp
  exact mem_filter (p := fun z => z ∉ t) absent

theorem isSubset_iff {s t : VarSet} : s.isSubset t = true ↔ ∀ x : Ident, x ∈ s → x ∈ t := by
  rw [isSubset, List.all_eq_true]
  constructor
  · intro h z hz
    obtain ⟨x, hx, rfl⟩ := mem_iff.1 hz
    exact contains_iff.1 (h x hx)
  · intro h x hx
    exact contains_iff.2 (h x.toIdent (toIdent_mem hx))

end VarSet
end QueryCalculus
