import QueryCalculus.Formula.Explicit
import QueryCalculus.Proofs.FreshNames
import QueryCalculus.Proofs.Substitution

/-!
# Exploded atoms

- `Exploding` : how the terms of an atom are read, with the variables that are drawn for some of
  them
- `PredicateAtom.exploding_explode` : this is how an atom is exploded
- `Exploding.map_apply` : the terms come back if they are put in for the variables drawn for them
- `PredicateAtom.eq_valuation_iff` : the equalities leave one value for each of these variables
- `PredicateAtom.explode_preserves_meaning_iff` : the meaning is kept unless a blank is drawn

The equality that a drawn blank is part of says nothing, as each occurrence of it is independent.
-/

namespace QueryCalculus

universe u

variable {alphabet : Alphabet} {seen : List Ident} {s : List String} {ts plain : List Term}
  {moved : Substitution} {x y : Variable} {t : Term}

/-! ## Reading the terms -/

/-- The terms `ts` are read from left to right, after the variables `seen` and with the names `s` in
use. The variables `plain` take their places, and `moved` has the terms that drawn variables stand
for. -/
inductive Exploding (alphabet : Alphabet) :
    List Ident → List String → List Term → List Term → Substitution → Prop
  | nil (seen : List Ident) (s : List String) : Exploding alphabet seen s [] [] []
  | keep {seen : List Ident} {s : List String} {x : Variable} {ts plain : List Term}
      {moved : Substitution} :
      x.isBlank = true ∨ x.toIdent ∉ seen →
        Exploding alphabet (x.toIdent :: seen) s ts plain moved →
          Exploding alphabet seen s (.var x :: ts) (.var x :: plain) moved
  | move {seen : List Ident} {s : List String} {x : Variable} {t : Term} {ts plain : List Term}
      {moved : Substitution} :
      (∀ y, t = .var y → y.isBlank = false ∧ y.toIdent ∈ seen) → x.name = alphabet.fresh s →
        Exploding alphabet seen (x.name :: s) ts plain moved →
          Exploding alphabet seen s (t :: ts) (.var x :: plain) ((x, t) :: moved)

theorem nodup_namedVariables_cons (tail : ((Formula.namedVariables ts).map (·.toIdent)).Nodup)
    (new : x.isBlank = false → ∀ y, .var y ∈ ts → y.isBlank = false → y.toIdent ≠ x.toIdent) :
    ((Formula.namedVariables (.var x :: ts)).map (·.toIdent)).Nodup := by
  cases blank : x.isBlank with
  | true =>
    have skipped : Formula.namedVariables (.var x :: ts) = Formula.namedVariables ts :=
      List.filter_cons_of_neg (by simp [blank])
    rw [skipped]
    exact tail
  | false =>
    have listed : Formula.namedVariables (.var x :: ts) = x :: Formula.namedVariables ts :=
      List.filter_cons_of_pos (by simp [blank])
    rw [listed, List.map_cons, List.nodup_cons, List.mem_map]
    refine ⟨?_, tail⟩
    rintro ⟨y, hy, same⟩
    have occurs := Formula.mem_namedVariables.1 hy
    exact new blank y occurs.1 occurs.2 same

namespace Exploding

theorem length_eq (h : Exploding alphabet seen s ts plain moved) : plain.length = ts.length := by
  induction h with
  | nil => rfl
  | keep _ _ ih => exact congrArg (· + 1) ih
  | move _ _ _ ih => exact congrArg (· + 1) ih

theorem exists_var (h : Exploding alphabet seen s ts plain moved) (ht : t ∈ plain) :
    ∃ x, t = .var x := by
  induction h with
  | nil => cases ht
  | keep _ _ ih => exact (List.mem_cons.1 ht).elim (fun same => ⟨_, same⟩) ih
  | move _ _ _ ih => exact (List.mem_cons.1 ht).elim (fun same => ⟨_, same⟩) ih

/-- A drawn name was not in use. -/
theorem name_notMem (h : Exploding alphabet seen s ts plain moved) (listed : (x, t) ∈ moved) :
    x.name ∉ s := by
  induction h with
  | nil => cases listed
  | keep _ _ ih => exact ih listed
  | @move _ s _ _ _ _ _ _ drawn _ ih =>
    rcases List.mem_cons.1 listed with same | listed
    · cases same
      exact drawn ▸ alphabet.fresh_notMem s
    · exact fun used => ih listed (List.mem_cons_of_mem _ used)

theorem notMem_domain (h : Exploding alphabet seen s ts plain moved) (used : y.name ∈ s) :
    y.toIdent ∉ moved.domain := by
  intro drawn
  rcases Substitution.mem_domain.1 drawn with ⟨p, hp, same⟩
  have name : p.1.name = y.name := congrArg Ident.name same
  exact h.name_notMem hp (name ▸ used)

theorem drawn (h : Exploding alphabet seen s ts plain moved) (listed : (x, t) ∈ moved) :
    ∃ reserved, x.name = alphabet.fresh reserved := by
  induction h with
  | nil => cases listed
  | keep _ _ ih => exact ih listed
  | @move _ s _ _ _ _ _ _ drawn _ ih =>
    rcases List.mem_cons.1 listed with same | listed
    · cases same
      exact ⟨s, drawn⟩
    · exact ih listed

/-- Every drawn name is in use when the next one is drawn. -/
theorem nodup_domain (h : Exploding alphabet seen s ts plain moved) : moved.domain.Nodup := by
  induction h with
  | nil => exact List.nodup_nil
  | keep _ _ ih => exact ih
  | move _ _ rest ih =>
    exact List.nodup_cons.2 ⟨rest.notMem_domain List.mem_cons_self, ih⟩

theorem mem_plain (h : Exploding alphabet seen s ts plain moved) (listed : (x, t) ∈ moved) :
    .var x ∈ plain := by
  induction h with
  | nil => cases listed
  | keep _ _ ih => exact List.mem_cons_of_mem _ (ih listed)
  | move _ _ _ ih =>
    rcases List.mem_cons.1 listed with same | listed
    · cases same
      exact List.mem_cons_self
    · exact List.mem_cons_of_mem _ (ih listed)

/-- Blanks are never moved. -/
theorem mem_terms (h : Exploding alphabet seen s ts plain moved) (listed : (x, t) ∈ moved) :
    t ∈ ts ∧ ∀ y, t = .var y → y.isBlank = false := by
  induction h with
  | nil => cases listed
  | keep _ _ ih => exact (ih listed).imp_left (List.mem_cons_of_mem _)
  | move repeated _ _ ih =>
    rcases List.mem_cons.1 listed with same | listed
    · cases same
      exact ⟨List.mem_cons_self, fun y var => (repeated y var).1⟩
    · exact (ih listed).imp_left (List.mem_cons_of_mem _)

/-- A variable of the result was there before and is a blank or new, or it has been drawn. -/
theorem origin (h : Exploding alphabet seen s ts plain moved) (hx : .var x ∈ plain) :
    (.var x ∈ ts ∧ (x.isBlank = true ∨ x.toIdent ∉ seen)) ∨ x.toIdent ∈ moved.domain := by
  induction h with
  | nil => cases hx
  | keep first _ ih =>
    rcases List.mem_cons.1 hx with same | hx
    · cases same
      exact .inl ⟨List.mem_cons_self, first⟩
    · refine (ih hx).imp_left fun old => ⟨List.mem_cons_of_mem _ old.1, old.2.imp_right ?_⟩
      exact fun new used => new (List.mem_cons_of_mem _ used)
  | move _ _ _ ih =>
    rcases List.mem_cons.1 hx with same | hx
    · cases same
      exact .inr List.mem_cons_self
    · exact (ih hx).imp (And.imp_left (List.mem_cons_of_mem _)) (List.mem_cons_of_mem _)

/-- The first occurrence of a variable stays. -/
theorem exists_mem_plain (h : Exploding alphabet seen s ts plain moved) (hx : .var x ∈ ts)
    (new : x.toIdent ∉ seen) :
    ∃ y, .var y ∈ plain ∧ y.toIdent = x.toIdent := by
  induction h with
  | nil => cases hx
  | @keep _ _ z _ _ _ _ _ ih =>
    by_cases same : z.toIdent = x.toIdent
    · exact ⟨z, List.mem_cons_self, same⟩
    · rcases List.mem_cons.1 hx with head | hx
      · cases head
        exact absurd rfl same
      · rcases ih hx (List.not_mem_cons_of_ne_of_not_mem (Ne.symm same) new) with ⟨y, hy, idents⟩
        exact ⟨y, List.mem_cons_of_mem _ hy, idents⟩
  | move repeated _ _ ih =>
    rcases List.mem_cons.1 hx with head | hx
    · exact absurd (repeated x head.symm).2 new
    · rcases ih hx new with ⟨y, hy, idents⟩
      exact ⟨y, List.mem_cons_of_mem _ hy, idents⟩

/-- The variables of the terms keep out of the way of a drawn name. -/
theorem name_ne_of_mem {n : String} (h : Exploding alphabet seen (n :: s) ts plain moved)
    (within : ∀ y, .var y ∈ ts → y.name ∈ s) (free : n ∉ s) (hx : .var x ∈ plain) : x.name ≠ n := by
  rintro rfl
  rcases h.origin hx with old | drawn
  · exact free (within x old.1)
  · exact h.notMem_domain List.mem_cons_self drawn

theorem nodup_named (h : Exploding alphabet seen s ts plain moved)
    (within : ∀ y, .var y ∈ ts → y.name ∈ s) :
    ((Formula.namedVariables plain).map (·.toIdent)).Nodup := by
  induction h with
  | nil => exact List.nodup_nil
  | @keep seen s x ts plain moved first rest ih =>
    have tail := ih fun y hy => within y (List.mem_cons_of_mem _ hy)
    refine nodup_namedVariables_cons tail fun named y hy visible same => ?_
    -- the rest has no other variable of the atom that has been seen, and the drawn ones are new
    rcases rest.origin hy with ⟨-, blank | new⟩ | drawn
    · simp [visible] at blank
    · exact new (same ▸ List.mem_cons_self)
    · exact rest.notMem_domain (within x List.mem_cons_self) (same ▸ drawn)
  | @move seen s x t ts plain moved repeated drawn rest ih =>
    have later : ∀ y, .var y ∈ ts → y.name ∈ s := fun y hy => within y (List.mem_cons_of_mem _ hy)
    have tail := ih fun y hy => List.mem_cons_of_mem _ (later y hy)
    refine nodup_namedVariables_cons tail fun _ y hy _ same => ?_
    have free : x.name ∉ s := drawn ▸ alphabet.fresh_notMem s
    exact rest.name_ne_of_mem later free hy (congrArg Ident.name same)

/-- The moved terms put back into their places give the terms that were read. -/
theorem map_apply (h : Exploding alphabet seen s ts plain moved)
    (within : ∀ y, .var y ∈ ts → y.name ∈ s) : plain.map moved.apply = ts := by
  induction h with
  | nil => rfl
  | @keep seen s x ts plain moved first rest ih =>
    have tail := ih fun y hy => within y (List.mem_cons_of_mem _ hy)
    have absent : moved.find? x = none := by
      by_contra found
      exact rest.notMem_domain (within x List.mem_cons_self) (Substitution.mem_domain_iff.2 found)
    rw [List.map_cons, Substitution.apply_var_of_none absent, tail]
  | @move seen s x t ts plain moved repeated drawn rest ih =>
    have later : ∀ y, .var y ∈ ts → y.name ∈ s := fun y hy => within y (List.mem_cons_of_mem _ hy)
    have tail := ih fun y hy => List.mem_cons_of_mem _ (later y hy)
    have free : x.name ∉ s := drawn ▸ alphabet.fresh_notMem s
    -- the drawn variable is not among the others
    have others : ∀ u ∈ plain, Substitution.apply ((x, t) :: moved) u = moved.apply u := by
      intro u hu
      rcases rest.exists_var hu with ⟨y, rfl⟩
      have different : x.toIdent ≠ y.toIdent := fun same =>
        rest.name_ne_of_mem later free hu (congrArg Ident.name same.symm)
      rw [Substitution.apply, Substitution.apply, Substitution.find?_cons_of_ne different]
    have head : Substitution.apply ((x, t) :: moved) (.var x) = t :=
      Substitution.apply_var_of_some (Substitution.find?_cons_self rfl)
    rw [List.map_cons, head, List.map_congr_left others, tail]

end Exploding

/-! ## The exploded atom -/

namespace PredicateAtom

/-- The atom with the equalities of a substitution, whose variables are bound. -/
def tied (b : PredicateAtom) (moved : Substitution) : Formula :=
  if moved.isEmpty then .predicate b
  else .quant .exist (VarSet.ofList (moved.map Prod.fst))
    (.junction .and (.predicate b :: moved.map fun p => .equal (.var p.1) p.2))

theorem explodeTerms_keep {seen : List Variable} {done : Exploded}
    (kept : (x.isBlank || !seen.contains x) = true) :
    explodeTerms alphabet seen (.var x :: ts) done s =
      explodeTerms alphabet (seen ++ [x]) ts { done with terms := done.terms ++ [.var x] } s := by
  rw [explodeTerms, if_pos kept]
  rfl

theorem explodeTerms_move {seen : List Variable} {done : Exploded}
    (moved : ∀ y, t = .var y → (y.isBlank || !seen.contains y) = false) :
    explodeTerms alphabet seen (t :: ts) done s =
      explodeTerms alphabet (seen ++ variablesOf [t]) ts
        { terms := done.terms ++ [.var { name := alphabet.fresh s, type := t.type }]
          added := done.added ++ [{ name := alphabet.fresh s, type := t.type }]
          equalities := done.equalities ++
            [.equal (.var { name := alphabet.fresh s, type := t.type }) t] }
        (alphabet.fresh s :: s) := by
  cases t with
  | var y =>
    rw [explodeTerms, if_neg (Bool.eq_false_iff.1 (moved y rfl))]
    rfl
  | const c => rfl

theorem contains_iff_of_idents {known : List Variable}
    (same : ∀ z, z ∈ known.map (·.toIdent) ↔ z ∈ seen) :
    known.contains x = true ↔ x.toIdent ∈ seen := by
  rw [← same, List.contains_iff_exists_mem_beq, List.mem_map]
  exact exists_congr fun y => and_congr_right fun _ => Variable.beq_iff.trans eq_comm

/-- What is decided about the terms, whatever has been decided before. -/
theorem exploding_explodeTerms (alphabet : Alphabet) (ts : List Term) (s : List String)
    {known : List Variable} (same : ∀ z, z ∈ known.map (·.toIdent) ↔ z ∈ seen) :
    ∃ plain moved, Exploding alphabet seen s ts plain moved ∧
      ∀ done : Exploded, (explodeTerms alphabet known ts done s).1 =
        { terms := done.terms ++ plain
          added := done.added ++ moved.map Prod.fst
          equalities := done.equalities ++ moved.map fun p => .equal (.var p.1) p.2 } := by
  induction ts generalizing known seen s with
  | nil =>
    refine ⟨[], [], .nil seen s, fun done => ?_⟩
    simp only [List.map_nil, List.append_nil]
    rfl
  | cons t ts ih =>
    by_cases kept : ∃ x, t = .var x ∧ (x.isBlank || !known.contains x) = true
    · rcases kept with ⟨x, rfl, kept⟩
      have first : x.isBlank = true ∨ x.toIdent ∉ seen := by
        rw [← contains_iff_of_idents same]
        simpa using kept
      have same' : ∀ z, z ∈ (known ++ [x]).map (·.toIdent) ↔ z ∈ x.toIdent :: seen := by
        intro z
        rw [List.map_append, List.mem_append, same, or_comm, List.mem_cons]
        exact or_congr_left List.mem_singleton
      rcases ih s same' with ⟨plain, moved, exploding, result⟩
      refine ⟨_, _, .keep first exploding, fun done => ?_⟩
      rw [explodeTerms_keep kept, result, List.append_assoc]
      rfl
    · have unkept : ∀ y, t = .var y → (y.isBlank || !known.contains y) = false :=
        fun y var => Bool.eq_false_iff.2 fun kept' => kept ⟨y, var, kept'⟩
      have repeated : ∀ y, t = .var y → y.isBlank = false ∧ y.toIdent ∈ seen := by
        intro y var
        rw [← contains_iff_of_idents same]
        simpa using unkept y var
      -- a term that is moved brings no new variable
      have same' : ∀ z, z ∈ (known ++ variablesOf [t]).map (·.toIdent) ↔ z ∈ seen := by
        intro z
        rw [List.map_append, List.mem_append, same]
        refine or_iff_left_of_imp fun listed => ?_
        rcases List.mem_map.1 listed with ⟨y, hy, rfl⟩
        exact (repeated y (List.mem_singleton.1 (mem_variablesOf.1 hy)).symm).2
      rcases ih (alphabet.fresh s :: s) same' with ⟨plain, moved, exploding, result⟩
      let x : Variable := { name := alphabet.fresh s, type := t.type }
      refine ⟨.var x :: plain, (x, t) :: moved, .move repeated rfl exploding, fun done => ?_⟩
      rw [explodeTerms_move unkept, result]
      simp only [List.append_assoc, List.singleton_append, List.map_cons]
      rfl

theorem exploding_explode (alphabet : Alphabet) (a : PredicateAtom) :
    ∃ plain moved, Exploding alphabet [] (a.vars.map (·.name)) a.terms plain moved ∧
      a.explode alphabet = tied { a with terms := plain } moved := by
  have start : ∀ z : Ident, z ∈ ([] : List Variable).map (·.toIdent) ↔ z ∈ [] := fun z => Iff.rfl
  rcases exploding_explodeTerms alphabet a.terms (a.vars.map (·.name)) start with
    ⟨plain, moved, exploding, result⟩
  refine ⟨plain, moved, exploding, ?_⟩
  rw [explode, result, tied]
  simp only [List.nil_append, List.isEmpty_map]

/-! ## Atoms and variables of the result -/

variable {b : PredicateAtom} {z : Ident}

theorem mem_added : z ∈ VarSet.ofList (moved.map Prod.fst) ↔ z ∈ moved.domain := by
  rw [VarSet.mem_ofList, ← List.mem_map, List.map_map]
  rfl

theorem tied_cons (b : PredicateAtom) (p : Variable × Term) (moved : Substitution) :
    tied b (p :: moved) = .quant .exist (VarSet.ofList ((p :: moved).map Prod.fst))
      (.junction .and (.predicate b :: (p :: moved).map fun p => .equal (.var p.1) p.2)) := rfl

theorem atoms_tied (b : PredicateAtom) (moved : Substitution) :
    (tied b moved).atoms =
      .predicate b :: moved.map fun p => .comparison ⟨.equal, .var p.1, p.2⟩ := by
  cases moved with
  | nil => rfl
  | cons p moved =>
    rw [tied_cons, Formula.atoms, Formula.atoms_junction, List.flatMap_cons, List.flatMap_map]
    exact congrArg (Atom.predicate b :: ·) List.map_eq_flatMap.symm

/-- The given atom is the only predicate atom. -/
theorem filterMap_predicate?_tied (b : PredicateAtom) (moved : Substitution) :
    (tied b moved).atoms.filterMap Atom.predicate? = [b] := by
  have others : ((moved.map fun p => .comparison ⟨.equal, .var p.1, p.2⟩).filterMap
      Atom.predicate?) = [] := by
    rw [List.filterMap_map, List.filterMap_eq_nil_iff]
    exact fun _ _ => rfl
  calc
    (tied b moved).atoms.filterMap Atom.predicate?
      = b :: (moved.map fun p => .comparison ⟨.equal, .var p.1, p.2⟩).filterMap Atom.predicate? :=
        congrArg (List.filterMap Atom.predicate?) (atoms_tied b moved)
    _ = [b] := congrArg (b :: ·) others

theorem mem_bound_tied : z ∈ (tied b moved).bound ↔ z ∈ moved.domain := by
  rw [Formula.mem_bound]
  cases moved with
  | nil => exact Iff.rfl
  | cons p moved =>
    rw [tied_cons, Formula.mem_binders_quant, mem_added]
    -- there are no quantifiers inside
    refine or_iff_left fun inside => ?_
    rcases Formula.mem_binders_junction.1 inside with ⟨f, hf, hz⟩
    rcases List.mem_cons.1 hf with rfl | hf
    · cases hz
    · rcases List.mem_map.1 hf with ⟨p, -, rfl⟩
      cases hz

theorem unbound_tied :
    Formula.Unbound z (tied b moved) ↔
      z ∉ moved.domain ∧ ∃ y, (.var y ∈ b.terms ∨ ∃ p ∈ moved, p.2 = .var y) ∧ y.toIdent = z := by
  cases moved with
  | nil =>
    refine Formula.unbound_atom.trans ?_
    simp [Substitution.domain, Atom.terms]
  | cons p moved =>
    rw [tied_cons, Formula.unbound_quant, mem_added, and_comm, Formula.unbound_junction]
    refine and_congr_right fun outside => ?_
    constructor
    · rintro ⟨f, hf, occurs⟩
      rcases List.mem_cons.1 hf with rfl | hf
      · rcases Formula.unbound_atom.1 occurs with ⟨y, hy, same⟩
        exact ⟨y, .inl hy, same⟩
      · rcases List.mem_map.1 hf with ⟨q, hq, rfl⟩
        rcases Formula.unbound_atom.1 occurs with ⟨y, hy, same⟩
        rcases List.mem_cons.1 hy with drawn | hy
        · -- the left side of an equality is bound
          cases drawn
          exact absurd (Substitution.mem_domain.2 ⟨q, hq, same⟩) outside
        · exact ⟨y, .inr ⟨q, hq, (List.mem_singleton.1 hy).symm⟩, same⟩
    · rintro ⟨y, hy | ⟨q, hq, var⟩, same⟩
      · exact ⟨.predicate b, List.mem_cons_self, .atom hy same⟩
      · have right : .var y ∈ [.var q.1, q.2] := var ▸ by simp
        exact ⟨_, List.mem_cons_of_mem _ (List.mem_map_of_mem hq), .atom right same⟩

/-! ## Meaning of the result -/

section

variable {D : Type u} {M : Interpretation D} {v w : Valuation D}

theorem holdsApart_tied_iff :
    (tied b moved).HoldsApart M v ↔
      ∃ w, (∀ z ∉ moved.domain, w z = v z) ∧
        (∀ p ∈ moved, Comparison.HoldsApart M ⟨.equal, .var p.1, p.2⟩ w) ∧ b.HoldsApart M w := by
  cases moved with
  | nil =>
    have single : (tied b []).HoldsApart M v ↔ b.HoldsApart M v := by
      simp only [tied, List.isEmpty_nil, if_true, Formula.predicate, Formula.HoldsApart,
        Formula.HoldsBy, Atom.HoldsApart]
    rw [single]
    constructor
    · intro holds
      exact ⟨v, fun _ _ => rfl, List.forall_mem_nil _, holds⟩
    · rintro ⟨w, same, -, holds⟩
      have equal : w = v := funext fun z => same z List.not_mem_nil
      exact equal ▸ holds
  | cons p moved =>
    rw [tied_cons]
    simp only [Formula.HoldsApart, Formula.HoldsBy, Formula.allHoldBy_iff, List.forall_mem_cons,
      List.forall_mem_map]
    refine exists_congr fun w => and_congr (forall_congr' fun z => ?_) and_comm
    exact imp_congr_left (not_congr mem_added)

/-- The equalities leave the drawn variables one value each. -/
theorem eq_valuation_iff (named : moved.Named) (nodup : moved.domain.Nodup)
    (apart : ∀ p ∈ moved, ∀ y, p.2 = .var y → y.isBlank = false ∧ y.toIdent ∉ moved.domain) :
    ((∀ z ∉ moved.domain, w z = v z) ∧
        ∀ p ∈ moved, Comparison.HoldsApart M ⟨.equal, .var p.1, p.2⟩ w) ↔
      w = moved.valuation M v := by
  have found : ∀ p ∈ moved, moved.find? p.1 = some p.2 := fun p hp =>
    Substitution.find?_of_mem nodup hp
  have tie : ∀ p ∈ moved, Comparison.HoldsApart M ⟨.equal, .var p.1, p.2⟩ w ↔
      w p.1.toIdent = p.2.value M w := by
    intro p hp
    apply Formula.comparison_holdsApart_iff
    intro y hy
    rcases List.mem_cons.1 hy with drawn | hy
    · cases drawn
      exact named.replaced _ _ (found p hp)
    · exact (apart p hp y (List.mem_singleton.1 hy).symm).1
  -- the terms on the right have no drawn variables
  have settled : (∀ z ∉ moved.domain, w z = v z) → ∀ p ∈ moved, p.2.value M w = p.2.value M v :=
    fun same p hp => Formula.value_congr fun y var => same _ (apart p hp y var).2
  constructor
  · rintro ⟨same, equalities⟩
    funext z
    by_cases listed : z ∈ moved.domain
    · rcases Substitution.mem_domain.1 listed with ⟨p, hp, rfl⟩
      calc
        w p.1.toIdent = p.2.value M w := (tie p hp).1 (equalities p hp)
        _ = p.2.value M v := settled same p hp
        _ = moved.valuation M v p.1.toIdent := (Substitution.valuation_of_some (found p hp)).symm
    · exact (same z listed).trans (Substitution.valuation_of_notMem listed).symm
  · rintro rfl
    have same : ∀ z ∉ moved.domain, moved.valuation M v z = v z := fun z outside =>
      Substitution.valuation_of_notMem outside
    refine ⟨same, fun p hp => (tie p hp).2 ?_⟩
    calc
      moved.valuation M v p.1.toIdent = p.2.value M v := Substitution.valuation_of_some (found p hp)
      _ = p.2.value M (moved.valuation M v) := (settled same p hp).symm

/-- If no blank is drawn, the moved terms may be put back into their places. -/
theorem holdsApart_tied_iff_of_named (named : moved.Named) (nodup : moved.domain.Nodup)
    (apart : ∀ p ∈ moved, ∀ y, p.2 = .var y → y.isBlank = false ∧ y.toIdent ∉ moved.domain) :
    (tied b moved).HoldsApart M v ↔ ((Atom.predicate b).mapTerms moved.apply).HoldsApart M v := by
  calc
    (tied b moved).HoldsApart M v ↔ ∃ w, w = moved.valuation M v ∧ b.HoldsApart M w := by
      rw [holdsApart_tied_iff]
      refine exists_congr fun w => ?_
      rw [← and_assoc, eq_valuation_iff named nodup apart]
    _ ↔ (Atom.predicate b).HoldsApart M (moved.valuation M v) := exists_eq_left
    _ ↔ ((Atom.predicate b).mapTerms moved.apply).HoldsApart M v :=
      (Substitution.holdsApart_mapTerms_apply_iff named).symm

end

/-! ## A drawn blank -/

/-- Constants are true, and a row is in a relation if some value is false. -/
def marking : Interpretation (ULift.{u} Bool) where
  relation _ row := ⟨false⟩ ∈ row
  object _ := ⟨true⟩
  data _ := ⟨true⟩

theorem value_marking (t : Term) : t.value marking.{u} (fun _ => ⟨true⟩) = ⟨true⟩ := by
  cases t with
  | var x => rfl
  | const c => cases c <;> rfl

/-- Only a blank can be false. -/
theorem holdsApart_marking_iff {a : PredicateAtom} :
    a.HoldsApart marking.{u} (fun _ => ⟨true⟩) ↔ ∃ x, .var x ∈ a.terms ∧ x.isBlank = true := by
  constructor
  · rintro ⟨row, listed, denotes⟩
    rcases forall₂_exists_left denotes listed with ⟨t, ht, ⟨x, rfl, blank⟩ | value⟩
    · exact ⟨x, ht, blank⟩
    · cases (value_marking t).symm.trans value
  · rintro ⟨x, hx, blank⟩
    -- every blank is read as false, and all else as true
    let reading : Term → ULift.{u} Bool := fun t => ⟨t.var?.all (!·.isBlank)⟩
    have spotted : reading (.var x) = ⟨false⟩ := by simp [reading, Term.var?, blank]
    have denotes : ∀ t ∈ a.terms, t.Denotes marking.{u} (fun _ => ⟨true⟩) (reading t) := by
      intro t _
      cases t with
      | var y =>
        cases hy : y.isBlank with
        | true => exact .inl ⟨y, rfl, hy⟩
        | false =>
          refine .inr ((value_marking _).trans ?_)
          simp [reading, Term.var?, hy]
      | const c => exact .inr (value_marking _)
    refine ⟨a.terms.map reading, List.mem_map.2 ⟨_, hx, spotted⟩, ?_⟩
    exact List.forall₂_map_right_iff.2 (List.forall₂_same.2 denotes)

theorem holdsApart_tied_marking (hx : .var x ∈ b.terms) (blank : x.isBlank = true) :
    (tied b moved).HoldsApart marking.{u} (fun _ => ⟨true⟩) := by
  refine holdsApart_tied_iff.2 ⟨fun _ => ⟨true⟩, fun _ _ => rfl, fun p _ => ?_, ?_⟩
  · exact ⟨⟨true⟩, ⟨true⟩, .inr (value_marking _), .inr (value_marking _), rfl⟩
  · exact holdsApart_marking_iff.2 ⟨x, hx, blank⟩

/-! ## What exploding keeps -/

variable {a : PredicateAtom}

theorem name_mem_names {a : PredicateAtom} (hy : .var y ∈ a.terms) : y.name ∈ a.vars.map (·.name) :=
  List.mem_map_of_mem (mem_variablesOf.2 hy)

theorem mem_free_explode_iff (alphabet : Alphabet) (a : PredicateAtom) :
    z ∈ (a.explode alphabet).free ↔ z ∈ (Formula.predicate a).free := by
  rcases exploding_explode alphabet a with ⟨plain, moved, exploding, result⟩
  rw [result, Formula.mem_free_iff, Formula.mem_free_iff, unbound_tied]
  refine and_congr_left fun named => ?_
  constructor
  · rintro ⟨outside, y, hy | ⟨p, hp, var⟩, rfl⟩
    · rcases exploding.origin hy with old | drawn
      · exact .atom old.1 rfl
      · exact absurd drawn outside
    · exact .atom (var ▸ (exploding.mem_terms hp).1) rfl
  · intro occurs
    rcases Formula.unbound_atom.1 occurs with ⟨y, hy, rfl⟩
    rcases exploding.exists_mem_plain hy List.not_mem_nil with ⟨x, hx, same⟩
    exact ⟨exploding.notMem_domain (name_mem_names hy), x, .inl hx, same⟩

/-- The meaning is kept exactly if no blank is drawn. -/
theorem equivalentApart_explode_iff (alphabet : Alphabet) (a : PredicateAtom) :
    Formula.EquivalentApart.{u} (a.explode alphabet) (.predicate a) ↔
      ∀ z ∈ (a.explode alphabet).bound, z.name ≠ Variable.blankName := by
  rcases exploding_explode alphabet a with ⟨plain, moved, exploding, result⟩
  simp only [result, mem_bound_tied]
  constructor
  · intro equivalent z drawn blank
    rcases Substitution.mem_domain.1 drawn with ⟨p, hp, rfl⟩
    have isBlank : p.1.isBlank = true := beq_iff_eq.2 blank
    have holds : (tied { a with terms := plain } moved).HoldsApart marking.{u} (fun _ => ⟨true⟩) :=
      holdsApart_tied_marking (exploding.mem_plain hp) isBlank
    -- the atom would have a blank itself, whose name is in use
    rcases holdsApart_marking_iff.1 ((equivalent _ _ _).1 holds) with ⟨y, hy, old⟩
    have names : p.1.name = y.name := blank.trans (beq_iff_eq.1 old).symm
    exact exploding.name_notMem hp (names ▸ name_mem_names hy)
  · intro visible D M v
    have shown : ∀ p ∈ moved, p.1.isBlank = false := fun p hp =>
      beq_eq_false_iff_ne.2 (visible _ (Substitution.mem_domain.2 ⟨p, hp, rfl⟩))
    have named : moved.Named := .of_mem fun p hp =>
      ⟨shown p hp, fun y hy => (exploding.mem_terms hp).2 y (Term.var?_eq_some_iff.1 hy)⟩
    have apart : ∀ p ∈ moved, ∀ y, p.2 = .var y →
        y.isBlank = false ∧ y.toIdent ∉ moved.domain := by
      intro p hp y var
      have read := exploding.mem_terms hp
      exact ⟨read.2 y var, exploding.notMem_domain (name_mem_names (var ▸ read.1))⟩
    have restored :
        (Atom.predicate { a with terms := plain }).mapTerms moved.apply = .predicate a :=
      congrArg (fun terms => Atom.predicate { a with terms })
        (exploding.map_apply fun y hy => name_mem_names hy)
    calc
      (tied { a with terms := plain } moved).HoldsApart M v
        ↔ ((Atom.predicate { a with terms := plain }).mapTerms moved.apply).HoldsApart M v :=
          holdsApart_tied_iff_of_named named exploding.nodup_domain apart
      _ ↔ (Formula.predicate a).HoldsApart M v :=
          iff_of_eq (congrArg (Atom.HoldsApart M v) restored)

/-- A blank is drawn only if it is a symbol and the atom has none. -/
theorem name_ne_blankName_of_bound
    (spared : Variable.blankName ∉ alphabet.symbols ∨ ∃ x ∈ a.vars, x.isBlank = true) :
    ∀ z ∈ (a.explode alphabet).bound, z.name ≠ Variable.blankName := by
  rcases exploding_explode alphabet a with ⟨plain, moved, exploding, result⟩
  simp only [result, mem_bound_tied]
  intro z drawn blank
  rcases Substitution.mem_domain.1 drawn with ⟨p, hp, rfl⟩
  rcases spared with absent | ⟨x, hx, old⟩
  · rcases exploding.drawn hp with ⟨reserved, name⟩
    exact Alphabet.fresh_ne_blankName absent reserved (name.symm.trans blank)
  · have names : p.1.name = x.name := blank.trans (beq_iff_eq.1 old).symm
    exact exploding.name_notMem hp (names ▸ List.mem_map_of_mem hx)

/-- An exploded atom has one predicate atom, with the predicate, kind and arity of the given one and
with variables as terms, of which only blanks are repeated. The free variables stay. With
independent blanks the meaning is kept exactly if no blank is bound, which is so if the blank is not
a symbol of the alphabet or occurs in the atom. -/
theorem explode_preserves_meaning_iff (alphabet : Alphabet) (a : PredicateAtom) :
    (∃ b, (a.explode alphabet).atoms.filterMap Atom.predicate? = [b] ∧
      b.predicate = a.predicate ∧ b.kind = a.kind ∧ b.arity = a.arity ∧
      (∀ t ∈ b.terms, ∃ x, t = .var x) ∧
      ((Formula.namedVariables b.terms).map (·.toIdent)).Nodup) ∧
    (∀ z : Ident, z ∈ (a.explode alphabet).free ↔ z ∈ (Formula.predicate a).free) ∧
    (Formula.EquivalentApart.{u} (a.explode alphabet) (.predicate a) ↔
      ∀ z ∈ (a.explode alphabet).bound, z.name ≠ Variable.blankName) ∧
    (Variable.blankName ∉ alphabet.symbols ∨ (∃ x ∈ a.vars, x.isBlank = true) →
      Formula.EquivalentApart.{u} (a.explode alphabet) (.predicate a)) := by
  refine ⟨?_, fun z => mem_free_explode_iff alphabet a, equivalentApart_explode_iff alphabet a, ?_⟩
  · rcases exploding_explode alphabet a with ⟨plain, moved, exploding, result⟩
    rw [result]
    refine ⟨{ a with terms := plain }, filterMap_predicate?_tied _ _, rfl, rfl,
      exploding.length_eq, fun t ht => exploding.exists_var ht, ?_⟩
    exact exploding.nodup_named fun y hy => name_mem_names hy
  · intro spared
    exact (equivalentApart_explode_iff alphabet a).2 (name_ne_blankName_of_bound spared)

/-- `R(x, c, x)` -/
def mixed : PredicateAtom where
  predicate := "R"
  terms := [.var { name := "x" }, .const (.object "c"), .var { name := "x" }]

theorem mixed_explode_equivalentApart :
    Variable.blankName ∉ Alphabet.latin.symbols ∧
      Formula.EquivalentApart.{0} (mixed.explode Alphabet.latin) (.predicate mixed) := by
  have absent : Variable.blankName ∉ Alphabet.latin.symbols := by decide
  exact ⟨absent, (explode_preserves_meaning_iff Alphabet.latin mixed).2.2.2 (.inl absent)⟩

/-- `R(x, x)` -/
def loop : PredicateAtom where
  predicate := "R"
  terms := [.var { name := "x" }, .var { name := "x" }]

/-- The blank that is drawn does not have to be equal to `x`. -/
theorem loop_explode_not_equivalentApart :
    ¬ Formula.EquivalentApart.{0} (loop.explode Alphabet.blanks) (.predicate loop) := by
  intro equivalent
  have visible := (equivalentApart_explode_iff Alphabet.blanks loop).1 equivalent
  rcases exploding_explode Alphabet.blanks loop with ⟨plain, moved, exploding, result⟩
  have read : Exploding Alphabet.blanks [] ["x", "x"]
      [.var { name := "x" }, .var { name := "x" }] plain moved := exploding
  -- the first occurrence stays, and the second one is moved
  have drawn : ∃ p ∈ moved, p.1.name = Alphabet.blanks.fresh ["x", "x"] := by
    cases read with
    | keep _ rest =>
      cases rest with
      | keep first _ => exact absurd first (by decide)
      | move _ drawn _ => exact ⟨_, List.mem_cons_self, drawn⟩
    | move repeated _ _ => exact absurd (repeated _ rfl).2 List.not_mem_nil
  rcases drawn with ⟨p, hp, name⟩
  have bound : p.1.toIdent ∈ (loop.explode Alphabet.blanks).bound := by
    rw [result, mem_bound_tied, Substitution.mem_domain]
    exact ⟨p, hp, rfl⟩
  exact visible _ bound (name.trans (Alphabet.fresh_blanks (by decide)))

end PredicateAtom
end QueryCalculus
