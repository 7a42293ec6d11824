import QueryCalculus.Proofs.Formula.RenamingApart

/-!
# When renaming apart draws names

- `Apart.Clear` : names that can be bound as they are
- `Apart.Visits` : what is known of the state when quantifiers with the given names have been
  visited
- `Apart.visits_bind`, `Formula.visits_apart` : the variables of a quantifier, the quantifiers of a
  formula
- `Formula.names_renameApart_subset_iff` : names are introduced only if a name is bound twice, or
  bound and free
-/

namespace QueryCalculus
namespace Formula
namespace Apart

/-! ## Visited names -/

/-- The names are different from each other and from those that are bound already. -/
def Clear (names bound : List String) : Prop :=
  names.Nodup ∧ ∀ n ∈ names, n ∉ bound

theorem clear_append {xs ys bound later : List String}
    (both : ∀ n, n ∈ later ↔ n ∈ bound ∨ n ∈ xs) :
    Clear (xs ++ ys) bound ↔ Clear xs bound ∧ Clear ys later := by
  constructor
  · rintro ⟨nodup, free⟩
    rcases List.nodup_append.1 nodup with ⟨hxs, hys, apart⟩
    refine ⟨⟨hxs, fun n hn => free n (List.mem_append_left ys hn)⟩, hys, fun n hn listed => ?_⟩
    rcases (both n).1 listed with old | visited
    · exact free n (List.mem_append_right xs hn) old
    · exact apart n visited n hn rfl
  · rintro ⟨⟨hxs, first⟩, hys, rest⟩
    refine ⟨List.nodup_append.2 ⟨hxs, hys, ?_⟩, fun n hn => ?_⟩
    · rintro n hx _ hy rfl
      exact rest n hy ((both n).2 (.inr hx))
    · rcases List.mem_append.1 hn with hn | hn
      · exact first n hn
      · exact fun old => rest n hn ((both n).2 (.inl old))

/-- Quantifiers with the given names have been visited in between: a name has been drawn unless they
are clear, and those that are bound have been added if they are. -/
structure Visits (names : List String) (s s' : State) : Prop where
  grows : s.taken <:+ s'.taken
  drawn : s'.taken = s.taken ↔ Clear names s.bound
  bound : s'.taken = s.taken → ∀ n, n ∈ s'.bound ↔ n ∈ s.bound ∨ n ∈ names

namespace Visits

variable {names more : List String} {s t u : State}

theorem refl (s : State) : Visits [] s s where
  grows := List.suffix_refl _
  drawn := iff_of_true rfl ⟨List.nodup_nil, fun _ hn => absurd hn List.not_mem_nil⟩
  bound _ _ := (or_iff_left List.not_mem_nil).symm

/-- Nothing has to be known of the second part if a name has been drawn in the first one. -/
theorem trans (first : Visits names s t) (grows : t.taken <:+ u.taken)
    (second : t.taken = s.taken → Visits more t u) : Visits (names ++ more) s u := by
  -- names are never given back, so those at the end are those at the start only if none was drawn
  have split : u.taken = s.taken ↔ t.taken = s.taken ∧ u.taken = t.taken := by
    constructor
    · intro same
      have short : t.taken.length ≤ s.taken.length := same ▸ grows.length_le
      have back := first.grows.eq_of_length_le short
      exact ⟨back.symm, same.trans back⟩
    · exact fun both => both.2.trans both.1
  constructor
  · exact first.grows.trans grows
  · rw [split]
    constructor
    · rintro ⟨same, rest⟩
      exact (clear_append (first.bound same)).2 ⟨first.drawn.1 same, (second same).drawn.1 rest⟩
    · intro clear
      have same := first.drawn.2 ((clear_append fun _ => List.mem_append).1 clear).1
      exact ⟨same, (second same).drawn.2 ((clear_append (first.bound same)).1 clear).2⟩
  · intro same n
    have both := split.1 same
    rw [(second both.1).bound both.2, first.bound both.1, List.mem_append, or_assoc]

end Visits

/-! ## Binding a list of variables -/

theorem visits_keep {s : State} {n : String} (free : n ∉ s.bound) :
    Visits [n] s { s with bound := n :: s.bound } where
  grows := List.suffix_refl _
  drawn := iff_of_true rfl ⟨List.nodup_singleton n, fun _ hn => List.mem_singleton.1 hn ▸ free⟩
  bound _ m := by rw [List.mem_cons, List.mem_singleton, or_comm]

theorem visits_rename {s : State} {n fresh : String} (bound : n ∈ s.bound) :
    Visits [n] s { bound := fresh :: s.bound, taken := fresh :: s.taken } where
  grows := List.suffix_cons _ _
  drawn := iff_of_false (List.cons_ne_self _ _) fun clear =>
    clear.2 n (List.mem_singleton_self n) bound
  bound same := absurd same (List.cons_ne_self _ _)

theorem visits_bind (alphabet : Alphabet) (xs : List Variable) (done : VarSet)
    (pending : Renaming) (s : State) :
    Visits (xs.map (·.name)) s (bind alphabet xs done pending s).2 := by
  induction xs generalizing done pending s with
  | nil => exact .refl s
  | cons x xs ih =>
    by_cases bound : x.name ∈ s.bound
    · let y := x.renamed (alphabet.fresh s.taken)
      have rest := ih (done.insert y) (pending ++ [(x, y)])
        { bound := y.name :: s.bound, taken := y.name :: s.taken }
      rw [bind, if_pos (List.contains_iff_mem.2 bound)]
      exact (visits_rename bound).trans rest.grows fun _ => rest
    · have rest := ih (done.insert x) pending { s with bound := x.name :: s.bound }
      rw [bind, if_neg fun found => bound (List.contains_iff_mem.1 found)]
      exact (visits_keep bound).trans rest.grows fun _ => rest

/-- Clear names need no renamings. -/
theorem pending_bind {alphabet : Alphabet} {xs : List Variable} {done : VarSet}
    {pending : Renaming} {s : State} (clear : Clear (xs.map (·.name)) s.bound) :
    (bind alphabet xs done pending s).1.2 = pending := by
  induction xs generalizing done s with
  | nil => rfl
  | cons x xs ih =>
    have free : x.name ∉ s.bound := clear.2 _ List.mem_cons_self
    rw [bind, if_neg fun found => free (List.contains_iff_mem.1 found)]
    exact ih ((clear_append fun n => (visits_keep free).bound rfl n).1 clear).2

end Apart

/-! ## Formulas -/

open Apart

variable {alphabet : Alphabet}

mutual

theorem taken_suffix_apart (pending : Renaming) :
    ∀ (f : Formula) (s : State), s.taken <:+ (f.apart alphabet pending s).2.taken
  | .atom _, _ => List.suffix_refl _
  | .junction _ parts, s => taken_suffix_apartAll pending parts s
  | .neg body, s => taken_suffix_apart pending body s
  | .quant _ vars body, s =>
    have bound := visits_bind alphabet (applySet pending vars).toList ∅ pending s
    bound.grows.trans (taken_suffix_apart _ body _)

theorem taken_suffix_apartAll (pending : Renaming) :
    ∀ (fs : List Formula) (s : State), s.taken <:+ (apartAll alphabet pending fs s).2.taken
  | [], _ => List.suffix_refl _
  | f :: fs, s => (taken_suffix_apart pending f s).trans (taken_suffix_apartAll pending fs _)

end

theorem map_name_toList (vars : VarSet) :
    vars.toList.map (·.name) = vars.idents.map Ident.name := by
  rw [VarSet.idents, List.map_map]
  rfl

theorem visits_apartAll {parts : List Formula}
    (each : ∀ f ∈ parts, ∀ s, Visits (f.binders.map Ident.name) s (f.apart alphabet [] s).2)
    (s : State) :
    Visits ((bindersAll parts).map Ident.name) s (apartAll alphabet [] parts s).2 := by
  induction parts generalizing s with
  | nil => exact .refl s
  | cons f fs ih =>
    have first := each f List.mem_cons_self s
    have rest := ih (fun g hg => each g (List.mem_cons_of_mem f hg)) (f.apart alphabet [] s).2
    rw [bindersAll, List.map_append]
    exact first.trans rest.grows fun _ => rest

theorem visits_apart (alphabet : Alphabet) (f : Formula) (s : State) :
    Visits (f.binders.map Ident.name) s (f.apart alphabet [] s).2 := by
  induction f generalizing s with
  | atom a => exact .refl s
  | junction c parts ih => exact visits_apartAll ih s
  | neg body ih => exact ih s
  | quant q vars body ih =>
    have bound := visits_bind alphabet vars.toList ∅ [] s
    rw [map_name_toList] at bound
    have unfolded : ((quant q vars body).apart alphabet [] s).2 =
        (body.apart alphabet (bind alphabet vars.toList ∅ [] s).1.2
          (bind alphabet vars.toList ∅ [] s).2).2 := rfl
    rw [binders, List.map_append, unfolded]
    refine bound.trans (taken_suffix_apart _ body _) fun same => ?_
    -- no renamings are handed down to the body
    have kept : (bind alphabet vars.toList ∅ [] s).1.2 = [] :=
      pending_bind (map_name_toList vars ▸ bound.drawn.1 same)
    rw [kept]
    exact ih _

/-! ## Whole formulas -/

/-- No name is bound twice, and none that a free variable has. -/
def NamedApart (f : Formula) : Prop :=
  (f.binders.map Ident.name).Nodup ∧ ∀ x ∈ f.binders, ∀ y ∈ f.free.idents, x.name ≠ y.name

instance (f : Formula) : Decidable f.NamedApart :=
  inferInstanceAs (Decidable (_ ∧ _))

theorem clear_iff_namedApart {f : Formula} :
    Clear (f.binders.map Ident.name) (f.free.toList.map (·.name)) ↔ f.NamedApart := by
  rw [map_name_toList]
  refine and_congr_right fun _ => ?_
  constructor
  · intro clear x hx y hy same
    exact clear _ (List.mem_map_of_mem hx) (List.mem_map.2 ⟨y, hy, same.symm⟩)
  · intro apart n hn hm
    rcases List.mem_map.1 hn with ⟨x, hx, rfl⟩
    rcases List.mem_map.1 hm with ⟨y, hy, same⟩
    exact apart x hx y hy same.symm

/-- Names are introduced only where they are needed. -/
theorem names_renameApart_subset_iff (alphabet : Alphabet) {f : Formula} :
    (f.renameApart alphabet).names ⊆ f.names ↔ f.NamedApart := by
  have visited := visits_apart alphabet f
    { bound := f.free.toList.map (·.name), taken := f.names }
  rw [← clear_iff_namedApart, ← visited.drawn]
  constructor
  · intro old
    refine (fresh_mem_renameApart alphabet f).resolve_right fun drawn => ?_
    exact alphabet.fresh_notMem f.names (old drawn)
  · exact names_renameApart_subset

end Formula
end QueryCalculus
