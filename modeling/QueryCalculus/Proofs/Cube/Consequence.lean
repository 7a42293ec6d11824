import QueryCalculus.Cube.Implication
import QueryCalculus.Proofs.Cube.Satisfiability

/-!
# Consequences of conjunctions

- `Cube.entails_predicate_iff`, `Cube.entails_different_iff` : implied atoms, in terms of the
  classes
- `Cube.implies_iff` : a conjunction is implied if each of its atoms is
- `Cube.Consequence` : truth of an atom wherever the conjunction is true
- `Cube.holds_termModel_iff` : just the implied atoms are true where every class is an element
- `Cube.isContradiction_insert_iff` : what can be contradicted by one more equality
- `Cube.impliesAtom_decides_consequence` : which consequences are found

An inequality of two constants, or of terms that equal different constants, is a consequence of
unique names and of no inequality. These are the only consequences that are not found.
-/

namespace QueryCalculus

universe u

variable {D : Type u} {M : Interpretation D} {v : Valuation D}

def Atom.isInequality : Atom → Bool
  | .comparison e => e.relation == .different
  | _ => false

namespace Cube

variable {c d : Cube} {a b : Atom} {s t : Term} {k l : Term.Key}

/-! ## Implied atoms -/

theorem mem_predicates {a : PredicateAtom} : a ∈ c.predicates ↔ .predicate a ∈ c.atoms := by
  rw [predicates, List.mem_filterMap]
  refine ⟨?_, fun ha => ⟨_, ha, rfl⟩⟩
  rintro ⟨b, hb, same⟩
  cases b with
  | predicate b => cases same; exact hb
  | _ => cases same

theorem sameInstance_iff {classes : List (List Term)} {a b : PredicateAtom} :
    sameInstance classes a b = true ↔
      a.predicate = b.predicate ∧
        List.Forall₂ (Joined classes) (a.terms.map Term.key) (b.terms.map Term.key) := by
  rw [List.forall₂_map_left_iff, List.forall₂_map_right_iff, List.forall₂_iff_zip]
  simp only [sameInstance, PredicateAtom.arity, Bool.and_eq_true, beq_iff_eq, List.all_eq_true,
    equivalentIn_iff, and_assoc, Prod.forall]

/-- A predicate atom is implied by an own atom with equivalent terms. -/
theorem entails_predicate_iff {a : PredicateAtom} :
    c.entails (.predicate a) = true ↔
      ∃ own, .predicate own ∈ c.atoms ∧ own.predicate = a.predicate ∧
        List.Forall₂ (Joined c.classes) (own.terms.map Term.key) (a.terms.map Term.key) := by
  simp only [entails, List.any_eq_true, mem_predicates, sameInstance_iff]

theorem entails_equal_iff :
    c.entails (.comparison ⟨.equal, s, t⟩) = true ↔ Joined c.classes s.key t.key :=
  equivalentIn_iff

/-- An inequality has sides that are equivalent to the keys, in one order or the other. -/
def Opposed (c : Cube) (k l : Term.Key) : Prop :=
  ∃ i ∈ c.inequalities,
    Joined c.classes i.left.key k ∧ Joined c.classes i.right.key l ∨
      Joined c.classes i.left.key l ∧ Joined c.classes i.right.key k

theorem Opposed.symm (h : c.Opposed k l) : c.Opposed l k := by
  obtain ⟨i, hi, sides⟩ := h
  exact ⟨i, hi, sides.symm⟩

theorem entails_different_iff :
    c.entails (.comparison ⟨.different, s, t⟩) = true ↔ c.Opposed s.key t.key := by
  simp only [entails, sameSides, Opposed, List.any_eq_true, Bool.or_eq_true, Bool.and_eq_true,
    equivalentIn_iff]

/-- Equal atoms are implied alike. -/
theorem entails_of_same (same : a.same b = true) (h : c.entails a = true) :
    c.entails b = true := by
  revert h
  refine Formula.same_atom_cases (P := fun a b => c.entails a = true → c.entails b = true) ?truth
    ?predicate ?comparison same
  case truth => exact fun _ h => h
  case predicate =>
    intro a b name keys _ h
    rw [entails_predicate_iff] at h ⊢
    rwa [← name, ← keys]
  case comparison =>
    -- what is known about two keys is known in either order
    rintro ⟨r, s, t⟩ ⟨r', s', t'⟩ relation sides h
    cases relation
    cases r with
    | equal =>
      rw [entails_equal_iff] at h ⊢
      rcases sides with ⟨left, right⟩ | ⟨left, right⟩
      · rwa [← left, ← right]
      · rw [← left, ← right]
        exact h.symm
    | different =>
      rw [entails_different_iff] at h ⊢
      rcases sides with ⟨left, right⟩ | ⟨left, right⟩
      · rwa [← left, ← right]
      · rw [← left, ← right]
        exact h.symm

theorem impliesAtom_iff :
    c.impliesAtom a = true ↔ c.isContradiction = true ∨ c.entails a = true := by
  rw [impliesAtom, Bool.or_eq_true]

theorem impliesAtom_of_same (same : a.same b = true) (h : c.impliesAtom a = true) :
    c.impliesAtom b = true := by
  rw [impliesAtom_iff] at h ⊢
  exact h.imp_right (entails_of_same same)

/-- The own atoms are implied, as long as they can be true. -/
theorem entails_of_mem (ha : a ∈ c.atoms) (possible : a ≠ .truth false) : c.entails a = true := by
  cases a with
  | truth b =>
    cases b with
    | false => exact (possible rfl).elim
    | true => rfl
  | predicate a =>
    exact entails_predicate_iff.2 ⟨a, ha, rfl, List.forall₂_same.2 fun k _ => .refl k⟩
  | comparison i =>
    obtain ⟨relation, s, t⟩ := i
    cases relation with
    | equal => exact entails_equal_iff.2 (joined_foldl_of_mem (mem_comparisons.2 ⟨ha, rfl⟩) [])
    | different =>
      exact entails_different_iff.2 ⟨_, mem_comparisons.2 ⟨ha, rfl⟩, .inl ⟨.refl _, .refl _⟩⟩

theorem entails_of_isTautology (valid : a.isTautology = true) : c.entails a = true := by
  cases a with
  | truth b => exact valid
  | predicate a => cases valid
  | comparison i =>
    obtain ⟨relation, s, t⟩ := i
    obtain ⟨equal, same⟩ : relation = .equal ∧ s.key = t.key := by
      simpa [Atom.isTautology, Comparison.isTautology, Term.beq_iff] using valid
    cases equal
    exact entails_equal_iff.2 (.inl same)

/-- A conjunction is implied if each of its atoms is. -/
theorem implies_iff : c.implies d = true ↔ ∀ a ∈ d.atoms, c.impliesAtom a = true := by
  simp only [implies, isTautology, Bool.or_eq_true, List.all_eq_true, impliesAtom_iff]
  constructor
  · rintro ((contradiction | valid) | implied) a ha
    · exact .inl contradiction
    · exact .inr (entails_of_isTautology (valid a ha))
    · exact .inr (implied a ha)
  · intro all
    cases consistent : c.isContradiction with
    | true => exact .inl (.inl rfl)
    | false =>
      refine .inr fun a ha => (all a ha).resolve_left ?_
      simp [consistent]

/-! ## Consequences -/

/-- The atom is true wherever the conjunction is, in all interpretations with unique names. -/
def Consequence (c : Cube) (a : Atom) : Prop :=
  ∀ (D : Type u) (M : Interpretation D) (v : Valuation D), M.UniqueNames → c.Holds M v → a.Holds M v

theorem Holds.of_entails (holds : c.Holds M v) (h : c.entails a = true) : a.Holds M v := by
  cases a with
  | truth b => exact h
  | predicate a =>
    obtain ⟨own, present, name, joined⟩ := entails_predicate_iff.1 h
    -- the terms of the own atom have the same values
    have row : a.terms.map (Term.value M v) = own.terms.map (Term.value M v) := by
      have values : (own.terms.map Term.key).map (Term.Key.value M v) =
          (a.terms.map Term.key).map (Term.Key.value M v) := by
        rw [← List.forall₂_eq_eq_eq, List.forall₂_map_left_iff, List.forall₂_map_right_iff]
        exact joined.imp fun k l => value_eq_of_joined holds
      rw [List.map_map, List.map_map] at values
      exact values.symm
    have true_own : own.Holds M v := holds _ present
    rwa [PredicateAtom.Holds, name, ← row] at true_own
  | comparison i =>
    obtain ⟨relation, s, t⟩ := i
    cases relation with
    | equal => exact value_eq_of_joined holds (entails_equal_iff.1 h)
    | different =>
      obtain ⟨i, hi, sides⟩ := entails_different_iff.1 h
      obtain ⟨present, different⟩ := mem_comparisons.1 hi
      have apart : i.Holds M v := holds _ present
      rw [Comparison.Holds, different] at apart
      intro same
      rcases sides with ⟨left, right⟩ | ⟨left, right⟩
      · exact apart ((value_eq_of_joined holds left).trans
          (same.trans (value_eq_of_joined holds right).symm))
      · exact apart ((value_eq_of_joined holds left).trans
          (same.symm.trans (value_eq_of_joined holds right).symm))

theorem Holds.of_impliesAtom (holds : c.Holds M v) (names : M.UniqueNames)
    (implied : c.impliesAtom a = true) : a.Holds M v := by
  refine holds.of_entails ((impliesAtom_iff.1 implied).resolve_left ?_)
  simp [isContradiction_eq_false names holds]

/-! ## The model of terms -/

/-- The predicates are true of the terms of the own atoms only. -/
def ownRows (c : Cube) (predicate : String) (row : List (ULift.{u} (Quot c.Equated))) : Prop :=
  ∃ own, .predicate own ∈ c.atoms ∧ own.predicate = predicate ∧
    own.terms.map (fun t => c.element t.key) = row

/-- The interpretation in which the elements are the classes of terms. -/
def termModel (c : Cube) : Interpretation (ULift.{u} (Quot c.Equated)) :=
  .ofKeys c.element c.ownRows

theorem map_element_eq_iff {ss ts : List Term} :
    (ss.map fun t => c.element t.key) = ts.map (fun t => c.element t.key) ↔
      List.Forall₂ (Joined c.classes) (ss.map Term.key) (ts.map Term.key) := by
  rw [← List.forall₂_eq_eq_eq, List.forall₂_map_left_iff, List.forall₂_map_right_iff,
    List.forall₂_map_left_iff, List.forall₂_map_right_iff]
  simp only [element_eq_iff]

/-- Besides the inequalities, no more atoms are true of the classes than those that are implied. -/
theorem holds_termModel_iff (affirmed : a.isInequality = false) :
    a.Holds c.termModel (.ofKeys c.element) ↔ c.entails a = true := by
  cases a with
  | truth b => exact Iff.rfl
  | predicate a =>
    have row : a.terms.map (Term.value c.termModel (.ofKeys c.element)) =
        a.terms.map fun t => c.element t.key :=
      List.map_congr_left fun t _ => value_ofKeys t
    rw [Atom.Holds, PredicateAtom.Holds, row, entails_predicate_iff]
    simp only [termModel, Interpretation.ofKeys, ownRows, map_element_eq_iff]
  | comparison i =>
    obtain ⟨relation, s, t⟩ := i
    cases relation with
    | different => cases affirmed
    | equal =>
      rw [entails_equal_iff, ← element_eq_iff, Atom.Holds, Comparison.Holds, termModel,
        value_ofKeys, value_ofKeys]
      exact Iff.rfl

theorem Consequence.impliesAtom (consequence : c.Consequence.{u} a)
    (affirmed : a.isInequality = false) : c.impliesAtom a = true := by
  cases consistent : c.isContradiction with
  | true => exact impliesAtom_iff.2 (.inl consistent)
  | false =>
    -- the atom is true of the classes of terms, like everything that follows
    refine impliesAtom_iff.2 (.inr ((holds_termModel_iff affirmed).1 ?_))
    refine consequence _ c.termModel (.ofKeys c.element) (uniqueNames_ofKeys consistent) ?_
    exact holds_ofKeys consistent fun own present => ⟨own, present, rfl, rfl⟩

/-! ## One more equality -/

theorem mem_insert (h : b ∈ (c.insert a).atoms) : b ∈ c.atoms ∨ b = a := by
  unfold insert at h
  split at h
  · exact .inl h
  · simpa using h

theorem subset_insert (h : b ∈ c.atoms) : b ∈ (c.insert a).atoms := by
  unfold insert
  split
  · exact h
  · exact List.mem_append_left _ h

theorem holds_insert_iff : (c.insert a).Holds M v ↔ c.Holds M v ∧ a.Holds M v := by
  constructor
  · intro holds
    refine ⟨fun b hb => holds b (subset_insert hb), ?_⟩
    unfold insert at holds
    split at holds
    · next present =>
      -- an atom that is not added is equal to one that is there
      obtain ⟨b, hb, same⟩ := List.contains_iff_exists_mem_beq.1 present
      exact (Formula.atom_holds_iff_of_same same).2 (holds b hb)
    · exact holds a (by simp)
  · rintro ⟨holds, more⟩ b hb
    rcases mem_insert hb with hb | rfl
    · exact holds b hb
    · exact more

/-- The equality of two terms joins what is joined to one of them with what is joined to the
other. -/
theorem joined_insert_iff :
    Joined (c.insert (.comparison ⟨.equal, s, t⟩)).classes k l ↔
      Joined c.classes k l ∨ Joined c.classes s.key k ∧ Joined c.classes t.key l ∨
        Joined c.classes s.key l ∧ Joined c.classes t.key k := by
  have separate := c.separate_classes
  unfold insert
  split
  · next present =>
    -- an equal atom has joined the two terms before
    have sides : Joined c.classes s.key t.key := by
      obtain ⟨b, hb, same⟩ := List.contains_iff_exists_mem_beq.1 present
      refine entails_equal_iff.1 (entails_of_same (Formula.same_atom_comm _ _ ▸ same)
        (entails_of_mem hb ?_))
      rintro rfl
      cases same
    refine ⟨.inl, ?_⟩
    rintro (joined | ⟨left, right⟩ | ⟨left, right⟩)
    · exact joined
    · exact left.symm.trans separate (sides.trans separate right)
    · exact right.symm.trans separate (sides.symm.trans separate left)
  · have merged : classes ⟨c.atoms ++ [.comparison ⟨.equal, s, t⟩]⟩ =
        mergeClasses c.classes ⟨.equal, s, t⟩ := by
      simp [classes, equalities, comparisons, List.filterMap_append, Atom.comparison?]
    rw [merged, joined_mergeClasses_iff]
    refine or_congr_right' fun apart => ⟨?_, ?_⟩
    · -- two keys that are linked to the same side are joined already
      rintro ⟨left | left, right | right⟩
      · exact (apart (left.symm.trans separate right)).elim
      · exact .inl ⟨left, right⟩
      · exact .inr ⟨right, left⟩
      · exact (apart (left.symm.trans separate right)).elim
    · rintro (⟨left, right⟩ | ⟨left, right⟩)
      · exact ⟨.inl left, .inr right⟩
      · exact ⟨.inr right, .inl left⟩

theorem mem_inequalities_insert {i : Comparison} :
    i ∈ (c.insert (.comparison ⟨.equal, s, t⟩)).inequalities ↔ i ∈ c.inequalities := by
  simp only [inequalities, mem_comparisons]
  refine and_congr_left fun different => ⟨fun h => (mem_insert h).resolve_right ?_, subset_insert⟩
  rintro ⟨⟩
  cases different

/-- The keys are equivalent to different constants. -/
def Distinguished (c : Cube) (k l : Term.Key) : Prop :=
  ∃ p q : Term, p.isConstant = true ∧ q.isConstant = true ∧ p.key ≠ q.key ∧
    Joined c.classes k p.key ∧ Joined c.classes l q.key

/-- The equality of two terms contradicts an inequality of them, or joins two constants. -/
theorem isContradiction_insert_iff :
    (c.insert (.comparison ⟨.equal, s, t⟩)).isContradiction = true ↔
      c.isContradiction = true ∨ c.Opposed s.key t.key ∨ c.Distinguished s.key t.key := by
  rw [isContradiction_iff, isContradiction_iff]
  simp only [mem_inequalities_insert, joined_insert_iff]
  -- what is joined was joined before, or by the new equality in one of two directions
  constructor
  · rintro (absurd | ⟨i, hi, joined | ⟨left, right⟩ | ⟨left, right⟩⟩ |
      ⟨p, q, hp, hq, joined | ⟨left, right⟩ | ⟨left, right⟩, differ⟩)
    · exact .inl (.inl ((mem_insert absurd).resolve_right Atom.noConfusion))
    · exact .inl (.inr (.inl ⟨i, hi, joined⟩))
    · exact .inr (.inl ⟨i, hi, .inl ⟨left.symm, right.symm⟩⟩)
    · exact .inr (.inl ⟨i, hi, .inr ⟨right.symm, left.symm⟩⟩)
    · exact .inl (.inr (.inr ⟨p, q, hp, hq, joined, differ⟩))
    · exact .inr (.inr ⟨p, q, hp, hq, differ, left, right⟩)
    · exact .inr (.inr ⟨q, p, hq, hp, differ.symm, left, right⟩)
  · rintro ((absurd | ⟨i, hi, joined⟩ | ⟨p, q, hp, hq, joined, differ⟩) |
      ⟨i, hi, ⟨left, right⟩ | ⟨left, right⟩⟩ | ⟨p, q, hp, hq, differ, left, right⟩)
    · exact .inl (subset_insert absurd)
    · exact .inr (.inl ⟨i, hi, .inl joined⟩)
    · exact .inr (.inr ⟨p, q, hp, hq, .inl joined, differ⟩)
    · exact .inr (.inl ⟨i, hi, .inr (.inl ⟨left.symm, right.symm⟩)⟩)
    · exact .inr (.inl ⟨i, hi, .inr (.inr ⟨right.symm, left.symm⟩)⟩)
    · exact .inr (.inr ⟨p, q, hp, hq, .inr (.inl ⟨left, right⟩), differ⟩)

/-- An inequality is a consequence if the equality of its sides is a contradiction. -/
theorem consequence_different_iff :
    c.Consequence.{u} (.comparison ⟨.different, s, t⟩) ↔
      (c.insert (.comparison ⟨.equal, s, t⟩)).isContradiction = true := by
  constructor
  · intro consequence
    -- where the equality is added to the conjunction, the inequality would be false
    refine isContradiction_of_not_holds fun D M v names _ holds => ?_
    obtain ⟨holds, same⟩ := holds_insert_iff.1 holds
    exact consequence D M v names holds same
  · intro contradiction D M v names holds same
    have equal : Atom.Holds M v (.comparison ⟨.equal, s, t⟩) := same
    have consistent := isContradiction_eq_false names (holds_insert_iff.2 ⟨holds, equal⟩)
    simp [consistent] at contradiction

/-- What is implied is a consequence, and every consequence that is no inequality is implied. An
inequality that is a consequence is implied, or its sides are equivalent to different constants. -/
theorem impliesAtom_decides_consequence (c : Cube) (a : Atom) :
    (c.impliesAtom a = true → c.Consequence.{u} a) ∧
    (a.isInequality = false → c.Consequence.{u} a → c.impliesAtom a = true) ∧
    (∀ s t, a = .comparison ⟨.different, s, t⟩ →
      (c.Consequence.{u} a ↔ c.impliesAtom a = true ∨ c.Distinguished s.key t.key)) := by
  refine ⟨?_, ?_, ?_⟩
  · exact fun implied D M v names holds => holds.of_impliesAtom names implied
  · exact fun affirmed consequence => consequence.impliesAtom affirmed
  · rintro s t rfl
    rw [consequence_different_iff, isContradiction_insert_iff, impliesAtom_iff,
      entails_different_iff, or_assoc]

/-- `R(x, y)` where `x` and `y` are two constants. -/
def namedPair : Cube :=
  ofAtoms [
    .predicate ⟨"R", [.var ⟨⟨"x", none⟩, .object⟩, .var ⟨⟨"y", none⟩, .undefined⟩], .undefined⟩,
    .comparison ⟨.equal, .var ⟨⟨"x", none⟩, .undefined⟩, .const (.object "a")⟩,
    .comparison ⟨.equal, .const (.data "1" .integer), .var ⟨⟨"y", none⟩, .undefined⟩⟩]

/-- The constants may take the place of the variables. That the variables differ follows from the
constants, but is not found. -/
theorem namedPair_consequences :
    namedPair.Consequence.{0}
      (.predicate ⟨"R", [.const (.object "a"), .const (.data "1" .string)], .role⟩) ∧
    namedPair.Consequence.{0}
      (.comparison ⟨.different, .var ⟨⟨"x", none⟩, .undefined⟩, .var ⟨⟨"y", none⟩, .data⟩⟩) ∧
    namedPair.impliesAtom
      (.comparison ⟨.different, .var ⟨⟨"x", none⟩, .undefined⟩, .var ⟨⟨"y", none⟩, .data⟩⟩) =
        false := by
  refine ⟨(namedPair.impliesAtom_decides_consequence _).1 (by decide), ?_, by decide⟩
  refine ((namedPair.impliesAtom_decides_consequence _).2.2 _ _ rfl).2 (.inr ?_)
  refine ⟨.const (.object "a"), .const (.data "1" .integer), rfl, rfl, by decide, ?_, ?_⟩
  · exact equivalentIn_iff.1 (by decide)
  · exact equivalentIn_iff.1 (by decide)

end Cube
end QueryCalculus
