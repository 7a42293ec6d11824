import Mathlib.Data.Quot
import QueryCalculus.Proofs.Cube.Classes
import QueryCalculus.Proofs.Formula.Equivalence

/-!
# Satisfiable conjunctions

- `Interpretation.UniqueNames` : different constants mean different elements
- `Formula.Unsatisfiable`, `Formula.UnsatisfiableApart` : false in all these interpretations, with
  the blank as an ordinary variable and with blanks that are independent of each other
- `Cube.Holds` : all atoms of a conjunction are true
- `Cube.isContradiction_iff` : what a contradiction is, in terms of the classes
- `Cube.isContradiction_eq_false` : a conjunction that is true somewhere is no contradiction
- `Cube.holds_ofKeys` : one that is no contradiction is true where every class is an element
- `Cube.isContradiction_iff_unsatisfiable` : contradictions are the unsatisfiable conjunctions
-/

namespace QueryCalculus

universe u

variable {D : Type u} {M : Interpretation D} {v : Valuation D}

/-! ## Unique names -/

/-- Different constants mean different elements. -/
structure Interpretation.UniqueNames (M : Interpretation D) : Prop where
  object : Function.Injective M.object
  data : Function.Injective M.data
  apart : ∀ iri value, M.object iri ≠ M.data value

namespace Formula

/-- False in every interpretation with unique names. -/
def Unsatisfiable (f : Formula) : Prop :=
  ∀ (D : Type u) (M : Interpretation D) (v : Valuation D), M.UniqueNames → ¬ f.Holds M v

/-- False in every interpretation with unique names, whatever the single blanks stand for. -/
def UnsatisfiableApart (f : Formula) : Prop :=
  ∀ (D : Type u) (M : Interpretation D) (v : Valuation D), M.UniqueNames → ¬ f.HoldsApart M v

end Formula

theorem Term.isConstant_congr {s t : Term} (h : s.key = t.key) : s.isConstant = t.isConstant := by
  cases s with
  | var x =>
    cases t with
    | var y => rfl
    | const d => cases d <;> cases h
  | const c =>
    cases t with
    | var y => cases c <;> cases h
    | const d => rfl

theorem Interpretation.UniqueNames.key_eq (names : M.UniqueNames) {s t : Term}
    (hs : s.isConstant = true) (ht : t.isConstant = true) (same : s.value M v = t.value M v) :
    s.key = t.key := by
  cases s with
  | var x => cases hs
  | const a =>
    cases t with
    | var y => cases ht
    | const b =>
      cases a <;> cases b
      · exact congrArg Term.Key.object (names.object same)
      · exact (names.apart _ _ same).elim
      · exact (names.apart _ _ same.symm).elim
      · exact congrArg Term.Key.data (names.data same)

/-! ## Interpretations by keys -/

section OfKeys

variable {f : Term.Key → D} {relation : String → List D → Prop}

/-- The interpretation in which constants stand for what `f` makes of their keys. -/
def Interpretation.ofKeys (f : Term.Key → D) (relation : String → List D → Prop) :
    Interpretation D where
  relation := relation
  object iri := f (.object iri)
  data value := f (.data value)

def Valuation.ofKeys (f : Term.Key → D) : Valuation D :=
  fun x => f (.var x)

theorem value_ofKeys (t : Term) : t.value (.ofKeys f relation) (.ofKeys f) = f t.key := by
  rcases t with x | (iri | value) <;> rfl

end OfKeys

namespace Cube

variable {c : Cube} {k l : Term.Key} {e : Comparison}

theorem mem_comparisons {relation : Relation} :
    e ∈ c.comparisons relation ↔ .comparison e ∈ c.atoms ∧ e.relation = relation := by
  simp only [comparisons, List.mem_filter, List.mem_filterMap, decide_eq_true_eq]
  refine and_congr_left fun _ => ⟨?_, fun he => ⟨_, he, rfl⟩⟩
  rintro ⟨a, ha, same⟩
  cases a with
  | comparison d => cases same; exact ha
  | _ => cases same

/-! ## Contradictions -/

/-- A class without repetitions has a conflict if it holds two different constants. -/
theorem hasConflict_iff {group : List Term} (nodup : (group.map Term.key).Nodup) :
    hasConflict group = true ↔
      ∃ s ∈ group, ∃ t ∈ group, s.isConstant = true ∧ t.isConstant = true ∧ s.key ≠ t.key := by
  rw [hasConflict, decide_eq_true_eq, List.countP_eq_length_filter]
  have found : ∀ t, t ∈ group.filter Term.isConstant ↔ t ∈ group ∧ t.isConstant = true :=
    fun t => List.mem_filter
  have distinct : ((group.filter Term.isConstant).map Term.key).Nodup :=
    nodup.sublist (List.filter_sublist.map _)
  -- the class holds no constant, one constant, or at least two of them
  rcases constants : group.filter Term.isConstant with _ | ⟨s, _ | ⟨t, rest⟩⟩
  · simp only [constants, List.not_mem_nil, false_iff, not_and] at found
    simp only [List.length_nil, Nat.not_lt_zero, false_iff]
    rintro ⟨s, hs, -, -, constant, -⟩
    exact found s hs constant
  · simp only [constants, List.mem_singleton] at found
    simp only [List.length_singleton, Nat.lt_irrefl, false_iff]
    rintro ⟨s', hs, t, ht, constant, constant', differ⟩
    exact differ (by rw [(found s').2 ⟨hs, constant⟩, (found t).2 ⟨ht, constant'⟩])
  · rw [constants] at found distinct
    obtain ⟨hs, constant⟩ := (found s).1 (by simp)
    obtain ⟨ht, constant'⟩ := (found t).1 (by simp)
    refine iff_of_true (by simp) ⟨s, hs, t, ht, constant, constant', fun same => ?_⟩
    simp [same] at distinct

theorem exists_hasConflict_iff :
    (∃ group ∈ c.classes, hasConflict group = true) ↔
      ∃ s t : Term, s.isConstant = true ∧ t.isConstant = true ∧
        Joined c.classes s.key t.key ∧ s.key ≠ t.key := by
  constructor
  · rintro ⟨group, hg, conflict⟩
    obtain ⟨s, hs, t, ht, constant, constant', differ⟩ :=
      (hasConflict_iff (c.separate_classes.nodup group hg)).1 conflict
    exact ⟨s, t, constant, constant',
      .inr ⟨group, hg, List.mem_map_of_mem hs, List.mem_map_of_mem ht⟩, differ⟩
  · rintro ⟨s, t, constant, constant', joined, differ⟩
    obtain ⟨group, hg, hs, ht⟩ := joined.resolve_left differ
    -- the class may hold the constants with other annotations
    obtain ⟨s', hs', sameS⟩ := List.mem_map.1 hs
    obtain ⟨t', ht', sameT⟩ := List.mem_map.1 ht
    refine ⟨group, hg, (hasConflict_iff (c.separate_classes.nodup group hg)).2 ?_⟩
    exact ⟨s', hs', t', ht', by rwa [Term.isConstant_congr sameS],
      by rwa [Term.isConstant_congr sameT], by rwa [sameS, sameT]⟩

theorem contains_false_iff {atoms : List Atom} :
    atoms.contains (.truth false) = true ↔ .truth false ∈ atoms := by
  rw [List.contains_iff_exists_mem_beq]
  constructor
  · rintro ⟨a, ha, same⟩
    cases a with
    | truth b => cases b with
      | false => exact ha
      | true => cases same
    | _ => cases same
  · exact fun present => ⟨_, present, rfl⟩

/-- A contradiction has the false atom, or its equalities join the sides of an inequality or two
different constants. -/
theorem isContradiction_iff :
    c.isContradiction = true ↔
      .truth false ∈ c.atoms ∨
      (∃ i ∈ c.inequalities, Joined c.classes i.left.key i.right.key) ∨
      ∃ s t : Term, s.isConstant = true ∧ t.isConstant = true ∧
        Joined c.classes s.key t.key ∧ s.key ≠ t.key := by
  rw [isContradiction, Bool.or_eq_true, Bool.or_eq_true, or_assoc, contains_false_iff,
    List.any_eq_true, List.any_eq_true, exists_hasConflict_iff]
  simp only [equivalentIn_iff]

/-! ## Truth of conjunctions -/

/-- All atoms are true. -/
def Holds (c : Cube) (M : Interpretation D) (v : Valuation D) : Prop :=
  ∀ a ∈ c.atoms, a.Holds M v

theorem Holds.equalities (holds : c.Holds M v) : ∀ e ∈ c.equalities, e.Holds M v :=
  fun e he => holds (.comparison e) (mem_comparisons.1 he).1

/-- Joined terms have the same value where the equalities are true. -/
theorem value_eq_of_joined (holds : c.Holds M v) (joined : Joined c.classes k l) :
    k.value M v = l.value M v := by
  have sides : ∀ e ∈ c.equalities, e.left.key.value M v = e.right.key.value M v := by
    intro e he
    have equal := holds.equalities e he
    rwa [Comparison.Holds, (mem_comparisons.1 he).2] at equal
  exact Joined.of_equalities (eq_equivalence.comap (Term.Key.value M v)) sides joined

/-- A conjunction that is true somewhere is no contradiction. -/
theorem isContradiction_eq_false (names : M.UniqueNames) (holds : c.Holds M v) :
    c.isContradiction = false := by
  rw [Bool.eq_false_iff, ne_eq, isContradiction_iff]
  rintro (absurd | ⟨i, hi, joined⟩ | ⟨s, t, constant, constant', joined, differ⟩)
  · cases holds _ absurd
  · obtain ⟨present, different⟩ := mem_comparisons.1 hi
    have sides : i.Holds M v := holds _ present
    rw [Comparison.Holds, different] at sides
    exact sides (value_eq_of_joined holds joined)
  · -- joined constants have one value, so they have the same name
    exact differ (names.key_eq constant constant' (value_eq_of_joined holds joined))

/-- The element that a term becomes when equated terms become one. -/
def element (c : Cube) (k : Term.Key) : ULift.{u} (Quot c.Equated) :=
  ⟨Quot.mk c.Equated k⟩

theorem element_eq_iff : c.element k = c.element l ↔ Joined c.classes k l := by
  rw [element, element, ULift.up.injEq, Quot.eq, joined_classes_iff]

section Consistent

variable (consistent : c.isContradiction = false)
  {relation : String → List (ULift.{u} (Quot c.Equated)) → Prop}
include consistent

theorem uniqueNames_ofKeys : (Interpretation.ofKeys c.element relation).UniqueNames := by
  rw [Bool.eq_false_iff, ne_eq, isContradiction_iff, not_or, not_or] at consistent
  have differ : ∀ a b : Constant, c.element (Term.const a).key = c.element (Term.const b).key →
      (Term.const a).key = (Term.const b).key := by
    intro a b same
    -- two constants that became one element were joined by the equalities
    by_contra distinct
    exact consistent.2.2 ⟨.const a, .const b, rfl, rfl, element_eq_iff.1 same, distinct⟩
  constructor
  · intro a b same
    exact Term.Key.object.inj (differ (.object a) (.object b) same)
  · intro a b same
    exact Term.Key.data.inj (differ (.data a .string) (.data b .string) same)
  · intro a b same
    cases differ (.object a) (.data b .string) same

/-- A conjunction that is no contradiction is true where every class is an element, whatever the
predicates mean as long as its own atoms hold. -/
theorem holds_ofKeys
    (own : ∀ a, .predicate a ∈ c.atoms →
      relation a.predicate (a.terms.map fun t => c.element t.key)) :
    c.Holds (.ofKeys c.element relation) (.ofKeys c.element) := by
  rw [Bool.eq_false_iff, ne_eq, isContradiction_iff, not_or, not_or] at consistent
  intro a ha
  cases a with
  | truth b =>
    cases b with
    | false => exact (consistent.1 ha).elim
    | true => rfl
  | predicate a =>
    have row : a.terms.map (Term.value (.ofKeys c.element relation) (.ofKeys c.element)) =
        a.terms.map fun t => c.element t.key :=
      List.map_congr_left fun t _ => value_ofKeys t
    rw [Atom.Holds, PredicateAtom.Holds, row]
    exact own a ha
  | comparison e =>
    rw [Atom.Holds, Comparison.Holds, value_ofKeys, value_ofKeys]
    cases kind : e.relation with
    | equal =>
      -- the sides of an equation are in one class
      have equated : c.Equated e.left.key e.right.key :=
        ⟨e, mem_comparisons.2 ⟨ha, kind⟩, rfl, rfl⟩
      exact element_eq_iff.2 (joined_classes_iff.2 (.rel _ _ equated))
    | different =>
      -- an inequality within a class is a contradiction
      intro same
      exact consistent.2.1 ⟨e, mem_comparisons.2 ⟨ha, kind⟩, element_eq_iff.1 same⟩

end Consistent

/-- It is enough to look at interpretations in which all predicates are true. -/
theorem isContradiction_of_not_holds
    (fails : ∀ (D : Type u) (M : Interpretation D) (v : Valuation D), M.UniqueNames →
      (∀ predicate row, M.relation predicate row) → ¬ c.Holds M v) :
    c.isContradiction = true := by
  by_contra consistent
  rw [Bool.not_eq_true] at consistent
  -- the terms themselves are the elements, up to the equalities
  exact fails _ (.ofKeys c.element fun _ _ => True) (.ofKeys c.element)
    (uniqueNames_ofKeys consistent) (fun _ _ => trivial)
    (holds_ofKeys consistent fun _ _ => trivial)

/-- Atoms that are left out are equal to others. -/
theorem forall_ofAtoms_iff {p : Atom → Prop} (respects : ∀ a b, a.same b = true → (p a ↔ p b))
    {atoms : List Atom} : (∀ a ∈ (ofAtoms atoms).atoms, p a) ↔ ∀ a ∈ atoms, p a := by
  constructor
  · intro all a ha
    rcases Formula.exists_mem_eraseDups ha with ⟨b, hb, rfl | same⟩
    · exact all a hb
    · exact (respects a b same).2 (all b hb)
  · intro all a ha
    exact all a ((Formula.eraseDups_sublist atoms).subset ha)

theorem exists_ofAtoms_iff {p : Atom → Prop} (respects : ∀ a b, a.same b = true → (p a ↔ p b))
    {atoms : List Atom} : (∃ a ∈ (ofAtoms atoms).atoms, p a) ↔ ∃ a ∈ atoms, p a := by
  have none : (∀ a ∈ (ofAtoms atoms).atoms, ¬ p a) ↔ ∀ a ∈ atoms, ¬ p a :=
    forall_ofAtoms_iff fun a b same => not_congr (respects a b same)
  simpa using not_congr none

theorem holds_ofAtoms_iff {atoms : List Atom} :
    (ofAtoms atoms).Holds M v ↔ ∀ a ∈ atoms, a.Holds M v :=
  forall_ofAtoms_iff fun _ _ => Formula.atom_holds_iff_of_same

/-- A conjunction is a contradiction just if no interpretation with unique names and no valuation
make all its atoms true. -/
theorem isContradiction_iff_unsatisfiable (c : Cube) :
    c.isContradiction = true ↔
      ∀ (D : Type u) (M : Interpretation D) (v : Valuation D), M.UniqueNames → ¬ c.Holds M v := by
  constructor
  · intro contradiction D M v names holds
    rw [isContradiction_eq_false names holds] at contradiction
    cases contradiction
  · intro unsatisfiable
    exact isContradiction_of_not_holds fun D M v names _ => unsatisfiable D M v names

end Cube
end QueryCalculus
