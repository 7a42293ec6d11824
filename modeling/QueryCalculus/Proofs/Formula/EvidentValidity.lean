import QueryCalculus.Proofs.Formula.Equivalence

/-!
# Evident validity is validity

- `HoldsWithin` : truth with quantifiers over the values of a set, which may be empty
- `holdsWithin_univ` : over all values this is truth as usual
- `holdsWithin_of_evident` : the tests for tautologies and contradictions are right over every range
- `holds_of_isTautology`, `not_holds_of_isContradiction` : hence they are right
- `evident_sound` : both tests on all formulas, and no formula passes both

An interpretation gives values to all constants, so its domain is never empty. What is asked of an
empty domain is asked here of an empty range of the quantifiers. Over such a range an existential
formula is never true and a universal one never false, whatever is said of the bound variables.
-/

namespace QueryCalculus

universe u

variable {D : Type u} {M : Interpretation D} {v : Valuation D}

namespace Formula

/-! ## Quantifiers over a range of values -/

section HoldsWithin

variable (M : Interpretation D) (range : Set D)

mutual

/-- Truth with quantifiers over the values in `range`. Unbound variables may have other values. -/
def HoldsWithin : Formula → Valuation D → Prop
  | .atom a, v => a.Holds M v
  | .junction .and parts, v => AllHoldWithin parts v
  | .junction .or parts, v => SomeHoldsWithin parts v
  | .neg body, v => ¬ body.HoldsWithin v
  | .quant .exist vars body, v =>
    ∃ w, AgreeOutside vars v w ∧ (∀ x : Ident, x ∈ vars → w x ∈ range) ∧ body.HoldsWithin w
  | .quant .forAll vars body, v =>
    ∀ w, AgreeOutside vars v w → (∀ x : Ident, x ∈ vars → w x ∈ range) → body.HoldsWithin w

def AllHoldWithin : List Formula → Valuation D → Prop
  | [], _ => True
  | f :: fs, v => f.HoldsWithin v ∧ AllHoldWithin fs v

def SomeHoldsWithin : List Formula → Valuation D → Prop
  | [], _ => False
  | f :: fs, v => f.HoldsWithin v ∨ SomeHoldsWithin fs v

end

end HoldsWithin

variable {range : Set D}

theorem holdsWithin_junction {c : Connective} {parts : List Formula} :
    (junction c parts).HoldsWithin M range v ↔ c.Joins parts fun f => f.HoldsWithin M range v := by
  cases c with
  | and =>
    show AllHoldWithin M range parts v ↔ ∀ f ∈ parts, f.HoldsWithin M range v
    induction parts with
    | nil => simp [AllHoldWithin]
    | cons f fs ih => simp [AllHoldWithin, ih]
  | or =>
    show SomeHoldsWithin M range parts v ↔ ∃ f ∈ parts, f.HoldsWithin M range v
    induction parts with
    | nil => simp [SomeHoldsWithin]
    | cons f fs ih => simp [SomeHoldsWithin, ih]

theorem holdsWithin_univ (f : Formula) : f.HoldsWithin M Set.univ v ↔ f.Holds M v := by
  induction f generalizing v with
  | atom a => exact Iff.rfl
  | junction c parts ih =>
    rw [holdsWithin_junction, holds_junction]
    exact Connective.joins_congr fun f hf => ih f hf
  | neg body ih => exact not_congr ih
  | quant q vars body ih =>
    have all : ∀ w : Valuation D, ∀ x : Ident, x ∈ vars → w x ∈ Set.univ := fun w x _ =>
      Set.mem_univ (w x)
    cases q with
    | exist =>
      refine exists_congr fun w => and_congr_right fun _ => ?_
      exact (and_iff_right (all w)).trans ih
    | forAll =>
      refine forall₂_congr fun w _ => ?_
      exact (forall_prop_of_true (all w)).trans ih

/-! ## Soundness -/

theorem comparison_holds_self {c : Comparison} (same : (c.left == c.right) = true) :
    c.Holds M v ↔ c.relation = .equal := by
  have value := Term.value_eq_of_beq M same v
  cases c with
  | mk relation left right =>
    cases relation with
    | equal => exact iff_of_true value rfl
    | different => exact iff_of_false (fun h => h value) Relation.noConfusion

theorem atom_valid (a : Atom) :
    (a.isTautology = true → a.Holds M v) ∧ (a.isContradiction = true → ¬ a.Holds M v) := by
  cases a with
  | truth b => cases b <;> simp [Atom.isTautology, Atom.isContradiction, Atom.Holds]
  | predicate a => exact ⟨Bool.noConfusion, Bool.noConfusion⟩
  | comparison c =>
    simp only [Atom.isTautology, Comparison.isTautology, Atom.isContradiction,
      Comparison.isContradiction, Bool.and_eq_true, beq_iff_eq]
    constructor
    · exact fun h => (comparison_holds_self h.2).2 h.1
    · intro h holds
      exact Relation.noConfusion (h.1.symm.trans ((comparison_holds_self h.2).1 holds))

/-- Both tests at once, since a negation turns each of them into the other. -/
theorem holdsWithin_of_evident (f : Formula) :
    (f.isTautology = true → ∀ v, f.HoldsWithin M range v) ∧
      (f.isContradiction = true → ∀ v, ¬ f.HoldsWithin M range v) := by
  induction f with
  | atom a => exact ⟨fun h v => (atom_valid a).1 h, fun h v => (atom_valid a).2 h⟩
  | junction c parts ih =>
    cases c <;> simp only [isTautology, isContradiction, allTautologies_eq_all, anyTautology_eq_any,
      allContradictions_eq_all, anyContradiction_eq_any, List.all_eq_true, List.any_eq_true]
    · constructor
      · exact fun all v => holdsWithin_junction.2 fun f hf => (ih f hf).1 (all f hf) v
      · rintro ⟨f, hf, h⟩ v holds
        exact (ih f hf).2 h v (holdsWithin_junction.1 holds f hf)
    · constructor
      · rintro ⟨f, hf, h⟩ v
        exact holdsWithin_junction.2 ⟨f, hf, (ih f hf).1 h v⟩
      · intro all v holds
        rcases holdsWithin_junction.1 holds with ⟨f, hf, holds⟩
        exact (ih f hf).2 (all f hf) v holds
  | neg body ih =>
    exact ⟨ih.2, fun h v holds => holds (ih.1 h v)⟩
  | quant q vars body ih =>
    -- with an empty range in mind, the tests are silent on one kind of quantifier each
    cases q with
    | exist =>
      refine ⟨Bool.noConfusion, fun h v holds => ?_⟩
      rcases holds with ⟨w, -, -, holds⟩
      exact ih.2 h w holds
    | forAll => exact ⟨fun h v w _ _ => ih.1 h w, Bool.noConfusion⟩

theorem holds_of_isTautology {f : Formula} (h : f.isTautology = true) : f.Holds M v :=
  (holdsWithin_univ f).1 ((holdsWithin_of_evident f).1 h v)

theorem not_holds_of_isContradiction {f : Formula} (h : f.isContradiction = true) :
    ¬ f.Holds M v :=
  fun holds => (holdsWithin_of_evident f).2 h v ((holdsWithin_univ f).2 holds)

/-- The interpretation with a single value, which all predicates hold of. -/
def trivialInterpretation : Interpretation Unit where
  relation _ _ := True
  object _ := ()
  data _ := ()

/-- A formula that is reported as a tautology is true in every interpretation and under every
valuation, one that is reported as a contradiction is false there, also if the quantifiers range
over some of the values or over none. No formula is reported as both. -/
theorem evident_sound (f : Formula) :
    (f.isTautology = true → ∀ (D : Type u) (M : Interpretation D) (v : Valuation D),
      f.Holds M v ∧ ∀ range : Set D, f.HoldsWithin M range v) ∧
    (f.isContradiction = true → ∀ (D : Type u) (M : Interpretation D) (v : Valuation D),
      ¬ f.Holds M v ∧ ∀ range : Set D, ¬ f.HoldsWithin M range v) ∧
    ¬ (f.isTautology = true ∧ f.isContradiction = true) := by
  refine ⟨fun valid D M v => ?_, fun absurdity D M v => ?_, ?_⟩
  · exact ⟨holds_of_isTautology valid, fun range => (holdsWithin_of_evident f).1 valid v⟩
  · exact ⟨not_holds_of_isContradiction absurdity,
      fun range => (holdsWithin_of_evident f).2 absurdity v⟩
  · rintro ⟨valid, absurdity⟩
    have holds : f.Holds trivialInterpretation fun _ => () := holds_of_isTautology valid
    exact not_holds_of_isContradiction absurdity holds

/-- `∀ x ¬ (∃ y (R(x, y) ∧ y ≠ y) ∨ ¬ (A(x) ∨ x = x))` -/
def nestedTautology : Formula :=
  let x : Variable := { name := "x" }
  let y : Variable := { name := "y" }
  .quant .forAll (.ofList [x]) (.neg (.junction .or [
    .quant .exist (.ofList [y]) (.junction .and [
      .predicate ⟨"R", [.var x, .var y], .undefined⟩,
      .atom (.comparison ⟨.different, .var y, .var y⟩)]),
    .neg (.junction .or [.predicate ⟨"A", [.var x], .undefined⟩, .equal (.var x) (.var x)])]))

theorem nestedTautology_sound :
    nestedTautology.isTautology = true ∧
      ∀ (D : Type u) (M : Interpretation D) (v : Valuation D),
        nestedTautology.Holds M v ∧ ∀ range : Set D, nestedTautology.HoldsWithin M range v :=
  ⟨rfl, (evident_sound nestedTautology).1 rfl⟩

end Formula
end QueryCalculus
