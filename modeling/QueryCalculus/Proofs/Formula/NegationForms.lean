import QueryCalculus.Proofs.Formula.EvidentValidity
import QueryCalculus.Proofs.Formula.FlatForm

/-!
# Formulas with moved negations

- `Polar` : a statement or its negation
- `holdsBy_signed` : a signed formula is true where the formula is, or where it is not
- `free_signed`, `filter_atoms_signed` : signs change neither the free variables nor the atoms that
  are no truth values
- `NegationNormal` : negations stand at predicate atoms and comparisons only
- `pushNegation_normal_equivalent` : moving the negations down gives a negation normal form
- `equivalent_eliminateForAll` : universal quantifiers can be written with existential ones
- `eliminateForAll_existential_equivalent` : the formula without universal quantifiers

The sign of a formula is part of every statement about signed formulas, since a negation turns it
around for all that is inside.
-/

namespace QueryCalculus

universe u

variable {D : Type u} {M : Interpretation D} {v : Valuation D}

/-! ## Statements with a sign -/

/-- The statement, or its negation if `negated` holds. -/
def Polar : (negated : Bool) → Prop → Prop
  | true, p => ¬ p
  | false, p => p

section Polar

variable {negated : Bool} {p r : Prop}

theorem polar_congr (same : p ↔ r) : Polar negated p ↔ Polar negated r := by
  cases negated with
  | true => exact not_congr same
  | false => exact same

theorem polar_not : Polar (!negated) p ↔ Polar negated (¬ p) := by
  cases negated with
  | true => exact not_not.symm
  | false => exact Iff.rfl

/-- The laws of De Morgan. -/
theorem polar_joins {α : Type*} {c : Connective} {as : List α} {p : α → Prop} :
    Polar negated (c.Joins as p) ↔
      (Formula.signedConnective negated c).Joins as fun a => Polar negated (p a) := by
  cases negated with
  | true => exact Connective.not_joins
  | false => exact Iff.rfl

theorem polar_over {q : Quantifier} {s : Set Ident} {p : Valuation D → Prop} :
    Polar negated (q.Over s p v) ↔
      (Formula.signedQuantifier negated q).Over s (fun w => Polar negated (p w)) v := by
  cases negated with
  | true => exact Quantifier.not_over
  | false => exact Iff.rfl

end Polar

def Atom.isTruth : Atom → Bool
  | .truth _ => true
  | _ => false

namespace Formula

variable {f body : Formula} {parts : List Formula} {c : Connective} {q : Quantifier} {vars : VarSet}

/-! ## Signed formulas -/

section Meaning

-- blanks may be read in any way, but the truth values have their meaning
variable {sat : Atom → Valuation D → Prop} (truths : ∀ b v, sat (.truth b) v ↔ b = true)
include truths

theorem holdsBy_signedAtom (negated : Bool) (a : Atom) :
    (signedAtom negated a).HoldsBy sat v ↔ Polar negated (sat a v) := by
  cases a with
  | truth b =>
    calc
      sat (.truth (b ^^ negated)) v ↔ (b ^^ negated) = true := truths _ v
      _ ↔ Polar negated (b = true) := by cases negated <;> simp [Polar]
      _ ↔ Polar negated (sat (.truth b) v) := polar_congr (truths b v).symm
  | _ => cases negated <;> exact Iff.rfl

theorem holdsBy_signed (negated : Bool) (f : Formula) :
    (f.signed negated).HoldsBy sat v ↔ Polar negated (f.HoldsBy sat v) := by
  induction f generalizing negated v with
  | atom a => exact holdsBy_signedAtom truths negated a
  | junction c parts ih =>
    -- the sign goes down to the parts and turns the connective
    rw [signed, signedAll_eq_map]
    calc
      _ ↔ (signedConnective negated c).Joins parts fun f => (f.signed negated).HoldsBy sat v :=
        holdsBy_junction.trans Connective.joins_map
      _ ↔ (signedConnective negated c).Joins parts fun f => Polar negated (f.HoldsBy sat v) :=
        Connective.joins_congr fun f hf => ih f hf negated
      _ ↔ Polar negated ((junction c parts).HoldsBy sat v) :=
        polar_joins.symm.trans (polar_congr holdsBy_junction.symm)
  | neg body ih => exact (ih (!negated)).trans polar_not
  | quant q vars body ih =>
    calc
      _ ↔ (signedQuantifier negated q).Over {x | x ∈ vars} ((body.signed negated).HoldsBy sat) v :=
        holdsBy_quant
      _ ↔ (signedQuantifier negated q).Over {x | x ∈ vars}
          (fun w => Polar negated (body.HoldsBy sat w)) v :=
        Quantifier.over_congr fun w => ih negated
      _ ↔ Polar negated ((quant q vars body).HoldsBy sat v) :=
        polar_over.symm.trans (polar_congr holdsBy_quant.symm)

theorem equivalentBy_pushNegation (f : Formula) : EquivalentBy sat f f.pushNegation :=
  fun _ => (holdsBy_signed truths false f).symm

end Meaning

theorem free_signed (negated : Bool) (f : Formula) : (f.signed negated).free = f.free := by
  induction f generalizing negated with
  | atom a => cases a <;> cases negated <;> rfl
  | junction c parts ih =>
    rw [signed, signedAll_eq_map, free, free, freeAll_eq_flatMap, freeAll_eq_flatMap,
      List.flatMap_map]
    exact congrArg VarSet.ofList (List.flatMap_congr fun f hf => by rw [ih f hf])
  | neg body ih => exact ih (!negated)
  | quant q vars body ih => exact congrArg (VarSet.diff · vars) (ih negated)

/-- A truth value may change, but no other atom is changed, moved or lost. -/
theorem filter_atoms_signed (negated : Bool) (f : Formula) :
    (f.signed negated).atoms.filter (!·.isTruth) = f.atoms.filter (!·.isTruth) := by
  induction f generalizing negated with
  | atom a => cases a <;> cases negated <;> rfl
  | junction c parts ih =>
    rw [signed, signedAll_eq_map, atoms, atoms, atomsAll_eq_flatMap, atomsAll_eq_flatMap,
      List.flatMap_map, List.filter_flatMap, List.filter_flatMap]
    exact List.flatMap_congr fun f hf => ih f hf negated
  | neg body ih => exact ih (!negated)
  | quant q vars body ih => exact ih negated

/-! ## Negation normal forms -/

/-- If the root is a negation, it is one of a predicate atom or a comparison. -/
def NegatesAtom : Formula → Prop
  | .neg (.atom a) => a.isTruth = false
  | .neg _ => False
  | _ => True

def NegationNormal (f : Formula) : Prop :=
  ∀ g ∈ f.nodes, g.NegatesAtom

theorem negationNormal_atom (a : Atom) : (atom a).NegationNormal :=
  forall_nodes_atom.2 trivial

theorem negationNormal_junction :
    (junction c parts).NegationNormal ↔ ∀ f ∈ parts, f.NegationNormal :=
  forall_nodes_junction.trans (and_iff_right trivial)

theorem negationNormal_quant : (quant q vars body).NegationNormal ↔ body.NegationNormal :=
  forall_nodes_quant.trans (and_iff_right trivial)

theorem negationNormal_neg :
    (neg body).NegationNormal ↔ ∃ a, body = .atom a ∧ a.isTruth = false := by
  refine forall_nodes_neg.trans ⟨fun normal => ?_, ?_⟩
  · cases body with
    | atom a => exact ⟨a, rfl, normal.1⟩
    | _ => exact normal.1.elim
  · rintro ⟨a, rfl, informative⟩
    exact ⟨informative, negationNormal_atom a⟩

theorem negationNormal_signed (negated : Bool) (f : Formula) :
    (f.signed negated).NegationNormal := by
  induction f generalizing negated with
  | atom a =>
    cases a with
    | truth b => exact negationNormal_atom _
    | _ =>
      cases negated with
      | true => exact negationNormal_neg.2 ⟨_, rfl, rfl⟩
      | false => exact negationNormal_atom _
  | junction c parts ih =>
    rw [signed, signedAll_eq_map]
    exact negationNormal_junction.2 (List.forall_mem_map.2 fun f hf => ih f hf negated)
  | neg body ih => exact ih (!negated)
  | quant q vars body ih => exact negationNormal_quant.2 (ih negated)

/-- In a negation normal form there is nothing to move. -/
theorem pushNegation_eq_self (normal : f.NegationNormal) : f.pushNegation = f := by
  rw [pushNegation]
  induction f with
  | atom a => cases a <;> simp [signed, signedAtom]
  | junction c parts ih =>
    have kept : parts.map (signed false) = parts :=
      map_eq_self_iff.2 fun f hf => ih f hf (negationNormal_junction.1 normal f hf)
    rw [signed, signedAll_eq_map, kept]
    rfl
  | neg body ih =>
    obtain ⟨a, rfl, informative⟩ := negationNormal_neg.1 normal
    cases a with
    | truth b => cases informative
    | _ => rfl
  | quant q vars body ih => exact congrArg (quant q vars) (ih (negationNormal_quant.1 normal))

/-- Moving the negations down keeps the meaning, the free variables and all atoms but the truth
values. The results are the negation normal forms, which stay as they are. -/
theorem pushNegation_normal_equivalent (f : Formula) :
    Equivalent.{u} f f.pushNegation ∧ EquivalentApart.{u} f f.pushNegation ∧
    f.pushNegation.free = f.free ∧
    f.pushNegation.atoms.filter (!·.isTruth) = f.atoms.filter (!·.isTruth) ∧
    f.pushNegation.NegationNormal ∧ (f.pushNegation = f ↔ f.NegationNormal) ∧
    f.pushNegation.pushNegation = f.pushNegation := by
  have normal : f.pushNegation.NegationNormal := negationNormal_signed false f
  refine ⟨fun D M => ?_, fun D M => ?_, free_signed false f, filter_atoms_signed false f, normal,
    ⟨fun same => same ▸ normal, pushNegation_eq_self⟩, pushNegation_eq_self normal⟩
  · exact equivalentBy_pushNegation (fun _ _ => Iff.rfl) f
  · exact equivalentBy_pushNegation (fun _ _ => Iff.rfl) f

/-! ## Universal quantifiers -/

theorem holds_opposite : f.opposite.Holds M v ↔ ¬ f.Holds M v := by
  cases f with
  | neg body => exact not_not.symm
  | _ => exact Iff.rfl

theorem equivalent_forAll_opposite (vars : VarSet) (body : Formula) :
    Equivalent.{u} (.quant .forAll vars body)
      (Formula.quant .exist vars body.opposite).opposite := by
  intro D M v
  have inside : ∀ w, body.Holds M w ↔ ¬ body.opposite.Holds M w := fun w =>
    not_not.symm.trans (not_congr holds_opposite.symm)
  calc
    (quant .forAll vars body).Holds M v
        ↔ Quantifier.Over .forAll {x | x ∈ vars} (fun w => ¬ body.opposite.Holds M w) v :=
      holds_quant.trans (Quantifier.over_congr inside)
    _ ↔ ¬ (quant .exist vars body.opposite).Holds M v :=
      (Quantifier.not_over (q := .exist)).symm.trans (not_congr holds_quant.symm)
    _ ↔ (Formula.quant .exist vars body.opposite).opposite.Holds M v := holds_opposite.symm

theorem equivalent_eliminateForAll (f : Formula) : Equivalent.{u} f f.eliminateForAll := by
  refine rewriting_equivalent.eliminateForAll ?valid equivalent_forAll_opposite f
  case valid =>
    -- the test is made on a body that is rewritten already, which has the same meaning
    intro vars body tautology D M v
    exact iff_of_true (fun w _ => holds_of_isTautology tautology) rfl

/-- The elimination of universal quantifiers leaves none of them, keeps the meaning, and lets no
variable become free. -/
theorem eliminateForAll_existential_equivalent (f : Formula) :
    f.eliminateForAll.Existential ∧ Equivalent.{u} f f.eliminateForAll ∧
    f.eliminateForAll.free.isSubset f.free = true := by
  refine ⟨existential_eliminateForAll f, equivalent_eliminateForAll f, VarSet.isSubset_iff.2 ?_⟩
  intro x hx
  exact (mem_free_eliminateForAll.1 hx).mem_free

end Formula
end QueryCalculus
