import Mathlib.Data.List.Forall2
import QueryCalculus.Formula.Basic

/-!
# Truth of formulas

- `Interpretation` : what predicates and constants mean on a domain
- `Valuation` : the values of the variables
- `Formula.HoldsBy` : truth of a formula, given the truth of atoms
- `Formula.Holds` : truth of a formula in an interpretation under a valuation
- `Formula.HoldsApart` : the same with blanks that are independent of each other
- `Formula.EquivalentBy`, `Formula.Equivalent`, `Formula.EquivalentApart` : the same truth value
  under all valuations, for each of these notions

A predicate is known by its identifier and the values of its terms, so its kind and the annotations
of the terms do not matter. `Holds` reads the blank as an ordinary variable. `HoldsApart` reads
every occurrence of it as a variable of its own, for which any value will do.
-/

namespace QueryCalculus

universe u

/-- The meaning of predicates and constants on the domain `D`. -/
structure Interpretation (D : Type u) where
  relation : String → List D → Prop
  object : String → D
  data : String → D

abbrev Valuation (D : Type u) := Ident → D

variable {D : Type u} (M : Interpretation D)

/-! ## Terms and atoms -/

/-- The value of a term depends on its key only. -/
def Term.Key.value (v : Valuation D) : Term.Key → D
  | .var x => v x
  | .object iri => M.object iri
  | .data value => M.data value

def Term.value (v : Valuation D) (t : Term) : D :=
  t.key.value M v

theorem Term.value_eq_of_beq {s t : Term} (h : (s == t) = true) (v : Valuation D) :
    s.value M v = t.value M v := by
  rw [Term.value, Term.value, Term.beq_iff.1 h]

def PredicateAtom.Holds (a : PredicateAtom) (v : Valuation D) : Prop :=
  M.relation a.predicate (a.terms.map (Term.value M v))

def Relation.Relates (d e : D) : Relation → Prop
  | .equal => d = e
  | .different => d ≠ e

def Comparison.Holds (c : Comparison) (v : Valuation D) : Prop :=
  c.relation.Relates (c.left.value M v) (c.right.value M v)

def Atom.Holds (v : Valuation D) : Atom → Prop
  | .truth b => b = true
  | .predicate a => a.Holds M v
  | .comparison c => c.Holds M v

/-! ## Atoms with independent blanks -/

/-- The values a term may take: a blank takes any value. -/
def Term.Denotes (v : Valuation D) (t : Term) (d : D) : Prop :=
  (∃ x, t = .var x ∧ x.isBlank = true) ∨ t.value M v = d

def PredicateAtom.HoldsApart (a : PredicateAtom) (v : Valuation D) : Prop :=
  ∃ row, M.relation a.predicate row ∧ List.Forall₂ (Term.Denotes M v) a.terms row

def Comparison.HoldsApart (c : Comparison) (v : Valuation D) : Prop :=
  ∃ d e, c.left.Denotes M v d ∧ c.right.Denotes M v e ∧ c.relation.Relates d e

def Atom.HoldsApart (v : Valuation D) : Atom → Prop
  | .truth b => b = true
  | .predicate a => a.HoldsApart M v
  | .comparison c => c.HoldsApart M v

/-! ## Formulas -/

/-- The valuations differ at most on the variables of the set. -/
def AgreeOutside (vars : VarSet) (v w : Valuation D) : Prop :=
  ∀ x : Ident, x ∉ vars → w x = v x

namespace Formula

section HoldsBy

variable (sat : Atom → Valuation D → Prop)

mutual

/-- Truth of a formula, given which atoms are true under which valuations. -/
def HoldsBy : Formula → Valuation D → Prop
  | .atom a, v => sat a v
  | .junction .and parts, v => AllHoldBy parts v
  | .junction .or parts, v => SomeHoldsBy parts v
  | .neg body, v => ¬ body.HoldsBy v
  | .quant .exist vars body, v => ∃ w, AgreeOutside vars v w ∧ body.HoldsBy w
  | .quant .forAll vars body, v => ∀ w, AgreeOutside vars v w → body.HoldsBy w

def AllHoldBy : List Formula → Valuation D → Prop
  | [], _ => True
  | f :: fs, v => f.HoldsBy v ∧ AllHoldBy fs v

def SomeHoldsBy : List Formula → Valuation D → Prop
  | [], _ => False
  | f :: fs, v => f.HoldsBy v ∨ SomeHoldsBy fs v

end

theorem allHoldBy_iff {fs : List Formula} {v : Valuation D} :
    AllHoldBy sat fs v ↔ ∀ f ∈ fs, f.HoldsBy sat v := by
  induction fs with
  | nil => simp [AllHoldBy]
  | cons f fs ih => simp [AllHoldBy, ih]

theorem someHoldsBy_iff {fs : List Formula} {v : Valuation D} :
    SomeHoldsBy sat fs v ↔ ∃ f ∈ fs, f.HoldsBy sat v := by
  induction fs with
  | nil => simp [SomeHoldsBy]
  | cons f fs ih => simp [SomeHoldsBy, ih]

/-- Formulas with the same truth value under every valuation, given which atoms are true. -/
def EquivalentBy (f g : Formula) : Prop :=
  ∀ v, f.HoldsBy sat v ↔ g.HoldsBy sat v

end HoldsBy

def Holds (f : Formula) (v : Valuation D) : Prop :=
  f.HoldsBy (fun a w => a.Holds M w) v

/-- Truth of a formula whose blanks are independent of each other. -/
def HoldsApart (f : Formula) (v : Valuation D) : Prop :=
  f.HoldsBy (fun a w => a.HoldsApart M w) v

/-- Formulas with the same truth value in every interpretation and under every valuation. -/
def Equivalent (f g : Formula) : Prop :=
  ∀ (D : Type u) (M : Interpretation D) (v : Valuation D), f.Holds M v ↔ g.Holds M v

/-- The same for formulas whose blanks are independent of each other. -/
def EquivalentApart (f g : Formula) : Prop :=
  ∀ (D : Type u) (M : Interpretation D) (v : Valuation D), f.HoldsApart M v ↔ g.HoldsApart M v

end Formula
end QueryCalculus
