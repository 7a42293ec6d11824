import QueryCalculus.Formula.Validity

/-!
# Moving negations

- `Formula.pushNegation` : negations move down to the predicate atoms and comparisons
- `Formula.eliminateForAll` : universal quantifiers become negated existential ones
-/

namespace QueryCalculus
namespace Formula

/-- An atom, or its opposite if `negated` holds. -/
def signedAtom (negated : Bool) : Atom → Formula
  | .truth b => .atom (.truth (b ^^ negated))
  | a => if negated then .neg (.atom a) else .atom a

def signedConnective (negated : Bool) (c : Connective) : Connective :=
  if negated then c.dual else c

def signedQuantifier (negated : Bool) (q : Quantifier) : Quantifier :=
  if negated then q.dual else q

mutual

/-- The formula, or its opposite if `negated` holds, with negations at atoms only. -/
def signed (negated : Bool) : Formula → Formula
  | .atom a => signedAtom negated a
  | .junction c parts => .junction (signedConnective negated c) (signedAll negated parts)
  | .neg body => body.signed (!negated)
  | .quant q vars body => .quant (signedQuantifier negated q) vars (body.signed negated)

def signedAll (negated : Bool) : List Formula → List Formula
  | [] => []
  | f :: fs => f.signed negated :: signedAll negated fs

end

theorem signedAll_eq_map (negated : Bool) (fs : List Formula) :
    signedAll negated fs = fs.map (signed negated) := by
  induction fs with
  | nil => rfl
  | cons f fs ih => simp [signedAll, ih]

/-- Moves the negations down to the atoms by the laws of De Morgan. -/
def pushNegation (f : Formula) : Formula :=
  f.signed false

mutual

/-- Writes each universal quantifier with an existential one and two negations. A universally
quantified tautology becomes true. -/
def eliminateForAll : Formula → Formula
  | .atom a => .atom a
  | .junction c parts => .junction c (eliminateForAllEach parts)
  | .neg body => .neg body.eliminateForAll
  | .quant .exist vars body => .quant .exist vars body.eliminateForAll
  | .quant .forAll vars body =>
    if body.eliminateForAll.isTautology then truth
    else (Formula.quant .exist vars body.eliminateForAll.opposite).opposite

def eliminateForAllEach : List Formula → List Formula
  | [] => []
  | f :: fs => f.eliminateForAll :: eliminateForAllEach fs

end

theorem eliminateForAllEach_eq_map (fs : List Formula) :
    eliminateForAllEach fs = fs.map eliminateForAll := by
  induction fs with
  | nil => rfl
  | cons f fs ih => simp [eliminateForAllEach, ih]

end Formula
end QueryCalculus
