import QueryCalculus.Atom.Basic
import QueryCalculus.VarSet

/-!
# First-order formulas

- `Connective`, `Quantifier` : conjunction and disjunction, the two quantifiers, and their duals
- `Formula` : atoms, junctions of any number of parts, negations and quantified formulas
- `Formula.text` : the printed form
- `Formula.same` : equality of formulas, with the comparisons taken up to swapping their sides

The parts of a junction are ordered. A quantifier binds a set of variables.
-/

namespace QueryCalculus

inductive Connective
  | and
  | or
  deriving DecidableEq, Repr

namespace Connective

def dual : Connective → Connective
  | .and => .or
  | .or => .and

def operator : Connective → String
  | .and => "AND"
  | .or => "OR"

/-- The truth value of the junction without parts. -/
def unit : Connective → Bool
  | .and => true
  | .or => false

end Connective

inductive Quantifier
  | exist
  | forAll
  deriving DecidableEq, Repr

namespace Quantifier

def dual : Quantifier → Quantifier
  | .exist => .forAll
  | .forAll => .exist

def symbol : Quantifier → String
  | .exist => "\\exists"
  | .forAll => "\\forall"

end Quantifier

inductive Formula
  | atom (a : Atom)
  | junction (c : Connective) (parts : List Formula)
  | neg (body : Formula)
  | quant (q : Quantifier) (vars : VarSet) (body : Formula)

namespace Formula

/-- Induction on formulas. What holds of all parts of a junction must hold of the junction. -/
@[induction_eliminator]
theorem induction {P : Formula → Prop} (atom : ∀ a, P (.atom a))
    (junction : ∀ c parts, (∀ f ∈ parts, P f) → P (.junction c parts))
    (neg : ∀ body, P body → P (.neg body))
    (quant : ∀ q vars body, P body → P (.quant q vars body)) (f : Formula) : P f := by
  refine @Formula.rec P (fun fs => ∀ f ∈ fs, P f) atom junction neg quant ?_ ?_ f
  · intro f hf
    cases hf
  · intro g gs hg hgs f hf
    rcases List.mem_cons.1 hf with rfl | hf
    · exact hg
    · exact hgs f hf

/-! ## Building formulas -/

def truth : Formula := .atom (.truth true)

def falsity : Formula := .atom (.truth false)

instance : Inhabited Formula := ⟨truth⟩

def predicate (a : PredicateAtom) : Formula :=
  .atom (.predicate a)

def equal (left right : Term) : Formula :=
  .atom (.comparison ⟨.equal, left, right⟩)

/-- The opposite formula. An outer negation is removed instead of adding a second one. -/
def opposite : Formula → Formula
  | .neg body => body
  | f => .neg f

/-! ## Taking formulas apart -/

def connective? : Formula → Option Connective
  | .junction c _ => some c
  | _ => none

def quantifier? : Formula → Option Quantifier
  | .quant q _ _ => some q
  | _ => none

def predicate? : Formula → Option PredicateAtom
  | .atom a => a.predicate?
  | _ => none

/-- The parts of a junction with the given connective. -/
def partsOf? (c : Connective) : Formula → Option (List Formula)
  | .junction d parts => if c = d then some parts else none
  | _ => none

/-- Whether the formula is a junction of at least two parts. -/
def isCompound : Formula → Bool
  | .junction _ (_ :: _ :: _) => true
  | _ => false

/-! ## Printing -/

def quantifiedText (q : Quantifier) (vars : VarSet) (body : String) : String :=
  q.symbol ++ " " ++ vars.text ++ " (" ++ body ++ ")"

mutual

/-- Junctions inside of a junction stand in parentheses. A junction of one part is printed like
the part, and one without parts like its truth value. -/
def text : Formula → String
  | .atom a => a.text
  | .junction c [] => (Atom.truth c.unit).text
  | .junction _ [part] => part.text
  | .junction c (p :: q :: rest) =>
    String.intercalate (" " ++ c.operator ++ " ") (partTexts (p :: q :: rest))
  | .neg body => "NOT (" ++ body.text ++ ")"
  | .quant q vars body => quantifiedText q vars body.text

def partTexts : List Formula → List String
  | [] => []
  | f :: fs => (if f.isCompound then "(" ++ f.text ++ ")" else f.text) :: partTexts fs

end

theorem partTexts_eq_map (fs : List Formula) :
    partTexts fs = fs.map fun f => if f.isCompound then "(" ++ f.text ++ ")" else f.text := by
  induction fs with
  | nil => rfl
  | cons f fs ih => simp [partTexts, ih]

/-! ## Equality -/

mutual

def same : Formula → Formula → Bool
  | .atom a, .atom b => a == b
  | .junction c fs, .junction d gs => c == d && sameAll fs gs
  | .neg f, .neg g => f.same g
  | .quant q xs f, .quant r ys g => q == r && xs == ys && f.same g
  | _, _ => false

def sameAll : List Formula → List Formula → Bool
  | [], [] => true
  | f :: fs, g :: gs => f.same g && sameAll fs gs
  | _, _ => false

end

instance : BEq Formula := ⟨same⟩

end Formula
end QueryCalculus
