import QueryCalculus.Formula.Flatten
import QueryCalculus.Formula.Validity
import QueryCalculus.Formula.Variables

/-!
# Simplified formulas

- `Formula.simplify` : one pass that flattens a formula and drops what is redundant
- `Formula.weight` : the number of nodes and bound variables; a pass that changes a formula lowers
  it
- `Formula.optimize` : passes until nothing changes

In a conjunction, a disjunction with one of the conjuncts among its parts is dropped, also below
existential quantifiers, and a conjunct is dropped from the inside of a negated conjunction.
Disjunctions are treated dually. Only predicate atoms are looked for, and they are compared as they
are written.
-/

namespace QueryCalculus
namespace Formula

/-! ## Redundant parts -/

/-- The formula below any number of existential quantifiers. -/
def stripExists : Formula → Formula
  | .quant .exist _ body => body.stripExists
  | f => f

/-- Removes the atoms from the parts of a junction with the connective `c`. -/
def removeAtoms (c : Connective) (atoms : List Formula) : Formula → Formula
  | .junction d parts =>
    if c = d then .junction d (parts.filter (!atoms.contains ·)) else .junction d parts
  | f => f

/-- Whether a part of a junction is absorbed by an atom beside it: below existential quantifiers the
part is a junction of the dual connective, and the atom is one of its parts. -/
def isAbsorbed (c : Connective) (atoms : List Formula) (part : Formula) : Bool :=
  match part.stripExists.partsOf? c.dual with
  | some parts => parts.any atoms.contains
  | none => false

/-- Removes the atoms beside a negated part from the inside of it. -/
def reduceNegated (c : Connective) (atoms : List Formula) : Formula → Formula
  | .neg (.quant .exist vars body) =>
    (Formula.neg (Formula.quant .exist vars (removeAtoms c atoms body)).unwrap).unwrap
  | .neg body => (Formula.neg (removeAtoms c atoms body).unwrap).unwrap
  | f => f

/-- Whether a part does not change the meaning of a junction. -/
def isNeutral : Connective → Formula → Bool
  | .and => isTautology
  | .or => isContradiction

def dropRedundant (c : Connective) (parts : List Formula) : List Formula :=
  -- atoms that absorb other parts are never absorbed themselves
  let atoms := parts.filter (·.predicate?.isSome)
  let kept := parts.filter (!isAbsorbed c atoms ·)
  (kept.map (reduceNegated c atoms)).filter (!isNeutral c ·)

/-! ## One pass -/

def simplifyJunction (c : Connective) (parts : List Formula) : Formula :=
  let flat := (Formula.junction c parts).flattenRoot
  match flat.partsOf? c with
  | some parts => (Formula.junction c (dropRedundant c parts.eraseDups)).unwrap
  | none => flat

/-- Keeps only the bound variables that occur free in the body. -/
def restrictQuant : Formula → Formula
  | .quant q vars body => (Formula.quant q (vars.inter body.free) body).unwrap
  | f => f

mutual

/-- Simplifies a formula from the inside out, once. -/
def simplify : Formula → Formula
  | .atom a => .atom a
  | .junction c parts => simplifyJunction c (simplifyAll parts)
  | .neg body => (Formula.neg body.simplify.unwrap).unwrap
  | .quant q vars body => restrictQuant (Formula.quant q vars body.simplify.unwrap).flattenRoot

def simplifyAll : List Formula → List Formula
  | [] => []
  | f :: fs => f.simplify.unwrap :: simplifyAll fs

end

theorem simplifyAll_eq_map (fs : List Formula) : simplifyAll fs = fs.map (·.simplify.unwrap) := by
  induction fs with
  | nil => rfl
  | cons f fs ih => simp [simplifyAll, ih]

/-! ## All passes -/

mutual

def weight : Formula → Nat
  | .atom _ => 1
  | .junction _ parts => weightAll parts + 1
  | .neg body => body.weight + 1
  | .quant _ vars body => vars.size + body.weight + 1

def weightAll : List Formula → Nat
  | [] => 0
  | f :: fs => f.weight + weightAll fs

end

/-- Simplifies until a pass does not change the formula, at most `passes` times. -/
def simplifyWithin : Nat → Formula → Formula
  | 0, f => f
  | passes + 1, f =>
    -- equality ignores the annotations of variables, and those of the last pass are kept
    let next := f.simplify
    if next == f then next else simplifyWithin passes next

/-- Simplifies until nothing changes. The weight bounds the number of passes. -/
def optimize (f : Formula) : Formula :=
  simplifyWithin (f.weight + 1) f

end Formula
end QueryCalculus
