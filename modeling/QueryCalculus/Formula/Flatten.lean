import QueryCalculus.Formula.Basic

/-!
# Flat formulas

- `Formula.unwrap` : removes double negations, junctions of one part and empty quantifiers at the
  root
- `Formula.flattenRoot` : merges junctions and quantifiers of the same kind into the root
- `Formula.flatten` : does so everywhere
-/

namespace QueryCalculus
namespace Formula

/-- Removes what does not change the meaning from the root of a formula: double negations,
junctions of a single part and quantifiers without variables. -/
def unwrap : Formula → Formula
  | .neg (.neg f) => f.unwrap
  | .junction _ [f] => f.unwrap
  | .quant q vars body => if vars.isEmpty then body.unwrap else .quant q vars body
  | f => f

/-- Replaces each part that is a junction with the same connective by its parts. -/
def splice (c : Connective) (parts : List Formula) : List Formula :=
  parts.flatMap fun part => (part.partsOf? c).getD [part]

/-- Binds the variables around a body, together with those that the body itself binds in the same
way at its root. -/
def mergeQuant (q : Quantifier) (vars : VarSet) : Formula → Formula
  | .quant r inner body =>
    if q = r then mergeQuant q (vars.union inner) body else .quant q vars (.quant r inner body)
  | body => .quant q vars body

/-- The formula with its root rebuilt from parts that are flat already. -/
def flattenRoot : Formula → Formula
  | .atom a => .atom a
  | .junction c parts => (Formula.junction c (splice c (parts.map unwrap))).unwrap
  | .neg body => (Formula.neg body.unwrap).unwrap
  | .quant q vars body => (mergeQuant q vars body.unwrap).unwrap

mutual

/-- Merges junctions and quantifiers of the same kind everywhere. -/
def flatten : Formula → Formula
  | .atom a => .atom a
  | .junction c parts => (Formula.junction c (flattenAll parts)).flattenRoot
  | .neg body => (Formula.neg body.flatten).flattenRoot
  | .quant q vars body => (Formula.quant q vars body.flatten).flattenRoot

def flattenAll : List Formula → List Formula
  | [] => []
  | f :: fs => f.flatten :: flattenAll fs

end

theorem flattenAll_eq_map (fs : List Formula) : flattenAll fs = fs.map flatten := by
  induction fs with
  | nil => rfl
  | cons f fs ih => simp [flattenAll, ih]

end Formula
end QueryCalculus
