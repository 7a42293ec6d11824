import QueryCalculus.Formula.Apart
import QueryCalculus.Formula.Flatten

/-!
# Prenex form

- `Block` : a quantifier with the variables it binds
- `Formula.splitBlocks`, `Formula.wrapBlocks` : the leading quantifiers of a formula and its matrix
- `Formula.prenex` : all quantifiers in front of a matrix without any

The quantifiers of the parts of a junction are gathered into one existential block around one
universal block.
-/

namespace QueryCalculus

abbrev Block := Quantifier × VarSet

namespace Formula

/-- The leading quantifiers, outermost first, and the formula below them. -/
def splitBlocks : Formula → List Block × Formula
  | .quant q vars body =>
    let (blocks, matrix) := body.splitBlocks
    ((q, vars) :: blocks, matrix)
  | f => ([], f)

def wrapBlocks (blocks : List Block) (matrix : Formula) : Formula :=
  blocks.foldr (fun block f => .quant block.1 block.2 f) matrix

/-- Quantifies only if there are variables. -/
def quantSome (q : Quantifier) (vars : VarSet) (body : Formula) : Formula :=
  if vars.isEmpty then body else .quant q vars body

/-- All variables bound by the blocks of one quantifier. -/
def gatherBlocks (q : Quantifier) (blocks : List Block) : VarSet :=
  blocks.foldl (fun vars block => if block.1 = q then vars.union block.2 else vars) ∅

/-- A junction of formulas in prenex form. -/
def prenexJunction (c : Connective) (parts : List Formula) : Formula :=
  let split := parts.map splitBlocks
  let blocks := split.flatMap Prod.fst
  quantSome .exist (gatherBlocks .exist blocks)
    (quantSome .forAll (gatherBlocks .forAll blocks) (.junction c (split.map Prod.snd)))

/-- The negation of a formula in prenex form. -/
def prenexNegation (f : Formula) : Formula :=
  let (blocks, matrix) := f.splitBlocks
  wrapBlocks (blocks.map fun block => (block.1.dual, block.2)) (Formula.neg matrix).unwrap

mutual

/-- Moves the quantifiers of a formula to the front. No name may be bound twice. -/
def hoist : Formula → Formula
  | .atom a => .atom a
  | .junction c parts => prenexJunction c (hoistAll parts)
  | .neg body => prenexNegation body.hoist
  | .quant q vars body => (Formula.quant q vars body.hoist).flattenRoot

def hoistAll : List Formula → List Formula
  | [] => []
  | f :: fs => f.hoist :: hoistAll fs

end

theorem hoistAll_eq_map (fs : List Formula) : hoistAll fs = fs.map hoist := by
  induction fs with
  | nil => rfl
  | cons f fs ih => simp [hoistAll, ih]

/-- Renames the quantified variables apart and moves the quantifiers to the front. -/
def prenex (alphabet : Alphabet) (f : Formula) : Formula :=
  (f.renameApart alphabet).hoist

end Formula
end QueryCalculus
