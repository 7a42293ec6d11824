import QueryCalculus.Formula.Flatten
import QueryCalculus.Formula.NegationNormal
import QueryCalculus.Formula.Variables

/-!
# Formulas ready for compilation

- `Formula.prepared` : the flat formula without universal quantifiers that is compiled
- `Formula.selectable` : the variables whose values the tables of a formula determine
-/

namespace QueryCalculus
namespace Formula

/-- The equivalent flat formula without universal quantifiers. -/
def prepared (f : Formula) : Formula :=
  f.eliminateForAll.flatten.unwrap

mutual

/-- The variables that a query for the formula can select. A variable that is selectable from a
disjunction is selectable from every part of it. -/
def selectable : Formula → VarSet
  | .atom (.predicate a) => VarSet.ofList (namedVariables a.terms)
  | .atom _ => ∅
  | .junction .and parts => VarSet.ofList (selectableAny parts)
  | .junction .or [] => ∅
  | .junction .or (part :: parts) => selectableEach part.selectable parts
  | .neg _ => ∅
  | .quant _ vars body => body.selectable.diff vars

def selectableAny : List Formula → List Variable
  | [] => []
  | f :: fs => f.selectable.toList ++ selectableAny fs

def selectableEach (common : VarSet) : List Formula → VarSet
  | [] => common
  | f :: fs => selectableEach (common.inter f.selectable) fs

end

theorem selectableAny_eq_flatMap (fs : List Formula) :
    selectableAny fs = fs.flatMap (·.selectable.toList) := by
  induction fs with
  | nil => rfl
  | cons f fs ih => simp [selectableAny, ih]

end Formula
end QueryCalculus
