import QueryCalculus.Formula.Variables
import QueryCalculus.Term.Substitution

/-!
# Substitution in formulas

- `Formula.replace` : replaces all variables of a substitution at once
- `Formula.replaceInTurn` : applies replacements one after the other

Bound variables are replaced as well: a quantifier binds the variable that takes the place of its
own, and binds nothing where a constant does.
-/

namespace QueryCalculus

/-- The variables bound in place of those of the set. -/
def VarSet.replace (s : Substitution) (vars : VarSet) : VarSet :=
  VarSet.ofList (vars.toList.filterMap s.applyBound?)

namespace Formula

mutual

def replace (s : Substitution) : Formula → Formula
  | .atom a => .atom (a.mapTerms s.apply)
  | .junction c parts => .junction c (replaceAll s parts)
  | .neg body => .neg (body.replace s)
  | .quant q vars body => .quant q (vars.replace s) (body.replace s)

def replaceAll (s : Substitution) : List Formula → List Formula
  | [] => []
  | f :: fs => f.replace s :: replaceAll s fs

end

theorem replaceAll_eq_map (s : Substitution) (fs : List Formula) :
    replaceAll s fs = fs.map (replace s) := by
  induction fs with
  | nil => rfl
  | cons f fs ih => simp [replaceAll, ih]

/-- A later replacement also applies to the terms that an earlier one has introduced. -/
def replaceInTurn (pairs : List (Variable × Term)) (f : Formula) : Formula :=
  pairs.foldl (fun g pair => g.replace [pair]) f

end Formula
end QueryCalculus
