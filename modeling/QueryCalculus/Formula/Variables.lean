import QueryCalculus.Alphabet
import QueryCalculus.Formula.Basic

/-!
# The variables of a formula

- `Formula.atoms`, `Formula.terms` : what occurs in a formula, depth first
- `Formula.vars`, `Formula.free`, `Formula.bound` : its sets of variables
- `Formula.names` : every variable name, for the choice of fresh ones
- `Formula.shared` : the variables that join the parts of a conjunction
- `Formula.inferTypes` : one type for all occurrences of a variable

Of several occurrences of a variable, the sets keep the last one.
-/

namespace QueryCalculus
namespace Formula

/-! ## Occurrences -/

mutual

/-- The atoms of the formula, depth first. -/
def atoms : Formula → List Atom
  | .atom a => [a]
  | .junction _ parts => atomsAll parts
  | .neg body => body.atoms
  | .quant _ _ body => body.atoms

def atomsAll : List Formula → List Atom
  | [] => []
  | f :: fs => f.atoms ++ atomsAll fs

end

theorem atomsAll_eq_flatMap (fs : List Formula) : atomsAll fs = fs.flatMap atoms := by
  induction fs with
  | nil => rfl
  | cons f fs ih => simp [atomsAll, ih]

def terms (f : Formula) : List Term :=
  f.atoms.flatMap Atom.terms

/-- The variables of the atoms, bound or not. -/
def vars (f : Formula) : VarSet :=
  VarSet.ofList (variablesOf f.terms)

/-- The variables of an atom that are not blank. -/
def namedVariables (terms : List Term) : List Variable :=
  (variablesOf terms).filter (!·.isBlank)

mutual

/-- The variables that no quantifier binds. Blanks are never free. -/
def free : Formula → VarSet
  | .atom a => VarSet.ofList (namedVariables a.terms)
  | .junction _ parts => VarSet.ofList (freeAll parts)
  | .neg body => body.free
  | .quant _ vars body => body.free.diff vars

def freeAll : List Formula → List Variable
  | [] => []
  | f :: fs => f.free.toList ++ freeAll fs

end

theorem freeAll_eq_flatMap (fs : List Formula) : freeAll fs = fs.flatMap (·.free.toList) := by
  induction fs with
  | nil => rfl
  | cons f fs ih => simp [freeAll, ih]

mutual

/-- The variables that some quantifier binds. -/
def bound : Formula → VarSet
  | .atom _ => ∅
  | .junction _ parts => VarSet.ofList (boundAll parts)
  | .neg body => body.bound
  | .quant _ vars body => body.bound.union vars

def boundAll : List Formula → List Variable
  | [] => []
  | f :: fs => f.bound.toList ++ boundAll fs

end

theorem boundAll_eq_flatMap (fs : List Formula) : boundAll fs = fs.flatMap (·.bound.toList) := by
  induction fs with
  | nil => rfl
  | cons f fs ih => simp [boundAll, ih]

/-- The names of all variables, free or bound, in code point order. -/
def names (f : Formula) : List String :=
  Text.sortedWords ((f.vars.toList ++ f.bound.toList).map (·.name))

/-- The characters of the variable names except the blank symbol, or the latin alphabet if there
are none. -/
def activeAlphabet (f : Formula) : Alphabet :=
  let characters := f.names.flatMap (·.toList)
  match Alphabet.ofSymbols ((characters.filter (· ≠ '_')).map String.singleton) with
  | .ok alphabet => alphabet
  | .error _ => Alphabet.latin

/-- The variables that are free in at least two parts of a conjunction. No other formula has
shared variables. -/
def shared : Formula → VarSet
  | .junction .and parts =>
    let occurrences := freeAll parts
    (VarSet.empty.extend occurrences).filter fun x => 1 < occurrences.countP (· == x)
  | _ => ∅

mutual

/-- Atoms have depth zero, and every other formula is one level deeper than its deepest part. -/
def depth : Formula → Nat
  | .atom _ => 0
  | .junction _ parts => depthAll parts + 1
  | .neg body => body.depth + 1
  | .quant _ _ body => body.depth + 1

def depthAll : List Formula → Nat
  | [] => 0
  | f :: fs => max f.depth (depthAll fs)

end

/-! ## Mapping terms -/

mutual

/-- Replaces the terms of all atoms. -/
def mapTerms (h : Term → Term) : Formula → Formula
  | .atom a => .atom (a.mapTerms h)
  | .junction c parts => .junction c (mapTermsAll h parts)
  | .neg body => .neg (body.mapTerms h)
  | .quant q vars body => .quant q vars (body.mapTerms h)

def mapTermsAll (h : Term → Term) : List Formula → List Formula
  | [] => []
  | f :: fs => f.mapTerms h :: mapTermsAll h fs

end

theorem mapTermsAll_eq_map (h : Term → Term) (fs : List Formula) :
    mapTermsAll h fs = fs.map (mapTerms h) := by
  induction fs with
  | nil => rfl
  | cons f fs ih => simp [mapTermsAll, ih]

/-- The type of the first occurrence of `x` that has one. -/
def firstType? (occurrences : List Variable) (x : Variable) : Option TermType :=
  (occurrences.find? fun y => y == x && y.type ≠ .undefined).map (·.type)

/-- Gives every occurrence of a variable in an atom the type of its first typed occurrence. -/
def inferTypes (f : Formula) : Formula :=
  let occurrences := variablesOf f.terms
  f.mapTerms fun
    | .var x => .var (x.withType ((firstType? occurrences x).getD x.type))
    | .const c => .const c

end Formula
end QueryCalculus
