import QueryCalculus.Formula.Basic

/-!
# Evident validity

- `Formula.isTautology` : formulas that are true whatever the predicates mean
- `Formula.isContradiction` : formulas that are false whatever the predicates mean

Both tests look at the structure only. They are sound for every domain, the empty one included, so
an existential formula is never a tautology and a universal one never a contradiction.
-/

namespace QueryCalculus
namespace Formula

mutual

def isTautology : Formula → Bool
  | .atom a => a.isTautology
  | .junction .and parts => allTautologies parts
  | .junction .or parts => anyTautology parts
  | .neg body => body.isContradiction
  | .quant .exist _ _ => false
  | .quant .forAll _ body => body.isTautology

def isContradiction : Formula → Bool
  | .atom a => a.isContradiction
  | .junction .and parts => anyContradiction parts
  | .junction .or parts => allContradictions parts
  | .neg body => body.isTautology
  | .quant .exist _ body => body.isContradiction
  | .quant .forAll _ _ => false

def allTautologies : List Formula → Bool
  | [] => true
  | f :: fs => f.isTautology && allTautologies fs

def anyTautology : List Formula → Bool
  | [] => false
  | f :: fs => f.isTautology || anyTautology fs

def allContradictions : List Formula → Bool
  | [] => true
  | f :: fs => f.isContradiction && allContradictions fs

def anyContradiction : List Formula → Bool
  | [] => false
  | f :: fs => f.isContradiction || anyContradiction fs

end

theorem allTautologies_eq_all (fs : List Formula) : allTautologies fs = fs.all isTautology := by
  induction fs with
  | nil => rfl
  | cons f fs ih => simp [allTautologies, ih]

theorem anyTautology_eq_any (fs : List Formula) : anyTautology fs = fs.any isTautology := by
  induction fs with
  | nil => rfl
  | cons f fs ih => simp [anyTautology, ih]

theorem allContradictions_eq_all (fs : List Formula) :
    allContradictions fs = fs.all isContradiction := by
  induction fs with
  | nil => rfl
  | cons f fs ih => simp [allContradictions, ih]

theorem anyContradiction_eq_any (fs : List Formula) :
    anyContradiction fs = fs.any isContradiction := by
  induction fs with
  | nil => rfl
  | cons f fs ih => simp [anyContradiction, ih]

end Formula
end QueryCalculus
