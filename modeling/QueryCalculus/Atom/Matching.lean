import QueryCalculus.Atom.Basic
import QueryCalculus.Term.Substitution

/-!
# Matching atoms

- `matchTerms?` : the substitution that turns one list of terms into another
- `PredicateAtom.match?` : the substitution that turns one predicate atom into another
-/

namespace QueryCalculus

/-- Extends `found` so that it turns the first terms into the second ones. Variables are listed in
the order of their first occurrence. -/
def matchTerms? (found : Substitution) : List Term → List Term → Option Substitution
  | .var x :: own, target :: targets =>
    match found.find? x with
    | some bound => if bound == target then matchTerms? found own targets else none
    | none => matchTerms? (found ++ [(x, target)]) own targets
  | .const c :: own, target :: targets =>
    if Term.const c == target then matchTerms? found own targets else none
  | _, _ => some found

/-- The substitution of the variables of `a` that turns it into `b`. -/
def PredicateAtom.match? (a b : PredicateAtom) : Option Substitution :=
  if a.predicate = b.predicate ∧ a.arity = b.arity then matchTerms? [] a.terms b.terms else none

end QueryCalculus
