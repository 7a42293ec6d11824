import QueryCalculus.Term.Basic

/-!
# Substitutions

- `Substitution` : pairs of a variable and the term that replaces it, the first pair decides
- `Substitution.apply` : replaces a term if it is a variable of the domain
-/

namespace QueryCalculus

abbrev Substitution := List (Variable × Term)

namespace Substitution

def find? (s : Substitution) (x : Variable) : Option Term :=
  (List.find? (fun entry => entry.1 == x) s).map Prod.snd

/-- The substitution in which the last pair of a variable decides. -/
def ofAssignments (pairs : List (Variable × Term)) : Substitution :=
  pairs.reverse

def apply (s : Substitution) : Term → Term
  | .var x => (s.find? x).getD (.var x)
  | .const c => .const c

/-- The variable bound in place of `x`: itself, the variable that replaces it, or none if a
constant does. -/
def applyBound? (s : Substitution) (x : Variable) : Option Variable :=
  match s.find? x with
  | some t => t.var?
  | none => some x

end Substitution
end QueryCalculus
