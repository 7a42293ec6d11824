import QueryCalculus.Cube.Basic
import QueryCalculus.Formula.Variables

/-!
# Conjunctive queries

- `Query` : head variables and the atoms of the body
- `Query.body`, `Query.toFormula` : the query as a formula
- `Query.isInconsistent` : queries without answers
-/

namespace QueryCalculus
namespace Datalog

/-- A query with the answer variables `head`. Its variables belong to its scope. -/
structure Query where
  head : List Variable
  atoms : List Atom
  scope : Nat
  deriving Repr

namespace Query

def isBoolean (q : Query) : Bool :=
  q.head.isEmpty

/-- The different atoms of the body. -/
def cube (q : Query) : Cube :=
  Cube.ofAtoms q.atoms

/-- Whether the comparisons of the body contradict each other. -/
def isInconsistent (q : Query) : Bool :=
  q.cube.isContradiction

/-- The conjunction of the atoms, in which every variable is free. -/
def body (q : Query) : Formula :=
  .junction .and (q.atoms.map .atom)

/-- The body with the variables that are not in the head existentially quantified. -/
def toFormula (q : Query) : Formula :=
  let hidden := q.body.free.filter (!q.head.contains ·)
  if hidden.isEmpty then q.body else .quant .exist hidden q.body

def text (q : Query) : String :=
  "Q(" ++ Text.commaSeparated (q.head.map (·.name)) ++ ") :- " ++
    Text.commaSeparated (q.atoms.map Atom.text) ++ " ."

end Query
end Datalog
end QueryCalculus
