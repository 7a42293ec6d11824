import QueryCalculus.Formula.Prepared
import QueryCalculus.Sparql.Pattern

/-!
# Formulas as SPARQL queries

- `Sparql.Error` : why a formula has no pattern
- `Selection` : a pattern with the variables it binds
- `Sparql.select` : the pattern of a formula
- `Sparql.compileText` : the query for a formula

Unary predicates are classes and binary predicates are properties. Negated parts of a conjunction
come last, so that the variables of the other parts are bound when solutions are removed.
-/

namespace QueryCalculus
namespace Sparql

inductive Error
  | arity (atom : PredicateAtom)
  | universal (f : Formula)

def Error.message : Error → String
  | .arity atom =>
    "The predicate " ++ atom.predicate ++ " has arity " ++ toString atom.arity ++
      ", only unary and binary predicates can be expressed in SPARQL."
  | .universal f =>
    "Internal error while compiling into SPARQL: the universal quantifier " ++ f.text ++
      " has not been eliminated. This is likely a bug."

structure Selection where
  pattern : Pattern
  vars : VarSet

namespace Selection

def queryText (r : Selection) : String :=
  Sparql.queryText r.vars r.pattern

/-- The variables of several selections. -/
def allVars (rs : List Selection) : VarSet :=
  rs.foldl (fun vars r => vars.union r.vars) ∅

def join (rs : List Selection) : Selection :=
  match rs with
  | [] => ⟨.empty, ∅⟩
  | rs => ⟨.join (rs.map pattern), allVars rs⟩

def union (rs : List Selection) : Selection :=
  match rs with
  | [] => ⟨.never, ∅⟩
  | rs => ⟨.union (rs.map pattern), allVars rs⟩

end Selection

def predicate (a : PredicateAtom) : Except Error Selection :=
  let vars := VarSet.ofList (Formula.namedVariables a.terms)
  match a.terms with
  | [subject] => .ok ⟨.instanceOf subject a.predicate, vars⟩
  | [subject, object] => .ok ⟨.property subject a.predicate object, vars⟩
  | _ => .error (.arity a)

def isNegation : Formula → Bool
  | .neg _ => true
  | _ => false

mutual

/-- The pattern of a formula without universal quantifiers. -/
def pattern : Formula → Except Error Selection
  | .atom (.predicate a) => predicate a
  | .atom (.comparison c) => .ok ⟨.filter c, ∅⟩
  | .atom (.truth true) => .ok ⟨.empty, ∅⟩
  | .atom (.truth false) => .ok ⟨.never, ∅⟩
  | .junction .and parts => do
    let positive ← patterns (!isNegation ·) parts
    let negative ← patterns isNegation parts
    return Selection.join (positive ++ negative)
  | .junction .or parts => do
    return Selection.union (← patterns (fun _ => true) parts)
  | .neg body => do
    return ⟨.minus (← pattern body).pattern, ∅⟩
  | .quant .exist vars body => do
    let inner ← pattern body
    let remaining := inner.vars.diff vars
    return ⟨.select remaining inner.pattern, remaining⟩
  | .quant .forAll vars body => .error (.universal (.quant .forAll vars body))

/-- The patterns of the parts that are chosen, in order. -/
def patterns (chosen : Formula → Bool) : List Formula → Except Error (List Selection)
  | [] => .ok []
  | f :: fs =>
    if chosen f then do
      let first ← pattern f
      return first :: (← patterns chosen fs)
    else patterns chosen fs

end

/-- The pattern of any formula, together with the variables it binds. -/
def select (f : Formula) : Except Error Selection :=
  pattern f.prepared

def compileText (f : Formula) : Except Error String :=
  (select f).map Selection.queryText

end Sparql
end QueryCalculus
