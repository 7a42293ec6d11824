import QueryCalculus.Atom.Basic
import QueryCalculus.Text.Quoted
import QueryCalculus.VarSet

/-!
# SPARQL graph patterns and their text

- `termText` : the text of a term
- `Pattern` : graph patterns
- `Pattern.render`, `queryText` : the text of a pattern and of the query for it
-/

namespace QueryCalculus
namespace Sparql

/-! ## Terms -/

/-- The four upper case hexadecimal digits of a character. -/
def fourHexDigits (c : Char) : List Char :=
  let digits := (Text.hexDigits c.toNat).map Char.toUpper
  List.replicate (4 - digits.length) '0' ++ digits

def spellLiteral (c : Char) : List Char :=
  match c with
  | '\x08' => ['\\', 'b']
  | '\t' => ['\\', 't']
  | '\n' => ['\\', 'n']
  | '\x0c' => ['\\', 'f']
  | '\r' => ['\\', 'r']
  | '"' => ['\\', '"']
  | '\\' => ['\\', '\\']
  | c => if c.toNat < 0x20 ∨ c.toNat = 0x7F then '\\' :: 'u' :: fourHexDigits c else [c]

/-- A literal names its datatype unless it is a string. -/
def constantText : Constant → String
  | .object iri => "<" ++ iri ++ ">"
  | .data value datatype =>
    "\"" ++ Text.expand spellLiteral value ++ "\"" ++
      (if datatype = .string then "" else "^^<" ++ datatype.iri ++ ">")

def variableText (x : Variable) : String :=
  "?" ++ x.name

def termText : Term → String
  | .var x => variableText x
  | .const c => constantText c

/-- A term of a triple, where the blank is an anonymous node. -/
def nodeText : Term → String
  | .var x => if x.isBlank then "[]" else variableText x
  | .const c => constantText c

/-! ## Patterns -/

/-- A class or property triple, a filter on two terms, a filter that always fails, the empty group,
patterns in one group, alternatives, the removal of solutions, and a sub-query that projects
variables. -/
inductive Pattern
  | instanceOf (subject : Term) (name : String)
  | property (subject : Term) (name : String) (object : Term)
  | filter (c : Comparison)
  | never
  | empty
  | join (parts : List Pattern)
  | union (alternatives : List Pattern)
  | minus (removed : Pattern)
  | select (vars : VarSet) (body : Pattern)

/-- The projected variables, or a constant if there are none. -/
def projectionText (vars : VarSet) : String :=
  if vars.isEmpty then "(1 AS ?dummy)"
  else String.intercalate " " (vars.toList.map variableText)

def braced (text : String) : String :=
  "\x7b " ++ text ++ " \x7d"

mutual

def Pattern.render : Pattern → String
  | .instanceOf subject name => nodeText subject ++ " a <" ++ name ++ "> ."
  | .property subject name object =>
    nodeText subject ++ " <" ++ name ++ "> " ++ nodeText object ++ " ."
  | .filter c =>
    "FILTER(" ++ termText c.left ++ " " ++ c.relation.symbol ++ " " ++ termText c.right ++ ")"
  | .never => "FILTER(false)"
  | .empty => "\x7b\x7d"
  | .join parts => String.intercalate "\n" (renderAll parts)
  | .union alternatives => String.intercalate " UNION " ((renderAll alternatives).map braced)
  | .minus removed => "MINUS " ++ braced removed.render
  | .select vars body =>
    braced ("SELECT DISTINCT " ++ projectionText vars ++ " " ++ braced body.render)

def renderAll : List Pattern → List String
  | [] => []
  | p :: ps => p.render :: renderAll ps

end

theorem renderAll_eq_map (ps : List Pattern) : renderAll ps = ps.map Pattern.render := by
  induction ps with
  | nil => rfl
  | cons p ps ih => simp [renderAll, ih]

/-- The query that projects the variables of a pattern. -/
def queryText (vars : VarSet) (p : Pattern) : String :=
  "SELECT DISTINCT " ++ projectionText vars ++ " \x7b\n" ++ p.render ++ "\n\x7d"

end Sparql
end QueryCalculus
