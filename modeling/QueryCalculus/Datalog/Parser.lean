import QueryCalculus.Datalog.Query
import QueryCalculus.Datalog.Token
import QueryCalculus.Iri.Basic
import QueryCalculus.Text.Quoted

/-!
# Reading queries

- `Expectation` : what the grammar asks for at some place
- `ParseError` : why a text is not a query
- `Query.ofLexemes` : reads a query from its tokens
- `Query.parse` : reads a query from its text

A query is a head, the sign `:-` and atoms separated by commas, closed by a dot. With a signature
the kinds of the predicates are looked up, without one they are suggested by the terms. Which texts
are resources is up to a check that the readers are given.
-/

namespace QueryCalculus
namespace Datalog

/-! ## Errors -/

inductive Expectation
  | head
  | headName
  | headVariable
  | openParen
  | closeParen
  | commaOrClose
  | comma
  | implies
  | equal
  | relation
  | dotOrComma
  | term
  | quotedIri
  | nothing
  deriving DecidableEq, Repr

def Expectation.text : Expectation → String
  | .head => "the query head"
  | .headName => "the query head Q"
  | .headVariable => "a head variable"
  | .openParen => "("
  | .closeParen => ")"
  | .commaOrClose => ", or )"
  | .comma => ","
  | .implies => ":-"
  | .equal => "="
  | .relation => "= or !="
  | .dotOrComma => ". or ,"
  | .term => "a term"
  | .quotedIri => "a quoted IRI"
  | .nothing => "the end of the query"

inductive ParseError
  | lexical (e : LexicalError)
  | unexpectedToken (expected : Expectation) (position : Nat) (found : String)
  | unexpectedEnd (expected : Expectation)
  | invalidVariable (name : String)
  | invalidIri (iri : String) (reason : Iri.Error)
  | unknownPredicate (predicate : String)
  | unboundHeadVariable (name : String)
  | kind (e : KindError)
  deriving Repr

def ParseError.message : ParseError → String
  | .lexical e =>
    "Unexpected input at position " ++ toString e.position ++ ": " ++
      Text.quoted (String.ofList e.text)
  | .unexpectedToken expected position found =>
    "Expected " ++ expected.text ++ " at position " ++ toString position ++ " but found " ++
      Text.quoted found
  | .unexpectedEnd expected => "Unexpected end of input, expected " ++ expected.text
  | .invalidVariable name => "\"" ++ name ++ "\" is not a valid name for a variable."
  | .invalidIri iri reason => iri ++ " is not a valid object constant: " ++ reason.message
  | .unknownPredicate predicate =>
    "No element can be found in the signature for the predicate " ++ predicate
  | .unboundHeadVariable name =>
    "The head variable " ++ name ++ " does not occur in the body of the query."
  | .kind e => e.message

/-! ## Reading tokens -/

/-- Computations that read tokens from the front of a list. -/
abbrev Reading := StateT (List Lexeme) (Except ParseError)

def Lexeme.unexpected (l : Lexeme) (expected : Expectation) : ParseError :=
  .unexpectedToken expected l.start (String.ofList l.text)

def next (expected : Expectation) : Reading Lexeme := do
  match ← get with
  | [] => throw (.unexpectedEnd expected)
  | l :: rest =>
    set rest
    return l

/-- Reads the given token. -/
def expect (token : Token) (expected : Expectation) : Reading Unit := do
  let l ← next expected
  if l.token ≠ token then throw (l.unexpected expected)

/-- Reads the given token if it comes next, and tells whether it did. -/
def eat (token : Token) : Reading Bool := do
  match ← get with
  | l :: rest =>
    if l.token = token then
      set rest
      return true
    else
      return false
  | [] => return false

/-- Reads items separated by commas, at most `more` of them behind the first one. -/
def items {α : Type} (item : Reading α) : Nat → Reading (List α)
  | 0 => return [← item]
  | more + 1 => do
    let first ← item
    if ← eat .comma then
      return first :: (← items item more)
    else
      return [first]

/-- Reads one or more items separated by commas. There are no more items than tokens. -/
def separated {α : Type} (item : Reading α) : Reading (List α) := do
  items item (← get).length

/-! ## Terms -/

/-- A variable is the blank or a letter followed by letters, digits and underscores. -/
def isVariableName (name : String) : Bool :=
  name == Variable.blankName ||
    match name.toList with
    | [] => false
    | c :: chars => c.isAlpha && chars.all isWordChar

def variableNamed (scope : Nat) (name : String) : Except ParseError Variable :=
  if isVariableName name then .ok { name, scope := some scope }
  else .error (.invalidVariable name)

/-- The names that stand for a function from texts to resources. -/
def namesIriFunction (name : String) : Bool :=
  "IRI_FUNCT_".toList.isPrefixOf name.toList

section

variable (check : Iri.Check)

def objectConstant (iri : String) : Except ParseError Term :=
  match check iri with
  | .ok () => .ok (.const (.object iri))
  | .error reason => .error (.invalidIri iri reason)

def readQuotedIri : Reading Term := do
  expect .openParen .openParen
  let l ← next .quotedIri
  match l.token with
  | .string iri =>
    expect .closeParen .closeParen
    objectConstant check iri
  | _ => throw (l.unexpected .quotedIri)

def readTerm (scope : Nat) : Reading Term := do
  let l ← next .term
  match l.token with
  | .identifier name =>
    if namesIriFunction name then readQuotedIri check
    else if name = "true" ∨ name = "false" then return .const (.data name .boolean)
    else return .var (← variableNamed scope name)
  | .iri text => objectConstant check text
  | .integer digits => return .const (.data digits .integer)
  | .decimal digits => return .const (.data digits .decimal)
  | .string value => return .const (.data value .string)
  | _ => throw (l.unexpected .term)

/-! ## Atoms -/

/-- Checks the terms against the declared kind, or against the suggested one if there is no
signature. -/
def classify (signature : Option Signature) (predicate : String) (terms : List Term) :
    Except ParseError PredicateAtom :=
  match signature with
  | none => (PredicateAtom.classified predicate terms).mapError .kind
  | some σ =>
    match σ.kind? predicate with
    | some kind => (PredicateAtom.ofKind predicate terms kind).mapError .kind
    | none => .error (.unknownPredicate predicate)

/-- Reads the terms of a predicate atom in parentheses. -/
def readPredicate (signature : Option Signature) (scope : Nat) (predicate : String) :
    Reading Atom := do
  expect .openParen .openParen
  let terms ← separated (readTerm check scope)
  expect .closeParen .commaOrClose
  return .predicate (← classify signature predicate terms)

/-- Reads an inequality written like a predicate, with the given mark between its sides. -/
def readInequality (scope : Nat) (mark : Token) (expected : Expectation) : Reading Atom := do
  expect .openParen .openParen
  let left ← readTerm check scope
  expect mark expected
  let right ← readTerm check scope
  expect .closeParen .closeParen
  return .comparison ⟨.different, left, right⟩

def readRelation : Reading Relation := do
  let l ← next .relation
  match l.token with
  | .equal => return .equal
  | .different => return .different
  | _ => throw (l.unexpected .relation)

def readComparison (scope : Nat) : Reading Atom := do
  let left ← readTerm check scope
  let relation ← readRelation
  let right ← readTerm check scope
  return .comparison ⟨relation, left, right⟩

/-- What the first two tokens of an atom announce. -/
inductive Announced
  | negatedEquality
  | inequality
  | predicate (name : String)
  | comparison

def announced : List Lexeme → Announced
  | first :: second :: _ =>
    if second.token = .openParen then
      match first.token with
      | .identifier name =>
        if name = "not" then .negatedEquality
        else if name = "_not_equal" then .inequality
        else if namesIriFunction name then .comparison
        else .predicate name
      | .iri text => .predicate text
      | _ => .comparison
    else .comparison
  | _ => .comparison

def readAtom (signature : Option Signature) (scope : Nat) : Reading Atom := do
  match announced (← get) with
  | .negatedEquality =>
    let _ ← next .term
    readInequality check scope .equal .equal
  | .inequality =>
    let _ ← next .term
    readInequality check scope .comma .comma
  | .predicate name =>
    let _ ← next .term
    readPredicate check signature scope name
  | .comparison => readComparison check scope

/-! ## Queries -/

def readIdentifier (expected : Expectation) : Reading String := do
  let l ← next expected
  match l.token with
  | .identifier name => return name
  | _ => throw (l.unexpected expected)

def readHeadVariable (scope : Nat) : Reading Variable := do
  variableNamed scope (← readIdentifier .headVariable)

/-- Reads the variables of the head with the parentheses around them. -/
def readHead (scope : Nat) : Reading (List Variable) := do
  expect .openParen .openParen
  if ← eat .closeParen then
    return []
  else
    let head ← separated (readHeadVariable scope)
    expect .closeParen .commaOrClose
    return head

def readHeadName : Reading Unit := do
  let l ← next .head
  match l.token with
  | .identifier name =>
    if name ≠ "Q" ∧ name ≠ "q" then throw (l.unexpected .headName)
  | _ => throw (l.unexpected .head)

def readEnd : Reading Unit := do
  match ← get with
  | l :: _ => throw (l.unexpected .nothing)
  | [] => return

/-- Reads the head variables and the atoms of a query. -/
def readQuery (signature : Option Signature) (scope : Nat) :
    Reading (List Variable × List Atom) := do
  readHeadName
  let head ← readHead scope
  expect .implies .implies
  let atoms ← separated (readAtom check signature scope)
  expect .dot .dotOrComma
  readEnd
  return (head, atoms)

end

namespace Query

/-- Gives the occurrences of each variable one type and checks that the head variables occur in
the body. -/
def ofParts (scope : Nat) (head : List Variable) (atoms : List Atom) : Except ParseError Query :=
  let body := (Formula.junction .and (atoms.map .atom)).inferTypes
  match head.find? (!body.free.contains ·) with
  | some x => .error (.unboundHeadVariable x.name)
  | none => .ok { head, atoms := body.atoms, scope }

def ofLexemes (check : Iri.Check) (signature : Option Signature) (scope : Nat)
    (tokens : List Lexeme) : Except ParseError Query := do
  let ((head, atoms), _) ← (readQuery check signature scope).run tokens
  ofParts scope head atoms

/-- Reads a query whose variables get the given scope. All tokens are read before the grammar is
looked at. -/
def parse (signature : Option Signature) (scope : Nat) (text : String)
    (check : Iri.Check := Iri.check) : Except ParseError Query :=
  match lexemes 0 text.toList with
  | .error e => .error (.lexical e)
  | .ok tokens => ofLexemes check signature scope tokens

end Query
end Datalog
end QueryCalculus
