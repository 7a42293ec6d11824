import QueryCalculus.Term.Basic

/-!
# Kinds of predicates

- `PredicateKind` : the role a predicate plays in an ontology
- `PredicateKind.types?` : the types of the terms it takes
- `Signature` : the kinds of the known predicates
- `KindError` : why terms do not fit a kind
- `fitTerms` : checks terms against a kind and types the variables among them
-/

namespace QueryCalculus

inductive PredicateKind
  | undefined
  | concept
  | role
  | attribute
  deriving DecidableEq, Repr

namespace PredicateKind

def text : PredicateKind → String
  | .undefined => "predicate"
  | .concept => "concept"
  | .role => "role"
  | .attribute => "attribute"

/-- The types of the terms, or `none` if terms of any number and type are taken. -/
def types? : PredicateKind → Option (List TermType)
  | .undefined => none
  | .concept => some [.object]
  | .role => some [.object, .object]
  | .attribute => some [.object, .data]

def arity? (kind : PredicateKind) : Option Nat :=
  kind.types?.map List.length

/-- The kind suggested by the number of terms and the type of the second one. -/
def suggested : List Term → PredicateKind
  | [_] => .concept
  | [_, second] =>
    match second.type with
    | .object => .role
    | .data => .attribute
    | .undefined => .undefined
  | _ => .undefined

end PredicateKind

/-! ## Signatures -/

structure Signature where
  entries : List (String × PredicateKind) := []
  deriving Repr

namespace Signature

/-- Declares a predicate; a later declaration replaces an earlier one. -/
def insert (σ : Signature) (predicate : String) (kind : PredicateKind) : Signature :=
  ⟨(predicate, kind) :: σ.entries⟩

def kind? (σ : Signature) (predicate : String) : Option PredicateKind :=
  (σ.entries.find? fun entry => entry.1 == predicate).map Prod.snd

end Signature

/-! ## Fitting terms to a kind -/

inductive KindError
  | arity (predicate : String) (kind : PredicateKind) (expected actual : Nat)
  | termType (predicate : String) (term : Term) (expected actual : TermType)
  deriving Repr

def KindError.message : KindError → String
  | .arity predicate kind expected actual =>
    "The " ++ kind.text ++ " " ++ predicate ++ " expects " ++ toString expected ++
      " term(s) but " ++ toString actual ++ " were given."
  | .termType predicate term expected actual =>
    "The term " ++ term.text ++ " of " ++ predicate ++ " has type " ++ actual.text ++
      " but type " ++ expected.text ++ " is required."

/-- A blank fits everywhere, and a variable without type takes the expected one. -/
def fitTerm (predicate : String) (expected : TermType) : Term → Except KindError Term
  | .var x =>
    if x.isBlank then .ok (.var x)
    else if x.type = .undefined then .ok (.var (x.withType expected))
    else if x.type = expected then .ok (.var x)
    else .error (.termType predicate (.var x) expected x.type)
  | .const c =>
    if c.type = expected then .ok (.const c)
    else .error (.termType predicate (.const c) expected c.type)

def fitEach (predicate : String) : List TermType → List Term → Except KindError (List Term)
  | expected :: types, term :: terms => do
    let fitted ← fitTerm predicate expected term
    return fitted :: (← fitEach predicate types terms)
  | _, terms => .ok terms

/-- The number of the terms is checked first, then their types from left to right. -/
def fitTerms (predicate : String) (kind : PredicateKind) (terms : List Term) :
    Except KindError (List Term) :=
  match kind.types? with
  | none => .ok terms
  | some types =>
    if terms.length = types.length then fitEach predicate types terms
    else .error (.arity predicate kind types.length terms.length)

end QueryCalculus
