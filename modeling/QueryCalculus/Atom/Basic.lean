import QueryCalculus.Atom.Kind
import QueryCalculus.Text.Expand

/-!
# Atoms

- `PredicateAtom` : a predicate applied to terms
- `Comparison` : an equality or inequality of two terms, equal to itself with the sides swapped
- `Atom` : a truth value, a predicate atom or a comparison
-/

namespace QueryCalculus

/-! ## Predicate atoms -/

structure PredicateAtom where
  predicate : String
  terms : List Term
  kind : PredicateKind := .undefined
  deriving Repr

namespace PredicateAtom

/-- An atom of a known kind, with the types of its variables fixed by their positions. -/
def ofKind (predicate : String) (terms : List Term) (kind : PredicateKind) :
    Except KindError PredicateAtom := do
  return ⟨predicate, ← fitTerms predicate kind terms, kind⟩

/-- An atom of the kind its terms suggest. -/
def classified (predicate : String) (terms : List Term) : Except KindError PredicateAtom :=
  ofKind predicate terms (PredicateKind.suggested terms)

def arity (a : PredicateAtom) : Nat :=
  a.terms.length

def vars (a : PredicateAtom) : List Variable :=
  variablesOf a.terms

def text (a : PredicateAtom) : String :=
  a.predicate ++ "(" ++ Text.commaSeparated (a.terms.map Term.text) ++ ")"

instance : BEq PredicateAtom :=
  ⟨fun a b => a.predicate == b.predicate && a.terms == b.terms && a.kind == b.kind⟩

end PredicateAtom

/-! ## Comparisons -/

inductive Relation
  | equal
  | different
  deriving DecidableEq, Repr

namespace Relation

def symbol : Relation → String
  | .equal => "="
  | .different => "!="

def negated : Relation → Relation
  | .equal => .different
  | .different => .equal

end Relation

structure Comparison where
  relation : Relation
  left : Term
  right : Term
  deriving Repr

namespace Comparison

def negated (c : Comparison) : Comparison :=
  { c with relation := c.relation.negated }

def isTautology (c : Comparison) : Bool :=
  c.relation == .equal && c.left == c.right

def isContradiction (c : Comparison) : Bool :=
  c.relation == .different && c.left == c.right

def text (c : Comparison) : String :=
  c.left.text ++ " " ++ c.relation.symbol ++ " " ++ c.right.text

instance : BEq Comparison :=
  ⟨fun c d => c.relation == d.relation &&
    (c.left == d.left && c.right == d.right || c.left == d.right && c.right == d.left)⟩

end Comparison

/-! ## All atoms -/

inductive Atom
  | truth (value : Bool)
  | predicate (a : PredicateAtom)
  | comparison (c : Comparison)
  deriving Repr

namespace Atom

def same : Atom → Atom → Bool
  | .truth b, .truth c => b == c
  | .predicate a, .predicate b => a == b
  | .comparison c, .comparison d => c == d
  | _, _ => false

instance : BEq Atom := ⟨same⟩

def terms : Atom → List Term
  | .truth _ => []
  | .predicate a => a.terms
  | .comparison c => [c.left, c.right]

def mapTerms (f : Term → Term) : Atom → Atom
  | .truth b => .truth b
  | .predicate a => .predicate { a with terms := a.terms.map f }
  | .comparison c => .comparison { c with left := f c.left, right := f c.right }

def predicate? : Atom → Option PredicateAtom
  | .predicate a => some a
  | _ => none

def comparison? : Atom → Option Comparison
  | .comparison c => some c
  | _ => none

def isTautology : Atom → Bool
  | .truth b => b
  | .predicate _ => false
  | .comparison c => c.isTautology

def isContradiction : Atom → Bool
  | .truth b => !b
  | .predicate _ => false
  | .comparison c => c.isContradiction

def text : Atom → String
  | .truth true => "TRUE"
  | .truth false => "FALSE"
  | .predicate a => a.text
  | .comparison c => c.text

end Atom
end QueryCalculus
