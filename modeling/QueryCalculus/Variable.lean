/-!
# Variables

- `TermType` : what a term ranges over, as far as it is known
- `Ident` : the name and the scope that tell variables apart
- `Variable` : an identity together with the type known for this occurrence

Two occurrences of one variable may carry different types. Everything that compares variables
looks at their identities only.
-/

namespace QueryCalculus

inductive TermType
  | undefined
  | object
  | data
  deriving DecidableEq, Repr

def TermType.text : TermType → String
  | .undefined => "undefined"
  | .object => "object"
  | .data => "data"

/-- A variable belongs to a scope, usually the query it was read from, or to none. -/
structure Ident where
  name : String
  scope : Option Nat := none
  deriving DecidableEq, Repr

namespace Ident

/-- Identities are ordered by name, then by scope; no scope comes first. -/
instance : Ord Ident :=
  ⟨compareLex (compareOn Ident.name) (compareOn Ident.scope)⟩

instance : LT Ident :=
  ⟨fun a b => compare a b = .lt⟩

instance : DecidableLT Ident :=
  fun a b => inferInstanceAs (Decidable (compare a b = .lt))

instance : Std.TransOrd Ident :=
  inferInstanceAs (Std.TransCmp (compareLex (compareOn Ident.name) (compareOn Ident.scope)))

instance : Std.LawfulEqOrd Ident where
  eq_of_compare {a b} h := by
    have h' : (compare a.name b.name).then (compare a.scope b.scope) = .eq := h
    rw [Ordering.then_eq_eq] at h'
    cases a
    cases b
    simp_all

theorem lt_trans {a b c : Ident} (hab : a < b) (hbc : b < c) : a < c :=
  Std.TransCmp.lt_trans hab hbc

theorem lt_irrefl (a : Ident) : ¬ a < a := by
  intro h
  have h' : compare a a = .lt := h
  simp at h'

end Ident

structure Variable extends Ident where
  type : TermType := .undefined
  deriving Repr

namespace Variable

/-- The name of the blank variable, of which every occurrence is a variable of its own. -/
def blankName : String := "_"

def isBlank (x : Variable) : Bool :=
  x.name == blankName

/-- The same variable under another name. -/
def renamed (x : Variable) (name : String) : Variable :=
  { x with name }

def withType (x : Variable) (type : TermType) : Variable :=
  { x with type }

instance : BEq Variable :=
  ⟨fun x y => x.toIdent == y.toIdent⟩

theorem beq_iff {x y : Variable} : (x == y) = true ↔ x.toIdent = y.toIdent := by
  show (x.toIdent == y.toIdent) = true ↔ _
  simp

end Variable
end QueryCalculus
