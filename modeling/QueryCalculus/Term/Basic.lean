import QueryCalculus.Term.Datatype
import QueryCalculus.Variable

/-!
# Terms

- `Constant` : an individual named by an identifier, or a literal value
- `Term` : a variable or a constant
- `Term.key` : what a term denotes; terms with the same key are equal

The type of a variable and the datatype of a literal are annotations: they do not take part in
the comparison of terms.
-/

namespace QueryCalculus

inductive Constant
  | object (iri : String)
  | data (value : String) (datatype : Datatype)
  deriving Repr

namespace Constant

def type : Constant → TermType
  | .object _ => .object
  | .data _ _ => .data

/-- Numbers and truth values stand as they are, other values between quotes. -/
def text : Constant → String
  | .object iri => iri
  | .data value datatype =>
    if datatype.isNumeric || datatype == .boolean then value else "\"" ++ value ++ "\""

end Constant

inductive Term
  | var (x : Variable)
  | const (c : Constant)
  deriving Repr

namespace Term

inductive Key
  | var (x : Ident)
  | object (iri : String)
  | data (value : String)
  deriving DecidableEq, Repr

def key : Term → Key
  | .var x => .var x.toIdent
  | .const (.object iri) => .object iri
  | .const (.data value _) => .data value

instance : BEq Term :=
  ⟨fun s t => s.key == t.key⟩

theorem beq_iff {s t : Term} : (s == t) = true ↔ s.key = t.key := by
  show (s.key == t.key) = true ↔ _
  simp

def type : Term → TermType
  | .var x => x.type
  | .const c => c.type

def var? : Term → Option Variable
  | .var x => some x
  | .const _ => none

def isConstant : Term → Bool
  | .var _ => false
  | .const _ => true

def text : Term → String
  | .var x => x.name
  | .const c => c.text

end Term

/-- The variables among the terms, in order and with repetitions. -/
def variablesOf (terms : List Term) : List Variable :=
  terms.filterMap Term.var?

end QueryCalculus
