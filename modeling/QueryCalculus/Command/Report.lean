import QueryCalculus.Datalog.Parser
import QueryCalculus.Schema
import QueryCalculus.Sparql.Compile
import QueryCalculus.Sql.Compile
import QueryCalculus.Text.Expand

/-!
# Reports of failures

- `Report` : a message with the causes behind it, nearest first
- `Report.text` : the printed report
- `ParseError.causes` and its like : the chain of causes of an error
-/

namespace QueryCalculus

/-! ## Chains of causes -/

/-- The error and the errors that brought it about. -/
def Iri.Error.causes (e : Iri.Error) : List String :=
  match e with
  | .hostAddress => [e.message, Iri.Error.addressMessage]
  | e => [e.message]

def Datalog.ParseError.causes (e : Datalog.ParseError) : List String :=
  match e with
  | .invalidIri _ reason => e.message :: reason.causes
  | e => [e.message]

namespace Command

structure Report where
  message : String
  causes : List String := []
  deriving Repr

/-- Puts `first` in front of a text and `later` in front of each further line of it. -/
def hang (first later text : String) : String :=
  first ++ Text.expand (fun c => if c = '\n' then '\n' :: later.toList else [c]) text

/-- A number with spaces in front of it, five characters wide. -/
def aligned (n : Nat) : String :=
  let digits := toString n
  String.ofList (List.replicate (5 - digits.length) ' ') ++ digits

def numberedCauses (n : Nat) : List String → String
  | [] => ""
  | cause :: causes =>
    "\n" ++ hang (aligned n ++ ": ") "       " cause ++ numberedCauses (n + 1) causes

/-- A single cause is indented, several causes are numbered. -/
def causesText : List String → String
  | [] => ""
  | [cause] => "\n\nCaused by:\n" ++ hang "    " "    " cause
  | causes => "\n\nCaused by:" ++ numberedCauses 0 causes

def Report.text (r : Report) : String :=
  "Error: " ++ r.message ++ causesText r.causes ++ "\n"

end Command
end QueryCalculus
