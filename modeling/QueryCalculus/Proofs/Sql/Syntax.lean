import QueryCalculus.Proofs.Sql.Expressions
import QueryCalculus.Proofs.Sql.Tokens

/-!
# Statements as they are read

- `Literal`, `Scalar`, `Condition`, `Source`, `Query` : the syntax of statements without
  disjunctions
- `readQuery`, `readStatement` : reading tokens and texts
- `Expr.condition`, `Expr.source`, `Expr.statement` : what an expression should be read as

`AND` and `NATURAL JOIN` group to the left. Readers return what they have not read. Their number
bounds the nesting of calls; as every call takes a token, the number of tokens is enough.
-/

namespace QueryCalculus
namespace Sql

/-! ## Syntax -/

inductive Literal
  | string (value : String)
  | number (numeral : String)
  | truth (value : Bool)
  deriving DecidableEq

/-- A literal, a column of whatever source has one of this name, or a column of a given source. -/
inductive Scalar
  | literal (value : Literal)
  | column (name : String)
  | reference (source name : String)
  deriving DecidableEq

/-- A column of a result. Literals have no name unless they are given one. -/
structure Output where
  name : Option String
  value : Scalar
  deriving DecidableEq

mutual

inductive Condition
  | truth (value : Bool)
  | compare (relation : Relation) (left right : Scalar)
  | both (left right : Condition)
  | not (condition : Condition)
  | exist (query : Query)

/-- What rows are taken from. Without a source there is one row with no columns. -/
inductive Source
  | nothing
  | table (name label : String)
  | derived (query : Query) (label : String)
  | natural (left right : Source)

inductive Query
  | select (distinct : Bool) (outputs : List Output) (source : Source) (condition : Condition)
      (limitOne : Bool)

end

/-- All of the conditions hold. -/
def Condition.all : List Condition → Condition
  | [] => .truth true
  | c :: cs => cs.foldl .both c

/-- The natural join of the sources. -/
def Source.joined : List Source → Source
  | [] => .nothing
  | s :: ss => ss.foldl .natural s

/-! ## Scalars and columns -/

def readScalar : List Token → Option (Scalar × List Token)
  | .string value :: ts => some (.literal (.string value), ts)
  | .number numeral :: ts => some (.literal (.number numeral), ts)
  | .keyword .TRUE :: ts => some (.literal (.truth true), ts)
  | .keyword .FALSE :: ts => some (.literal (.truth false), ts)
  | .name source :: .symbol '.' :: .name column :: ts => some (.reference source column, ts)
  | .name column :: ts => some (.column column, ts)
  | _ => none

def readRelation : List Token → Option (Relation × List Token)
  | .symbol '=' :: ts => some (.equal, ts)
  | .symbol '!' :: .symbol '=' :: ts => some (.different, ts)
  | _ => none

/-- A truth value by itself is a condition. -/
def readComparison (ts : List Token) : Option (Condition × List Token) := do
  let (left, ts) ← readScalar ts
  match readRelation ts, left with
  | some (relation, ts), left =>
    let (right, ts) ← readScalar ts
    return (.compare relation left right, ts)
  | none, .literal (.truth value) => return (.truth value, ts)
  | none, _ => none

/-- The name that a column has by itself. -/
def Scalar.name? : Scalar → Option String
  | .column name | .reference _ name => some name
  | _ => none

def readOutput (ts : List Token) : Option (Output × List Token) := do
  let (value, ts) ← readScalar ts
  match ts with
  | .keyword .AS :: .name label :: ts => return (⟨some label, value⟩, ts)
  | ts => return (⟨value.name?, value⟩, ts)

def readOutputs : Nat → List Token → Option (List Output × List Token)
  | 0, _ => none
  | n + 1, ts => do
    let (output, ts) ← readOutput ts
    match ts with
    | .symbol ',' :: ts =>
      let (outputs, ts) ← readOutputs n ts
      return (output :: outputs, ts)
    | ts => return ([output], ts)

def readDistinct : List Token → Bool × List Token
  | .keyword .DISTINCT :: ts => (true, ts)
  | ts => (false, ts)

def readLimit : List Token → Bool × List Token
  | .keyword .LIMIT :: .number "1" :: ts => (true, ts)
  | ts => (false, ts)

/-- The tokens behind a closing parenthesis. -/
def readClosing : List Token → Option (List Token)
  | .symbol ')' :: ts => some ts
  | _ => none

/-! ## Conditions, sources and statements -/

mutual

/-- A condition up to the next `AND` outside of parentheses. -/
def readFactor : Nat → List Token → Option (Condition × List Token)
  | n + 1, .keyword .NOT :: ts => do
    let (condition, ts) ← readFactor n ts
    return (.not condition, ts)
  | n + 1, .keyword .EXISTS :: .symbol '(' :: ts => do
    let (query, ts) ← readQuery n ts
    return (.exist query, ← readClosing ts)
  | n + 1, .symbol '(' :: ts => do
    let (first, ts) ← readFactor n ts
    let (condition, ts) ← readAnds n first ts
    return (condition, ← readClosing ts)
  | _, ts => readComparison ts

/-- The conditions that are added by `AND` to those read before. -/
def readAnds : Nat → Condition → List Token → Option (Condition × List Token)
  | n + 1, before, .keyword .AND :: ts => do
    let (condition, ts) ← readFactor n ts
    readAnds n (.both before condition) ts
  | _, before, ts => some (before, ts)

def readSource : Nat → List Token → Option (Source × List Token)
  | _, .quotedName name :: .name label :: ts => some (.table name label, ts)
  | n + 1, .symbol '(' :: ts => do
    let (query, ts) ← readQuery n ts
    match ← readClosing ts with
    | .name label :: ts => return (.derived query label, ts)
    | _ => none
  | _, _ => none

/-- The sources that are joined to those read before. -/
def readJoins : Nat → Source → List Token → Option (Source × List Token)
  | n + 1, before, .keyword .NATURAL :: .keyword .JOIN :: ts => do
    let (source, ts) ← readSource n ts
    readJoins n (.natural before source) ts
  | _, before, ts => some (before, ts)

def readFrom : Nat → List Token → Option (Source × List Token)
  | n + 1, .keyword .FROM :: ts => do
    let (first, ts) ← readSource n ts
    readJoins n first ts
  | _, ts => some (.nothing, ts)

def readWhere : Nat → List Token → Option (Condition × List Token)
  | n + 1, .keyword .WHERE :: ts => do
    let (first, ts) ← readFactor n ts
    readAnds n first ts
  | _, ts => some (.truth true, ts)

def readQuery : Nat → List Token → Option (Query × List Token)
  | n + 1, .keyword .SELECT :: ts => do
    let (distinct, ts) := readDistinct ts
    let (outputs, ts) ← readOutputs n ts
    let (source, ts) ← readFrom n ts
    let (condition, ts) ← readWhere n ts
    let (limitOne, ts) := readLimit ts
    return (.select distinct outputs source condition limitOne, ts)
  | _, _ => none

end

/-- A statement that takes up the whole text. -/
def readStatement (text : String) : Option Query := do
  let ts ← tokenize text
  match ← readQuery ts.length ts with
  | (query, []) => return query
  | _ => none

/-! ## Expressions -/

/-- Objects and all data but numbers and truth values are written as strings. -/
def constantLiteral : Constant → Literal
  | .object iri => .string iri
  | .data value datatype =>
    if datatype = .boolean then .truth (Text.sameIgnoringAsciiCase value "true")
    else if datatype.isNumeric then .number value
    else .string value

def Operand.scalar : Operand Nat → Scalar
  | .reference query x => .reference (queryAlias query) (fold x.name)
  | .bare x => .column (fold x.name)
  | .column name => .column (fold name)
  | .constant c => .literal (constantLiteral c)

def Column.output (c : Column) : Output :=
  ⟨some (fold c.name), .column (fold c.source)⟩

/-- A statement without columns selects a constant. -/
def outputsOf : List Column → List Output
  | [] => [⟨none, .literal (.number "1")⟩]
  | columns => columns.map Column.output

mutual

/-- The condition that an expression stands for. Disjunctions and table expressions stand for
none. -/
def Expr.condition : Expr Nat → Condition
  | .truth value => .truth value
  | .compare relation left right => .compare relation left.scalar right.scalar
  | .equate column value => .compare .equal (.column (fold column)) value.scalar
  | .group es => .all (conditionsOf es)
  | .not _ e => .not e.condition
  | .exist e => .exist e.statement
  | _ => .truth false

def conditionsOf : List (Expr Nat) → List Condition
  | [] => []
  | e :: es => e.condition :: conditionsOf es

def Expr.source : Expr Nat → Source
  | .table name use => .table name (fold (tableAlias name use))
  | .derived _ e key => .derived e.statement (queryAlias key)
  | _ => .nothing

def sourcesOf : List (Expr Nat) → List Source
  | [] => []
  | e :: es => e.source :: sourcesOf es

def Expr.statement : Expr Nat → Query
  | .select distinct columns sources conditions limitOne =>
    .select distinct (outputsOf columns) (.joined (sourcesOf sources))
      (.all (conditionsOf conditions)) limitOne
  | _ => .select false [] .nothing (.truth false) false

end

theorem conditionsOf_eq_map (es : List (Expr Nat)) : conditionsOf es = es.map Expr.condition := by
  induction es with
  | nil => rfl
  | cons e es ih => rw [conditionsOf, ih, List.map_cons]

theorem sourcesOf_eq_map (es : List (Expr Nat)) : sourcesOf es = es.map Expr.source := by
  induction es with
  | nil => rfl
  | cons e es ih => rw [sourcesOf, ih, List.map_cons]

end Sql
end QueryCalculus
