import QueryCalculus.Atom.Basic
import QueryCalculus.Text.Expand
import QueryCalculus.Text.LowerCase

/-!
# SQL expressions and their text

- `Operand` : what a condition compares
- `Column` : an output column with the variable it carries
- `Expr` : conditions, table expressions and statements
- `Expr.numbered` : the expression with its sub-queries and table uses numbered
- `Expr.render` : the text of an expression

A condition and a query for the same formula are built from the same parts, so one type serves for
both. Sub-queries and table uses have keys of any type; numbers are only needed for the text. Only
the layout is decided here: what stands in parentheses, on lines of its own and how far it is
indented.
-/

namespace QueryCalculus
namespace Sql

/-! ## Words -/

/-- Doubles the given mark inside of a text and puts the text between two of them. -/
def enclose (mark : Char) (text : String) : String :=
  String.singleton mark ++ Text.expand (fun c => if c = mark then [mark, mark] else [c]) text ++
    String.singleton mark

def quoteString (text : String) : String :=
  enclose '\'' text

def quoteName (name : String) : String :=
  enclose '"' name

/-- The literal of a constant. Numbers are written as they are. -/
def literal : Constant → String
  | .object iri => quoteString iri
  | .data value datatype =>
    if datatype = .boolean then
      if Text.sameIgnoringAsciiCase value "true" then "TRUE" else "FALSE"
    else if datatype.isNumeric then value
    else quoteString value

/-- A term outside of any statement: a variable is a column name. -/
def termText : Term → String
  | .var x => x.name
  | .const c => literal c

def queryAlias (number : Nat) : String :=
  "q" ++ toString number

def tableAlias (name : String) (use : Nat) : String :=
  name ++ toString use

/-! ## Operands and columns -/

/-- A variable of a sub-query, a variable that no sub-query provides, a column of the only table in
sight, or a constant. -/
inductive Operand (κ : Type)
  | reference (query : κ) (x : Variable)
  | bare (x : Variable)
  | column (name : String)
  | constant (c : Constant)
  deriving Repr

def Operand.text : Operand Nat → String
  | .reference query x => queryAlias query ++ "." ++ x.name
  | .bare x => x.name
  | .column name => name
  | .constant c => literal c

def Operand.map {κ μ : Type} (query : κ → μ) : Operand κ → Operand μ
  | .reference key x => .reference (query key) x
  | .bare x => .bare x
  | .column name => .column name
  | .constant c => .constant c

/-- The sub-query an operand refers to. -/
def Operand.mentions {κ : Type} : Operand κ → List κ
  | .reference key _ => [key]
  | _ => []

/-- An output column: the variable whose values it carries, the column these are taken from, and
the label if it is written out. -/
structure Column where
  carries : Variable
  source : String
  label : Option String
  deriving Repr

namespace Column

def text (c : Column) : String :=
  match c.label with
  | some label => c.source ++ " AS " ++ label
  | none => c.source

/-- Places a column in front of the first one that does not come before it, ignoring case. -/
def place (c : Column) : List Column → List Column
  | [] => [c]
  | d :: ds =>
    if Text.lower c.text ≤ Text.lower d.text then c :: d :: ds else d :: place c ds

/-- Columns in alphabetical order, ignoring case. Equal columns keep their order. -/
def sort (columns : List Column) : List Column :=
  columns.foldr place []

end Column

/-! ## Expressions -/

inductive Layout
  | inline
  | block
  deriving DecidableEq, Repr

/-- Conditions are truth values, comparisons, column conditions, alternatives, groups of conditions
that all hold, negations and existence tests. Table expressions are tables, sub-queries under an
alias, statements and unions of them. A statement joins its sources on equal column names and keeps
the rows that meet all its conditions. -/
inductive Expr (κ : Type)
  | truth (value : Bool)
  | compare (relation : Relation) (left right : Operand κ)
  | equate (column : String) (value : Operand κ)
  | any (alternatives : List (Expr κ))
  | group (conditions : List (Expr κ))
  | not (layout : Layout) (condition : Expr κ)
  | exist (query : Expr κ)
  | table (name : String) (use : κ)
  | derived (layout : Layout) (query : Expr κ) (key : κ)
  | unionAll (branches : List (Expr κ))
  | select (distinct : Bool) (columns : List Column) (sources conditions : List (Expr κ))
      (limitOne : Bool)

/-! ## Numbering -/

section Numbering

variable {κ μ : Type}

mutual

/-- Replaces the keys of the sub-queries and of the table uses. -/
def Expr.map (query : κ → μ) (use : String → κ → μ) : Expr κ → Expr μ
  | .truth value => .truth value
  | .compare relation left right => .compare relation (left.map query) (right.map query)
  | .equate column value => .equate column (value.map query)
  | .any alternatives => .any (mapAll query use alternatives)
  | .group conditions => .group (mapAll query use conditions)
  | .not layout condition => .not layout (condition.map query use)
  | .exist body => .exist (body.map query use)
  | .table name key => .table name (use name key)
  | .derived layout body key => .derived layout (body.map query use) (query key)
  | .unionAll branches => .unionAll (mapAll query use branches)
  | .select distinct columns sources conditions limitOne =>
    .select distinct columns (mapAll query use sources) (mapAll query use conditions) limitOne

def mapAll (query : κ → μ) (use : String → κ → μ) : List (Expr κ) → List (Expr μ)
  | [] => []
  | e :: es => e.map query use :: mapAll query use es

end

theorem mapAll_eq_map (query : κ → μ) (use : String → κ → μ) (es : List (Expr κ)) :
    mapAll query use es = es.map (Expr.map query use) := by
  induction es with
  | nil => rfl
  | cons e es ih => simp [mapAll, ih]

mutual

/-- The sub-queries that get their alias or are referred to, in the order of the text. -/
def Expr.mentions : Expr κ → List κ
  | .truth _ => []
  | .compare _ left right => left.mentions ++ right.mentions
  | .equate _ value => value.mentions
  | .any alternatives => mentionsAll alternatives
  | .group conditions => mentionsAll conditions
  | .not _ condition => condition.mentions
  | .exist body => body.mentions
  | .table _ _ => []
  | .derived _ body key => body.mentions ++ [key]
  | .unionAll branches => mentionsAll branches
  | .select _ _ sources conditions _ => mentionsAll sources ++ mentionsAll conditions

def mentionsAll : List (Expr κ) → List κ
  | [] => []
  | e :: es => e.mentions ++ mentionsAll es

end

theorem mentionsAll_eq_flatMap (es : List (Expr κ)) :
    mentionsAll es = es.flatMap Expr.mentions := by
  induction es with
  | nil => rfl
  | cons e es ih => simp [mentionsAll, ih]

mutual

/-- The uses of tables, in the order of the text. -/
def Expr.uses : Expr κ → List (String × κ)
  | .truth _ | .compare _ _ _ | .equate _ _ => []
  | .any alternatives => usesAll alternatives
  | .group conditions => usesAll conditions
  | .not _ condition => condition.uses
  | .exist body => body.uses
  | .table name key => [(name, key)]
  | .derived _ body _ => body.uses
  | .unionAll branches => usesAll branches
  | .select _ _ sources conditions _ => usesAll sources ++ usesAll conditions

def usesAll : List (Expr κ) → List (String × κ)
  | [] => []
  | e :: es => e.uses ++ usesAll es

end

theorem usesAll_eq_flatMap (es : List (Expr κ)) : usesAll es = es.flatMap Expr.uses := by
  induction es with
  | nil => rfl
  | cons e es ih => simp [usesAll, ih]

variable [BEq κ]

/-- Sub-queries are numbered from zero in the order in which they are first mentioned. -/
def Expr.queryNumber (e : Expr κ) (key : κ) : Nat :=
  e.mentions.eraseDups.idxOf key

/-- The uses of each table are numbered from one. -/
def Expr.useNumber (e : Expr κ) (table : String) (key : κ) : Nat :=
  (e.uses.take (e.uses.idxOf (table, key) + 1)).countP fun entry => entry.1 == table

def Expr.numbered (e : Expr κ) : Expr Nat :=
  e.map e.queryNumber e.useNumber

end Numbering

/-! ## Layout -/

/-- Moves every line of a text to the right. -/
def indent (text : String) : String :=
  "    " ++ Text.expand (fun c => if c = '\n' then '\n' :: "    ".toList else [c]) text

/-- Puts a text between parentheses, on the same line or as a block of lines. -/
def wrap : Layout → String → String
  | .inline, text => "( " ++ text ++ " )"
  | .block, text => "(\n" ++ indent text ++ "\n)"

/-- The sources of a statement. Several sources stand on lines of their own. -/
def fromClause : List String → String
  | [] => ""
  | [source] => " FROM " ++ source
  | sources => " FROM\n" ++ indent (String.intercalate "\nNATURAL JOIN\n" sources)

def whereClause (sources conditions : List String) : String :=
  if conditions.isEmpty then ""
  else (if sources.isEmpty then " WHERE " else "\nWHERE ") ++ String.intercalate " AND " conditions

/-- A statement without output columns selects a constant. -/
def selectClause (distinct : Bool) (columns : List Column) : String :=
  "SELECT " ++ (if distinct then "DISTINCT " else "") ++
    (if columns.isEmpty then "1" else Text.commaSeparated (columns.map Column.text))

mutual

def Expr.render : Expr Nat → String
  | .truth true => "TRUE"
  | .truth false => "FALSE"
  | .compare relation left right => left.text ++ " " ++ relation.symbol ++ " " ++ right.text
  | .equate column value => column ++ "=" ++ value.text
  | .any alternatives => String.intercalate " OR " (renderAll alternatives)
  | .group conditions => wrap .block (String.intercalate " AND " (renderAll conditions))
  | .not .inline condition => "NOT (" ++ condition.render ++ ")"
  | .not .block condition => "NOT " ++ wrap .block condition.render
  | .exist query => "EXISTS " ++ wrap .block query.render
  | .table name use => quoteName name ++ " " ++ tableAlias name use
  | .derived layout query key => wrap layout query.render ++ " " ++ queryAlias key
  | .unionAll branches => String.intercalate "\nUNION ALL\n" (renderAll branches)
  | .select distinct columns sources conditions limitOne =>
    selectClause distinct columns ++ fromClause (renderAll sources) ++
      whereClause (renderAll sources) (renderAll conditions) ++
      (if limitOne then "\nLIMIT 1" else "")

def renderAll : List (Expr Nat) → List String
  | [] => []
  | e :: es => e.render :: renderAll es

end

theorem renderAll_eq_map (es : List (Expr Nat)) : renderAll es = es.map Expr.render := by
  induction es with
  | nil => rfl
  | cons e es ih => simp [renderAll, ih]

end Sql
end QueryCalculus
