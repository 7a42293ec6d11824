import QueryCalculus.Csv
import QueryCalculus.Text.Expand

/-!
# Relational schemas

- `Table` : a table with its ordered columns
- `Schema` : the declared tables, each reachable through its name, and further names for them
- `Schema.Change` : what declarations do to a schema, also if they end with an error
- `Schema.table?` : the table of a predicate
- `Schema.ofCsv` : the schema of a mapping file
-/

namespace QueryCalculus

structure Table where
  name : String
  columns : List String
  deriving DecidableEq, Repr

namespace Table

def arity (t : Table) : Nat :=
  t.columns.length

def text (t : Table) : String :=
  t.name ++ "(" ++ Text.commaSeparated t.columns ++ ")"

end Table

structure Schema where
  tables : List Table := []
  bindings : List (String × String) := []
  deriving Repr

namespace Schema

inductive Error
  | malformed
  | missingColumns (table : String)
  | duplicateTable (table : String)
  | unknownTable (table : String)
  deriving DecidableEq, Repr

def Error.message : Error → String
  | .malformed => "Could not read the schema mapping: a field is not valid UTF-8"
  | .missingColumns table => "The table " ++ table ++ " has no columns."
  | .duplicateTable table => "The table " ++ table ++ " is declared more than once."
  | .unknownTable table => "The table " ++ table ++ " does not exist."

/-! ## Declarations -/

def named? (s : Schema) (name : String) : Option Table :=
  s.tables.find? (·.name = name)

/-- A change of a schema. What is changed before an error stays changed. -/
abbrev Change := EStateM Error Schema Unit

def declareTable (t : Table) : Change := do
  if ((← get).named? t.name).isSome then
    throw (.duplicateTable t.name)
  modify fun s => { s with tables := s.tables ++ [t] }

/-- Makes a predicate refer to a declared table. A later binding replaces an earlier one. -/
def bindPredicate (predicate table : String) : Change := do
  if ((← get).named? table).isNone then
    throw (.unknownTable table)
  modify fun s => { s with bindings := (predicate, table) :: s.bindings }

/-- The schema after a change, for those who give it up after an error. -/
def changed (s : Schema) (change : Change) : Except Error Schema :=
  match change.run s with
  | .ok _ after => .ok after
  | .error e _ => .error e

def addTable (s : Schema) (t : Table) : Except Error Schema :=
  s.changed (declareTable t)

def bind (s : Schema) (predicate table : String) : Except Error Schema :=
  s.changed (bindPredicate predicate table)

/-! ## Looking up tables -/

/-- The table a name is bound to, or else the table of this name. -/
def lookup? (s : Schema) (name : String) : Option Table :=
  match s.bindings.find? (·.1 = name) with
  | some binding => s.named? binding.2
  | none => s.named? name

/-- The part of an identifier behind its last separator, if it has one. -/
def localName? (identifier : String) : Option String :=
  let isSeparator := fun c => c = '#' ∨ c = '/' ∨ c = ':'
  let reversed := identifier.toList.reverse
  if reversed.any isSeparator then
    some (String.ofList (reversed.takeWhile (!isSeparator ·)).reverse)
  else none

/-- The table of a predicate. If there is none for the whole identifier, its local name is tried. -/
def table? (s : Schema) (predicate : String) : Option Table :=
  s.lookup? predicate <|> (localName? predicate).bind s.lookup?

/-! ## Mapping files -/

/-- A record names a table and its columns. Empty fields do not count. -/
def declareRecord (fields : List String) : Change :=
  match fields.filter (· ≠ "") with
  | [] => pure ()
  | [name] => throw (.missingColumns name)
  | name :: columns => declareTable ⟨name, columns⟩

/-- Declares the tables of a mapping file, record by record. -/
def ofCsv (bytes : Csv.Bytes) (reader : Csv.Reader := Csv.records) : Except Error Schema :=
  changed {} <| (reader bytes).forM fun record =>
    match Csv.decodeRecord? record with
    | some fields => declareRecord fields
    | none => throw .malformed

end Schema
end QueryCalculus
