/-!
# Datatypes of literal values

- `Datatype` : the datatypes a literal can have
- `Datatype.iri`, `Datatype.ofIri?` : their identifiers, in full or with the prefix `xsd:`
-/

namespace QueryCalculus

inductive Datatype
  | boolean
  | dateTime
  | decimal
  | float
  | integer
  | int
  | string
  deriving DecidableEq, Repr

namespace Datatype

def all : List Datatype :=
  [.boolean, .dateTime, .decimal, .float, .integer, .int, .string]

def name : Datatype → String
  | .boolean => "boolean"
  | .dateTime => "dateTime"
  | .decimal => "decimal"
  | .float => "float"
  | .integer => "integer"
  | .int => "int"
  | .string => "string"

def iri (d : Datatype) : String :=
  "http://www.w3.org/2001/XMLSchema#" ++ d.name

def ofIri? (iri : String) : Option Datatype :=
  all.find? fun d => iri == d.iri || iri == "xsd:" ++ d.name

def isNumeric : Datatype → Bool
  | .decimal | .float | .integer | .int => true
  | .boolean | .dateTime | .string => false

end Datatype
end QueryCalculus
