import QueryCalculus.Text.Blank

/-!
# Comma separated values

- `Csv.Reader` : divides a file into records and fields, all of them as bytes
- `Csv.records` : the records of a file
- `Csv.decodeRecord?` : the fields of a record as trimmed text

A record ends at a line break, and its fields are separated by commas. A field in quotes may hold
commas and line breaks, and two quotes in it stand for one. A line that starts with `#` is a
comment. There is no header, and records may have different numbers of fields.
-/

namespace QueryCalculus
namespace Csv

abbrev Bytes := List UInt8

abbrev Reader := Bytes → List (List Bytes)

/-- The encoded byte order mark, which may stand at the start of a file. -/
def byteOrderMark : Bytes := [0xEF, 0xBB, 0xBF]

def comma : UInt8 := 0x2C
def quote : UInt8 := 0x22
def hash : UInt8 := 0x23
def lineFeed : UInt8 := 0x0A
def carriageReturn : UInt8 := 0x0D

def endsLine (byte : UInt8) : Bool :=
  byte == lineFeed || byte == carriageReturn

/-- What the bytes read last belong to. In `closing` the last byte was a quote in a quoted field,
which ends the field unless a second quote follows. -/
inductive Place
  | betweenRecords
  | comment
  | fieldStart
  | plain
  | quoted
  | closing
  deriving DecidableEq, Repr

/-- The fields of the current record and the bytes of the current field, both read so far. -/
structure Draft where
  fields : List Bytes := []
  field : Bytes := []

namespace Draft

def add (p : Draft) (byte : UInt8) : Draft :=
  { p with field := p.field ++ [byte] }

def endField (p : Draft) : Draft :=
  { fields := p.fields ++ [p.field] }

/-- The fields if the record ends here. -/
def record (p : Draft) : List Bytes :=
  p.fields ++ [p.field]

end Draft

/-- Reads a byte outside of quotes, where commas and line breaks divide the text. -/
def stepPlain (p : Draft) (byte : UInt8) : Option (Place × Draft) :=
  if byte == comma then some (.fieldStart, p.endField)
  else if endsLine byte then none
  else some (.plain, p.add byte)

/-- Reads the first byte of a field. -/
def stepFieldStart (p : Draft) (byte : UInt8) : Option (Place × Draft) :=
  if byte == quote then some (.quoted, p) else stepPlain p byte

/-- Reads one byte. The result is `none` if the byte ends the record. -/
def step (place : Place) (p : Draft) (byte : UInt8) : Option (Place × Draft) :=
  match place with
  | .betweenRecords =>
    if endsLine byte then some (.betweenRecords, p)
    else if byte == hash then some (.comment, p)
    else stepFieldStart p byte
  | .comment => some (if byte == lineFeed then .betweenRecords else .comment, p)
  | .fieldStart => stepFieldStart p byte
  | .plain => stepPlain p byte
  | .quoted => if byte == quote then some (.closing, p) else some (.quoted, p.add byte)
  | .closing => if byte == quote then some (.quoted, p.add byte) else stepPlain p byte

def read (place : Place) (p : Draft) : Bytes → List (List Bytes)
  | [] =>
    -- a record that has begun ends with the input, even inside of quotes
    if place = .betweenRecords ∨ place = .comment then [] else [p.record]
  | byte :: bytes =>
    match step place p byte with
    | some (place, p) => read place p bytes
    | none => p.record :: read .betweenRecords {} bytes

def records (bytes : Bytes) : List (List Bytes) :=
  read .betweenRecords {}
    (if byteOrderMark.isPrefixOf bytes then bytes.drop byteOrderMark.length else bytes)

/-- The text that bytes encode, if they encode any. -/
def decode? (bytes : Bytes) : Option String :=
  String.fromUTF8? ⟨bytes.toArray⟩

/-- The fields of a record without the blanks around them, if all of them encode a text. -/
def decodeRecord? (fields : List Bytes) : Option (List String) :=
  fields.mapM fun field => (decode? field).map Text.trim

end Csv
end QueryCalculus
