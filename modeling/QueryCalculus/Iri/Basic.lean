import QueryCalculus.Iri.Address
import QueryCalculus.Text.Blank

/-!
# Absolute identifiers of resources

- `Iri.Error` : the first reason why a text is not an absolute identifier
- `Iri.Check` : tests for absolute identifiers, and what they report
- `Iri.check` : reads a text as scheme, authority, path, query and fragment

The reader goes from left to right and stops at the first character that does not fit.
-/

namespace QueryCalculus
namespace Iri

inductive Error
  | noScheme
  | codePoint (c : Char)
  | percentEncoding (digits : List Char)
  | hostCharacter (c : Char)
  | hostAddress
  | authorityCharacter (c : Char)
  deriving Repr

namespace Error

def addressMessage : String :=
  "invalid IPv6 address syntax"

def message : Error → String
  | .noScheme => "No scheme found in an absolute IRI"
  | .codePoint c => "Invalid IRI code point '" ++ String.singleton c ++ "'"
  | .percentEncoding digits =>
    "Invalid IRI percent encoding '%" ++ String.ofList digits ++ "'"
  | .hostCharacter c => "Invalid character '" ++ String.singleton c ++ "' in host"
  | .hostAddress => "Invalid host IP (" ++ addressMessage ++ ")"
  | .authorityCharacter c => "Invalid character '" ++ String.singleton c ++ "'"

end Error

abbrev Check := String → Except Error Unit

/-! ## Character classes -/

def isAsciiPlain (c : Char) : Bool :=
  c.isAlphanum || "!$&'()*+,-.;=_~".toList.contains c

/-- The characters beyond ASCII that every part may hold. -/
def wideRanges : List (Nat × Nat) :=
  [(0xA0, 0xD7FF), (0xF900, 0xFDCF), (0xFDF0, 0xFFEF), (0x10000, 0x1FFFD), (0x20000, 0x2FFFD),
    (0x30000, 0x3FFFD), (0x40000, 0x4FFFD), (0x50000, 0x5FFFD), (0x60000, 0x6FFFD),
    (0x70000, 0x7FFFD), (0x80000, 0x8FFFD), (0x90000, 0x9FFFD), (0xA0000, 0xAFFFD),
    (0xB0000, 0xBFFFD), (0xC0000, 0xCFFFD), (0xD0000, 0xDFFFD), (0xE1000, 0xEFFFD)]

/-- The private characters that only a query may hold. -/
def privateRanges : List (Nat × Nat) :=
  [(0xE000, 0xF8FF), (0xF0000, 0xFFFFD), (0x100000, 0x10FFFD)]

def isPlain (c : Char) : Bool :=
  isAsciiPlain c || Text.inRanges wideRanges c

def isPlainOr (others : List Char) (c : Char) : Bool :=
  isPlain c || others.contains c

def isSchemeChar (c : Char) : Bool :=
  c.isAlphanum || c == '+' || c == '-' || c == '.'

/-! ## Parts -/

/-- Reads allowed characters and percent encodings up to a character of `stop`, and returns the
text from there on. -/
def readPart (allowed : Char → Bool) (stop : List Char) : List Char → Except Error (List Char)
  | [] => .ok []
  | c :: chars =>
    if stop.contains c then .ok (c :: chars)
    else if allowed c then readPart allowed stop chars
    else if c = '%' then
      match chars with
      | a :: b :: rest =>
        if isHexDigit a && isHexDigit b then readPart allowed stop rest
        else .error (.percentEncoding [a, b])
      | digits => .error (.percentEncoding digits)
    else .error (.codePoint c)

def checkFragment (chars : List Char) : Except Error Unit := do
  let _ ← readPart (isPlainOr [':', '@', '/', '?']) [] chars

def checkQuery (chars : List Char) : Except Error Unit := do
  let allowed := fun c => isPlainOr [':', '@', '/', '?'] c || Text.inRanges privateRanges c
  match ← readPart allowed ['#'] chars with
  | _ :: fragment => checkFragment fragment
  | [] => return

/-- Checks a path and what follows it. -/
def checkPath (chars : List Char) : Except Error Unit := do
  match ← readPart (isPlainOr [':', '@', '/']) ['?', '#'] chars with
  | '?' :: query => checkQuery query
  | _ :: fragment => checkFragment fragment
  | [] => return

def checkPort : List Char → Except Error Unit
  | [] => .ok ()
  | c :: chars =>
    if c.isDigit then checkPort chars
    else if ['/', '?', '#'].contains c then checkPath (c :: chars)
    else .error (.authorityCharacter c)

/-- An address of a future version: hexadecimal digits, a dot and any plain text. -/
def checkFutureAddress (chars : List Char) : Except Error Unit :=
  match chars.dropWhile isHexDigit with
  | [] => .error (.hostCharacter ']')
  | '.' :: text =>
    if (chars.takeWhile isHexDigit).isEmpty then .error (.hostCharacter (text.headD ']'))
    else if text.isEmpty then .error (.hostCharacter ']')
    else
      match text.find? fun c => !(isAsciiPlain c || c == ':') with
      | some c => .error (.hostCharacter c)
      | none => .ok ()
  | c :: _ => .error (.hostCharacter c)

/-- The address between brackets. -/
def checkAddress : List Char → Except Error Unit
  | 'v' :: chars => checkFutureAddress chars
  | 'V' :: chars => checkFutureAddress chars
  | chars => if isIpv6 chars then .ok () else .error .hostAddress

/-- Checks what follows the bracket that closes an address. -/
def checkBehindAddress : List Char → Except Error Unit
  | [] => .ok ()
  | ':' :: number => checkPort number
  | c :: chars =>
    if ['/', '?', '#'].contains c then checkPath (c :: chars) else .error (.hostCharacter c)

def checkHost : List Char → Except Error Unit
  | '[' :: chars =>
    match chars.dropWhile (· ≠ ']') with
    | [] => .error (.hostCharacter '[')
    | _ :: rest => do
      checkAddress (chars.takeWhile (· ≠ ']'))
      checkBehindAddress rest
  | chars => do
    match ← readPart isPlain [':', '/', '?', '#'] chars with
    | ':' :: number => checkPort number
    | rest => checkPath rest

/-- Checks what follows two slashes. A part that ends at an at sign is user information. -/
def checkAuthority (chars : List Char) : Except Error Unit := do
  match ← readPart (isPlainOr [':']) ['@', '[', '/', '?', '#'] chars with
  | '@' :: host => checkHost host
  | _ => checkHost chars

def checkBehindScheme : List Char → Except Error Unit
  | '/' :: '/' :: authority => checkAuthority authority
  | chars => checkPath chars

/-- Checks a reference without scheme, whose first part holds no colon. -/
def checkRelative : List Char → Except Error Unit
  | '/' :: chars => checkBehindScheme ('/' :: chars)
  | chars => do checkPath (← readPart (isPlainOr ['@']) ['/', '?', '#'] chars)

/-- The text behind the scheme and its colon. -/
def behindScheme? : List Char → Option (List Char)
  | [] => none
  | c :: chars =>
    if c.isAlpha then
      match chars.dropWhile isSchemeChar with
      | ':' :: rest => some rest
      | _ => none
    else none

/-- Checks that a text is an absolute identifier. A faulty reference without scheme is refused for
its own fault first. -/
def check (text : String) : Except Error Unit :=
  match text.toList with
  | ':' :: _ => .error .noScheme
  | chars =>
    match behindScheme? chars with
    | some rest => checkBehindScheme rest
    | none => do
      checkRelative chars
      throw .noScheme

end Iri
end QueryCalculus
