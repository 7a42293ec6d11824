/-!
# Tokens of queries

- `Token` : the words and marks queries are written with
- `Lexeme` : a token with the text it was read from and the place of this text
- `LexicalError` : a place where no token starts
- `lexemes` : the tokens of a text, each the longest that starts at its place

Places are byte offsets in the encoded text. Blanks separate tokens and mean nothing else.
-/

namespace QueryCalculus
namespace Datalog

inductive Token
  | openParen
  | closeParen
  | comma
  | dot
  | implies
  | equal
  | different
  | identifier (name : String)
  | iri (text : String)
  | integer (digits : String)
  | decimal (digits : String)
  | string (value : String)
  deriving DecidableEq, Repr

structure Lexeme where
  token : Token
  text : List Char
  start : Nat
  deriving DecidableEq, Repr

structure LexicalError where
  position : Nat
  text : List Char
  deriving DecidableEq, Repr

/-- The number of bytes that encode the characters. -/
def byteLength (chars : List Char) : Nat :=
  chars.foldr (fun c length => c.utf8Size + length) 0

/-! ## Character classes -/

def isSeparator (c : Char) : Bool :=
  c == ' ' || c == '\t' || c == '\r' || c == '\n' || c == '\x0c'

def isWordStart (c : Char) : Bool :=
  c.isAlpha || c == '_'

def isWordChar (c : Char) : Bool :=
  c.isAlphanum || c == '_'

/-- The characters of the local part of a name with a colon. -/
def isLocalChar (c : Char) : Bool :=
  isWordChar c || c == '#' || c == '/' || c == '-'

/-- The characters between the brackets of an identifier of a resource. -/
def isIriChar (c : Char) : Bool :=
  0x20 < c.toNat && !"<>\"\x7b\x7d|^`\\".toList.contains c

/-! ## One token -/

/-- A token with the characters behind the first one that belong to it. -/
structure Scanned where
  token : Token
  tail : List Char

def scanWord (c : Char) (chars : List Char) : Scanned :=
  let word := chars.takeWhile isWordChar
  let tail := match chars.dropWhile isWordChar with
    | ':' :: rest => word ++ ':' :: rest.takeWhile isLocalChar
    | _ => word
  ⟨.identifier (String.ofList (c :: tail)), tail⟩

def scanNumber (c : Char) (chars : List Char) : Scanned :=
  let digits := chars.takeWhile Char.isDigit
  let whole : Scanned := ⟨.integer (String.ofList (c :: digits)), digits⟩
  match chars.dropWhile Char.isDigit with
  | '.' :: rest =>
    let fraction := rest.takeWhile Char.isDigit
    if fraction.isEmpty then whole
    else
      let tail := digits ++ '.' :: fraction
      ⟨.decimal (String.ofList (c :: tail)), tail⟩
  | _ => whole

/-- The characters of a string up to the place where it ends or cannot go on, and the text from
there on. A backslash goes with the character behind it, which is no line break. -/
def stringItems (quote : Char) : List Char → List Char × List Char
  | [] => ([], [])
  | '\\' :: c :: chars =>
    if c = '\n' then ([], '\\' :: c :: chars)
    else
      let (items, rest) := stringItems quote chars
      ('\\' :: c :: items, rest)
  | c :: chars =>
    if c = quote ∨ c = '\\' then ([], c :: chars)
    else
      let (items, rest) := stringItems quote chars
      (c :: items, rest)

/-- Resolves the escapes of a string. -/
def unescape : List Char → List Char
  | '\\' :: 'n' :: chars => '\n' :: unescape chars
  | '\\' :: 't' :: chars => '\t' :: unescape chars
  | '\\' :: 'r' :: chars => '\r' :: unescape chars
  | '\\' :: c :: chars => c :: unescape chars
  | c :: chars => c :: unescape chars
  | [] => []

/-- Reads the token that starts with `c`, or returns the text that is no token. -/
def scan (c : Char) (chars : List Char) : Except (List Char) Scanned :=
  match c, chars with
  | '(', _ => .ok ⟨.openParen, []⟩
  | ')', _ => .ok ⟨.closeParen, []⟩
  | ',', _ => .ok ⟨.comma, []⟩
  | '.', _ => .ok ⟨.dot, []⟩
  | '=', _ => .ok ⟨.equal, []⟩
  | ':', '-' :: _ => .ok ⟨.implies, ['-']⟩
  | '!', '=' :: _ => .ok ⟨.different, ['=']⟩
  | '\\', '=' :: _ => .ok ⟨.different, ['=']⟩
  | '<', _ =>
    let text := chars.takeWhile isIriChar
    match chars.dropWhile isIriChar with
    | '>' :: _ => .ok ⟨.iri (String.ofList text), text ++ ['>']⟩
    | _ => .error (c :: text)
  | _, _ =>
    if isWordStart c then .ok (scanWord c chars)
    else if c.isDigit then .ok (scanNumber c chars)
    else if c = '+' ∨ c = '-' then
      let digits := chars.takeWhile Char.isDigit
      if digits.isEmpty then .error [c]
      else .ok ⟨.integer (String.ofList (c :: digits)), digits⟩
    else if c = '"' ∨ c = '\'' then
      match stringItems c chars with
      | (items, q :: _) =>
        if q = c then .ok ⟨.string (String.ofList (unescape items)), items ++ [q]⟩
        else .error (c :: items)
      | (items, []) => .error (c :: items)
    else .error [c]

/-! ## All tokens -/

/-- The tokens of a text that starts at the given place. -/
def lexemes (position : Nat) : List Char → Except LexicalError (List Lexeme)
  | [] => .ok []
  | c :: chars =>
    if isSeparator c then lexemes (position + c.utf8Size) chars
    else
      match scan c chars with
      | .error text => .error ⟨position, text⟩
      | .ok scanned => do
        let text := c :: scanned.tail
        let rest ← lexemes (position + byteLength text) (chars.drop scanned.tail.length)
        return ⟨scanned.token, text, position⟩ :: rest
termination_by chars => chars.length
decreasing_by
  · simp
  · simp only [List.length_drop, List.length_cons]
    omega

end Datalog
end QueryCalculus
