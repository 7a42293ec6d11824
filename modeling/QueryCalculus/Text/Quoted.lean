import QueryCalculus.Text.Expand
import QueryCalculus.Text.Printable

/-!
# Quoted text in messages

- `quoted` : a text between double quotes in which every character that is not printable is escaped

A message shows the offending part of an input in this form, so that invisible characters can be
seen.
-/

namespace QueryCalculus
namespace Text

/-- The hexadecimal digits of a number in lower case, without leading zeros. -/
def hexDigits (n : Nat) : List Char :=
  Nat.toDigits 16 n

def spellQuoted (c : Char) : List Char :=
  match c with
  | '"' => ['\\', '"']
  | '\\' => ['\\', '\\']
  | '\n' => ['\\', 'n']
  | '\r' => ['\\', 'r']
  | '\t' => ['\\', 't']
  | '\x00' => ['\\', '0']
  | c => if isPrintable c then [c] else ['\\', 'u', '\x7b'] ++ hexDigits c.toNat ++ ['\x7d']

def quoted (text : String) : String :=
  "\"" ++ expand spellQuoted text ++ "\""

end Text
end QueryCalculus
