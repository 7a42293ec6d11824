/-!
# Internet addresses

- `readOctets?` : an address of four decimal octets at the start of a text
- `isIpv6` : the texts that are addresses of eight groups, where one run of zero groups may be
  written as two colons and the last two groups as four octets

Each reader returns the text that is left behind what it has read.
-/

namespace QueryCalculus
namespace Iri

def isHexDigit (c : Char) : Bool :=
  c.isDigit || 'a' ≤ c && c ≤ 'f' || 'A' ≤ c && c ≤ 'F'

/-- The value of decimal digits. -/
def decimalValue (digits : List Char) : Nat :=
  digits.foldl (fun value c => 10 * value + (c.toNat - '0'.toNat)) 0

/-- An octet has at most three digits, no leading zero, and is at most 255. -/
def isOctet (digits : List Char) : Bool :=
  0 < digits.length && digits.length ≤ 3 && decimalValue digits ≤ 255 &&
    !(digits.head? == some '0' && 1 < digits.length)

def readOctet? (chars : List Char) : Option (List Char) :=
  if isOctet (chars.takeWhile Char.isDigit) then some (chars.dropWhile Char.isDigit) else none

/-- Reads the given number of octets, each behind a dot. -/
def readDottedOctets? : Nat → List Char → Option (List Char)
  | 0, chars => some chars
  | count + 1, '.' :: chars => do readDottedOctets? count (← readOctet? chars)
  | _ + 1, _ => none

def readOctets? (chars : List Char) : Option (List Char) := do
  readDottedOctets? 3 (← readOctet? chars)

/-- A group has one to four hexadecimal digits. -/
def readGroup? (chars : List Char) : Option (List Char) :=
  let digits := (chars.takeWhile isHexDigit).length
  if 0 < digits && digits ≤ 4 then some (chars.dropWhile isHexDigit) else none

/-- What a run of groups has been read as: how many groups, whether the last two of them were
given as octets, and the text behind them. -/
structure Groups where
  count : Nat
  octets : Bool
  rest : List Char

/-- Removes the colon in front of every group but the first. -/
def behindColon? (first : Bool) : List Char → Option (List Char)
  | ':' :: chars => if first then some (':' :: chars) else some chars
  | chars => if first then some chars else none

/-- Reads up to `limit` groups separated by colons. -/
def readGroups : Nat → Bool → List Char → Groups
  | 0, _, chars => ⟨0, false, chars⟩
  | limit + 1, first, chars =>
    match behindColon? first chars with
    | none => ⟨0, false, chars⟩
    | some group =>
      match (if 0 < limit then readOctets? group else none) with
      | some rest => ⟨2, true, rest⟩
      | none =>
        match readGroup? group with
        | none => ⟨0, false, chars⟩
        | some rest =>
          let more := readGroups limit false rest
          { more with count := more.count + 1 }

/-- Eight groups, or fewer groups around two colons. Octets stand at the end only. -/
def isIpv6 (chars : List Char) : Bool :=
  let front := readGroups 8 true chars
  if front.count = 8 then front.rest.isEmpty
  else if front.octets then false
  else
    match front.rest with
    | ':' :: ':' :: back => (readGroups (7 - front.count) true back).rest.isEmpty
    | _ => false

end Iri
end QueryCalculus
