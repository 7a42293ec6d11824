import QueryCalculus.Text.Ranges

/-!
# White space

- `isBlank` : the characters with the Unicode property `White_Space`
- `trim` : a text without the blanks at its two ends
-/

namespace QueryCalculus
namespace Text

/-- The inclusive code point ranges of the property `White_Space`. -/
def blankRanges : List (Nat × Nat) :=
  [(0x9, 0xD), (0x20, 0x20), (0x85, 0x85), (0xA0, 0xA0), (0x1680, 0x1680), (0x2000, 0x200A),
    (0x2028, 0x2029), (0x202F, 0x202F), (0x205F, 0x205F), (0x3000, 0x3000)]

def isBlank (c : Char) : Bool :=
  inRanges blankRanges c

/-- Drops the characters of the class at both ends. -/
def strip (drop : Char → Bool) (chars : List Char) : List Char :=
  ((chars.dropWhile drop).reverse.dropWhile drop).reverse

def trim (text : String) : String :=
  String.ofList (strip isBlank text.toList)

end Text
end QueryCalculus
