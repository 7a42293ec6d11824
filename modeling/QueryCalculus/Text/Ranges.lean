/-!
# Ranges of code points

- `inRanges` : membership in a class of characters that is given by ranges

All tables of characters follow version 17.0 of the Unicode Standard.
-/

namespace QueryCalculus
namespace Text

/-- Whether the code point of `c` lies in one of the inclusive ranges. -/
def inRanges (ranges : List (Nat × Nat)) (c : Char) : Bool :=
  ranges.any fun range => range.1 ≤ c.toNat && c.toNat ≤ range.2

end Text
end QueryCalculus
