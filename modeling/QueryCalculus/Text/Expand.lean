/-!
# Character by character spelling

- `expand` : writes each character of a text as the characters a spelling gives for it
- `commaSeparated` : the list separator of every printed enumeration

Quoting, escaping and indentation all are expansions: no rule looks at more than one character.
-/

namespace QueryCalculus
namespace Text

/-- Writes each character of `text` as the characters `spell` gives for it. -/
def expand (spell : Char → List Char) (text : String) : String :=
  String.ofList (text.toList.flatMap spell)

/-- Joins the items of an enumeration. -/
def commaSeparated (items : List String) : String :=
  String.intercalate ", " items

end Text
end QueryCalculus
