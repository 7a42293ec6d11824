import QueryCalculus.Sql.Keyword
import QueryCalculus.Text.LowerCase
import QueryCalculus.Text.Words

/-!
# Fresh variable names

- `Alphabet` : a non-empty ascending list of non-empty symbols
- `Alphabet.isTaken` : the names a fresh variable must not have
- `Alphabet.fresh` : the first free word, by number of symbols and then in code point order

The search is bounded: a word of more symbols than any forbidden word has characters is free.
-/

namespace QueryCalculus

structure Alphabet where
  symbols : List String
  nonempty : symbols ≠ []
  spelled : ∀ symbol ∈ symbols, symbol ≠ ""
  ascending : symbols.Pairwise (· < ·)

namespace Alphabet

inductive Error
  | noSymbols
  deriving DecidableEq, Repr

def Error.message : Error → String
  | .noSymbols => "A variable alphabet cannot be empty."

/-- The alphabet of the listed symbols. Empty symbols are ignored. -/
def ofSymbols (listed : List String) : Except Error Alphabet :=
  let symbols := Text.sortedWords (listed.filter (· ≠ ""))
  if h : symbols = [] then
    .error .noSymbols
  else
    .ok ⟨symbols, h, by
      intro symbol hs
      have listed := Text.mem_sortedWords.1 hs
      simp_all, Text.pairwise_sortedWords _⟩

/-- The lower case letters, except those that usually name variables already. -/
def latin : Alphabet where
  symbols := ["a", "b", "c", "d", "e", "f", "g", "h", "i", "j", "k", "l", "m", "n", "o", "p", "q",
    "r", "s", "t", "u", "v", "z"]
  nonempty := by simp
  spelled := by simp
  ascending := by decide

instance : Inhabited Alphabet := ⟨latin⟩

/-- A word is taken if it is one of the reserved names, given in lower case, or a word of SQL. -/
def isTaken (reserved : List String) (word : String) : Bool :=
  reserved.contains (Text.lower word) || Sql.isKeyword word

/-- The words one symbol longer than the given ones. -/
def lengthen (a : Alphabet) (words : List String) : List String :=
  Text.sortedWords (words.flatMap fun word => a.symbols.map (word ++ ·))

/-- The first word that is not taken among `words`, then among their extensions by up to `rounds`
symbols. When no round is left the first word of the last round is returned. -/
def firstFree (a : Alphabet) (taken : String → Bool) : Nat → List String → String
  | 0, words => words.headD ""
  | rounds + 1, words =>
    match words.find? (!taken ·) with
    | some word => word
    | none => firstFree a taken rounds (a.lengthen words)

/-- The length of the longest word that may be taken. -/
def longestTaken (reserved : List String) : Nat :=
  (reserved ++ Sql.keywords).foldl (fun longest word => max longest word.length) 0

/-- The first name that is neither reserved, ignoring case, nor a word of SQL. -/
def fresh (a : Alphabet) (reserved : List String) : String :=
  -- lowered once, since every word of a round is looked up
  let lowered := reserved.map Text.lower
  a.firstFree (isTaken lowered) (longestTaken lowered) a.symbols

end Alphabet
end QueryCalculus
