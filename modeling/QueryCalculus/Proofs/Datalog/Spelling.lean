import Mathlib.Data.List.TakeWhile
import QueryCalculus.Datalog.Token
import QueryCalculus.Proofs.Characters

/-!
# How tokens are spelled

- `Spells` : the texts that are read as identifiers and numbers
- `scan_spelled` : such a text is read as one token in front of a delimiter
- `spells_of_lexemes` : every identifier and number that was read is spelled this way
- `Lexes`, `Writes` : the tokens of a text, also in front of more text
-/

namespace QueryCalculus
namespace Datalog

/-! ## Spellings -/

/-- The texts of identifiers and numbers. An identifier may have one colon, behind which other
characters are allowed than in front of it, and a sign rules out a fraction. -/
inductive Spells : List Char → Token → Prop
  | word {c : Char} {word : List Char} : isWordStart c = true → (∀ d ∈ word, isWordChar d = true) →
      Spells (c :: word) (.identifier (String.ofList (c :: word)))
  | qualified {c : Char} {word rest : List Char} : isWordStart c = true →
      (∀ d ∈ word, isWordChar d = true) → (∀ d ∈ rest, isLocalChar d = true) →
      Spells (c :: (word ++ ':' :: rest)) (.identifier (String.ofList (c :: (word ++ ':' :: rest))))
  | integer {c : Char} {digits : List Char} : c.isDigit = true → (∀ d ∈ digits, d.isDigit = true) →
      Spells (c :: digits) (.integer (String.ofList (c :: digits)))
  | signed {c : Char} {digits : List Char} : c = '+' ∨ c = '-' → digits ≠ [] →
      (∀ d ∈ digits, d.isDigit = true) →
      Spells (c :: digits) (.integer (String.ofList (c :: digits)))
  | decimal {c : Char} {digits fraction : List Char} : c.isDigit = true →
      (∀ d ∈ digits, d.isDigit = true) → fraction ≠ [] → (∀ d ∈ fraction, d.isDigit = true) →
      Spells (c :: (digits ++ '.' :: fraction))
        (.decimal (String.ofList (c :: (digits ++ '.' :: fraction))))

/-- No character that could belong to a word or a number comes next. -/
def Delimited (rest : List Char) : Prop :=
  ∀ c ∈ rest.head?, c = ' ' ∨ c = ',' ∨ c = '(' ∨ c = ')'

/-- The text of a token that stands for itself. -/
def Token.word? : Token → Option String
  | .identifier text | .integer text | .decimal text => some text
  | _ => none

/-- The tokens that are written between brackets or quotes. -/
def Token.isQuoted : Token → Bool
  | .iri _ | .string _ => true
  | _ => false

/-! ## Reading what is spelled -/

/-- The classes of characters that end at every delimiter. -/
def StopsAtDelimiters (p : Char → Bool) : Prop :=
  p ' ' = false ∧ p ',' = false ∧ p '(' = false ∧ p ')' = false

theorem span_delimited {p : Char → Bool} (stops : StopsAtDelimiters p) {word rest : List Char}
    (hword : ∀ d ∈ word, p d = true) (ends : Delimited rest) :
    (word ++ rest).takeWhile p = word ∧ (word ++ rest).dropWhile p = rest := by
  rw [List.takeWhile_append_of_pos hword, List.dropWhile_append_of_pos hword]
  cases rest with
  | nil => simp
  | cons c rest =>
    have outside : p c = false := by
      rcases ends c rfl with rfl | rfl | rfl | rfl
      · exact stops.1
      · exact stops.2.1
      · exact stops.2.2.1
      · exact stops.2.2.2
    simp [outside]

theorem isWordStart_of_isDigit {c : Char} (digit : c.isDigit = true) : isWordStart c = false := by
  refine Bool.or_eq_false_iff.2 ⟨isAlpha_of_isDigit digit, beq_eq_false_iff_ne.2 ?_⟩
  rintro rfl
  exact absurd digit (by decide)

theorem scan_word {c : Char} (start : isWordStart c = true) (chars : List Char) :
    scan c chars = .ok (scanWord c chars) := by
  unfold scan
  split
  case h_10 => rw [if_pos start]
  all_goals exact absurd start (by decide)

theorem scan_digit {c : Char} (start : c.isDigit = true) (chars : List Char) :
    scan c chars = .ok (scanNumber c chars) := by
  unfold scan
  split
  case h_10 => rw [isWordStart_of_isDigit start, if_neg Bool.false_ne_true, if_pos start]
  all_goals exact absurd start (by decide)

theorem scan_sign {c : Char} (sign : c = '+' ∨ c = '-') (chars : List Char) :
    scan c chars = if (chars.takeWhile Char.isDigit).isEmpty then .error [c]
      else .ok ⟨.integer (String.ofList (c :: chars.takeWhile Char.isDigit)),
        chars.takeWhile Char.isDigit⟩ := by
  rcases sign with rfl | rfl
  · simp [scan, isWordStart]
  · simp [scan, isWordStart]

/-! No character class reaches over a delimiter, so a text is read as a whole in front of one. -/

theorem scanWord_plain {c : Char} {word rest : List Char} (hword : ∀ d ∈ word, isWordChar d = true)
    (ends : Delimited rest) :
    scanWord c (word ++ rest) = ⟨.identifier (String.ofList (c :: word)), word⟩ := by
  have ⟨taken, left⟩ := span_delimited (p := isWordChar) ⟨rfl, rfl, rfl, rfl⟩ hword ends
  -- The branch for names with a colon is closed.
  have noColon : ∀ chars, rest ≠ ':' :: chars := by
    rintro chars rfl
    exact absurd (ends ':' rfl) (by decide)
  simp only [scanWord, taken, left]

theorem scanWord_qualified {c : Char} {word name rest : List Char}
    (hword : ∀ d ∈ word, isWordChar d = true) (hname : ∀ d ∈ name, isLocalChar d = true)
    (ends : Delimited rest) :
    scanWord c (word ++ ':' :: (name ++ rest)) =
      ⟨.identifier (String.ofList (c :: (word ++ ':' :: name))), word ++ ':' :: name⟩ := by
  have colon : isWordChar ':' = false := by decide
  have taken := (span_delimited (p := isLocalChar) ⟨rfl, rfl, rfl, rfl⟩ hname ends).1
  simp only [scanWord, List.takeWhile_append_of_pos hword, List.dropWhile_append_of_pos hword]
  simp [colon, taken]

theorem scanNumber_integer {c : Char} {digits rest : List Char}
    (hdigits : ∀ d ∈ digits, d.isDigit = true) (ends : Delimited rest) :
    scanNumber c (digits ++ rest) = ⟨.integer (String.ofList (c :: digits)), digits⟩ := by
  have ⟨taken, left⟩ := span_delimited (p := Char.isDigit) ⟨rfl, rfl, rfl, rfl⟩ hdigits ends
  -- And so is the one for fractions, which a dot opens.
  have noDot : ∀ chars, rest ≠ '.' :: chars := by
    rintro chars rfl
    exact absurd (ends '.' rfl) (by decide)
  simp only [scanNumber, taken, left]

theorem scanNumber_decimal {c : Char} {digits fraction rest : List Char}
    (hdigits : ∀ d ∈ digits, d.isDigit = true) (nonempty : fraction ≠ [])
    (hfraction : ∀ d ∈ fraction, d.isDigit = true) (ends : Delimited rest) :
    scanNumber c (digits ++ '.' :: (fraction ++ rest)) =
      ⟨.decimal (String.ofList (c :: (digits ++ '.' :: fraction))), digits ++ '.' :: fraction⟩ := by
  have dot : Char.isDigit '.' = false := by decide
  have taken := (span_delimited (p := Char.isDigit) ⟨rfl, rfl, rfl, rfl⟩ hfraction ends).1
  simp only [scanNumber, List.takeWhile_append_of_pos hdigits, List.dropWhile_append_of_pos hdigits]
  simp [dot, taken, nonempty]

theorem scan_spelled {c : Char} {tail : List Char} {t : Token} (spelled : Spells (c :: tail) t)
    {rest : List Char} (ends : Delimited rest) : scan c (tail ++ rest) = .ok ⟨t, tail⟩ := by
  cases spelled with
  | word start hword => rw [scan_word start, scanWord_plain hword ends]
  | qualified start hword hname =>
    rw [List.append_assoc, List.cons_append, scan_word start, scanWord_qualified hword hname ends]
  | integer start hdigits => rw [scan_digit start, scanNumber_integer hdigits ends]
  | signed sign nonempty hdigits =>
    have taken := (span_delimited (p := Char.isDigit) ⟨rfl, rfl, rfl, rfl⟩ hdigits ends).1
    rw [scan_sign sign, taken]
    simp [nonempty]
  | decimal start hdigits nonempty hfraction =>
    rw [List.append_assoc, List.cons_append, scan_digit start,
      scanNumber_decimal hdigits nonempty hfraction ends]

/-! ## What was read is spelled -/

theorem spells_scanWord {c : Char} (start : isWordStart c = true) (chars : List Char) :
    Spells (c :: (scanWord c chars).tail) (scanWord c chars).token := by
  unfold scanWord
  split
  · exact .qualified start (fun _ => List.mem_takeWhile_imp) fun _ => List.mem_takeWhile_imp
  · exact .word start fun _ => List.mem_takeWhile_imp

theorem spells_scanNumber {c : Char} (start : c.isDigit = true) (chars : List Char) :
    Spells (c :: (scanNumber c chars).tail) (scanNumber c chars).token := by
  unfold scanNumber
  dsimp only
  split
  · split
    · exact .integer start fun _ => List.mem_takeWhile_imp
    · rename_i nonempty
      exact .decimal start (fun _ => List.mem_takeWhile_imp) (by simpa using nonempty)
        fun _ => List.mem_takeWhile_imp
  · exact .integer start fun _ => List.mem_takeWhile_imp

/-- Marks, brackets and strings start with characters of their own. -/
theorem word?_of_scan {c : Char} {chars : List Char} {scanned : Scanned}
    (letter : isWordStart c = false) (digit : c.isDigit = false) (sign : ¬ (c = '+' ∨ c = '-'))
    (read : scan c chars = .ok scanned) : scanned.token.word? = none := by
  unfold scan at read
  grind [Token.word?]

theorem spells_of_scan {c : Char} {chars : List Char} {scanned : Scanned}
    (read : scan c chars = .ok scanned) {text : String} (word : scanned.token.word? = some text) :
    Spells (c :: scanned.tail) scanned.token := by
  by_cases letter : isWordStart c = true
  · cases (scan_word letter chars).symm.trans read
    exact spells_scanWord letter chars
  · by_cases digit : c.isDigit = true
    · cases (scan_digit digit chars).symm.trans read
      exact spells_scanNumber digit chars
    · by_cases sign : c = '+' ∨ c = '-'
      · rw [scan_sign sign] at read
        split at read
        · cases read
        · rename_i nonempty
          cases read
          exact .signed sign (by simpa using nonempty) fun _ => List.mem_takeWhile_imp
      · have other := word?_of_scan (by simpa using letter) (by simpa using digit) sign read
        cases other.symm.trans word

theorem Spells.word?_eq {chars : List Char} {t : Token} (spelled : Spells chars t) :
    t.word? = some (String.ofList chars) := by
  cases spelled <;> rfl

theorem spells_of_lexemes {position : Nat} {chars : List Char} {tokens : List Lexeme}
    (read : lexemes position chars = .ok tokens) {l : Lexeme} (hl : l ∈ tokens) {text : String}
    (word : l.token.word? = some text) : Spells text.toList l.token := by
  fun_induction lexemes position chars generalizing tokens with
  | case1 position =>
    cases read
    cases hl
  | case2 position c chars blank ih => exact ih read hl
  | case3 position c chars visible text failed => cases read
  | case4 position c chars visible scanned found spelling =>
    rename_i ih
    cases later : lexemes (position + byteLength spelling) (chars.drop scanned.tail.length) with
    | error e =>
      rw [later] at read
      cases read
    | ok rest =>
      rw [later] at read
      cases read
      rcases List.mem_cons.1 hl with rfl | hl
      · -- the token that was read here, and not one of those behind it
        have spelled := spells_of_scan found word
        rw [Option.some.inj (word.symm.trans spelled.word?_eq), String.toList_ofList]
        exact spelled
      · exact ih later hl

/-! ## Texts and their tokens -/

/-- The text consists of these tokens, wherever it stands. -/
def Lexes (chars : List Char) (ts : List Token) : Prop :=
  ∀ position, ∃ tokens, lexemes position chars = .ok tokens ∧ tokens.map Lexeme.token = ts

theorem lexes_nil : Lexes [] [] :=
  fun position => ⟨[], by rw [lexemes], rfl⟩

theorem Lexes.blank {chars : List Char} {ts : List Token} (h : Lexes chars ts) {c : Char}
    (separates : isSeparator c = true) : Lexes (c :: chars) ts := by
  intro position
  rw [lexemes, if_pos separates]
  exact h _

theorem Lexes.scanned {chars : List Char} {ts : List Token} (h : Lexes chars ts) {c : Char}
    {tail : List Char} {t : Token} (visible : isSeparator c = false)
    (found : scan c (tail ++ chars) = .ok ⟨t, tail⟩) : Lexes (c :: (tail ++ chars)) (t :: ts) := by
  intro position
  rcases h (position + byteLength (c :: tail)) with ⟨tokens, read, rfl⟩
  refine ⟨⟨t, c :: tail, position⟩ :: tokens, ?_, rfl⟩
  rw [lexemes, visible, if_neg Bool.false_ne_true, found]
  simp only [List.drop_left, read]
  rfl

theorem Lexes.mark {chars : List Char} {ts : List Token} (h : Lexes chars ts) {c : Char} {t : Token}
    (visible : isSeparator c = false) (found : scan c chars = .ok ⟨t, []⟩) :
    Lexes (c :: chars) (t :: ts) :=
  h.scanned visible (show scan c ([] ++ chars) = .ok ⟨t, []⟩ from found)

/-- The text consists of these tokens in front of a delimiter. -/
def Writes (text : String) (ts : List Token) : Prop :=
  ∀ rest us, Delimited rest → Lexes rest us → Lexes (text.toList ++ rest) (ts ++ us)

theorem isSeparator_of_spells {c : Char} {tail : List Char} {t : Token}
    (spelled : Spells (c :: tail) t) : isSeparator c = false := by
  refine Bool.eq_false_iff.2 fun blank => ?_
  simp only [isSeparator, Bool.or_eq_true, beq_iff_eq] at blank
  have start : isWordStart c = false ∧ c.isDigit = false ∧ c ≠ '+' ∧ c ≠ '-' := by
    rcases blank with (((rfl | rfl) | rfl) | rfl) | rfl
    all_goals decide
  cases spelled <;> simp_all

theorem Spells.writes {text : String} {t : Token} (spelled : Spells text.toList t) :
    Writes text [t] := by
  intro rest us ends later
  cases chars : text.toList with
  | nil =>
    rw [chars] at spelled
    cases spelled
  | cons c tail =>
    rw [chars] at spelled
    exact later.scanned (isSeparator_of_spells spelled) (scan_spelled spelled ends)

theorem delimited_cons {c : Char} (h : c = ' ' ∨ c = ',' ∨ c = '(' ∨ c = ')') (rest : List Char) :
    Delimited (c :: rest) := by
  intro d hd
  cases hd
  exact h

namespace Writes

variable {x y name : String} {ts us : List Token} {t : Token}

theorem comma (hx : Writes x ts) (hy : Writes y us) :
    Writes (x ++ ", " ++ y) (ts ++ .comma :: us) := by
  intro rest vs ends lexed
  have later : Lexes (',' :: ' ' :: (y.toList ++ rest)) (.comma :: (us ++ vs)) :=
    ((hy rest vs ends lexed).blank rfl).mark rfl rfl
  simpa using hx _ _ (delimited_cons (by decide) _) later

theorem applied (hname : Writes name [t]) (hx : Writes x ts) :
    Writes (name ++ "(" ++ x ++ ")") (t :: .openParen :: (ts ++ [.closeParen])) := by
  intro rest vs _ lexed
  have closed : Lexes (')' :: rest) (.closeParen :: vs) := lexed.mark rfl rfl
  have opened : Lexes ('(' :: (x.toList ++ ')' :: rest))
      (.openParen :: (ts ++ .closeParen :: vs)) :=
    (hx _ _ (delimited_cons (by decide) _) closed).mark rfl rfl
  simpa using hname _ _ (delimited_cons (by decide) _) opened

end Writes

end Datalog
end QueryCalculus
