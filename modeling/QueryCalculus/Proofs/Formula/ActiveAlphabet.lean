import QueryCalculus.Formula.Variables
import QueryCalculus.Proofs.Datalog.Grammar
import QueryCalculus.Proofs.Datalog.Spelling
import QueryCalculus.Proofs.FreshNames

/-!
# The alphabet of a formula

- `Formula.UsesChar` : the characters of the names, which are the symbols of the alphabet
- `Alphabet.forall_mem_fresh` : a fresh name has no other characters than the symbols
- `Formula.fresh_of_usesDigit` : the first fresh name is a digit as soon as some name has one

Digits come before letters, and no variable of a query starts with one.
-/

namespace QueryCalculus

/-! ## Characters -/

theorem Text.lowerAfter_ascii {c : Char} (ascii : c.toNat < 0x80) (before chars : List Char) :
    lowerAfter before (c :: chars) = c.toLower :: lowerAfter (c :: before) chars := by
  have plain : c ≠ capitalSigma := by
    rintro rfl
    exact absurd ascii (by decide)
  rw [lowerAfter, if_neg plain, lowerChar, if_pos ascii]
  rfl

/-! ## Names of variables -/

namespace Datalog

variable {name : String} {c d : Char}

theorem VariableName.isAlphanum (legal : VariableName name) (hc : c ∈ name.toList)
    (visible : c ≠ '_') : c.isAlphanum = true := by
  rcases legal with rfl | ⟨first, chars, rfl, letter, others⟩
  · exact absurd (List.mem_singleton.1 hc) visible
  · rw [String.toList_ofList] at hc
    rcases List.mem_cons.1 hc with rfl | hc
    · exact Bool.or_eq_true_iff.2 (.inl letter)
    · exact (others c hc).resolve_right visible

theorem toNat_lt_of_isWordStart (start : isWordStart c = true) : c.toNat < 0x80 := by
  rcases Bool.or_eq_true_iff.1 start with letter | underscore
  · have range := isAlpha_iff.1 letter
    omega
  · rw [beq_iff_eq.1 underscore]
    decide

theorem VariableName.exists_start (legal : VariableName name) :
    ∃ c chars, name.toList = c :: chars ∧ isWordStart c = true := by
  rcases legal with rfl | ⟨first, chars, rfl, letter, -⟩
  · exact ⟨'_', [], rfl, rfl⟩
  · exact ⟨first, chars, String.toList_ofList, Bool.or_eq_true_iff.2 (.inl letter)⟩

theorem variableName_of_letters (nonempty : name ≠ "")
    (letters : ∀ c ∈ name.toList, c.isAlpha = true) : VariableName name := by
  cases split : name.toList with
  | nil => exact absurd (String.toList_eq_nil_iff.1 split) nonempty
  | cons c chars =>
    rw [split] at letters
    refine .inr ⟨c, chars, ?_, letters c List.mem_cons_self, fun d hd => .inl ?_⟩
    · rw [← split, String.ofList_toList]
    · exact Bool.or_eq_true_iff.2 (.inl (letters d (List.mem_cons_of_mem c hd)))

theorem not_variableName_digit (digit : d.isDigit = true) :
    ¬ VariableName (String.singleton d) := by
  intro legal
  rcases legal.exists_start with ⟨c, chars, split, start⟩
  rw [String.toList_singleton] at split
  cases split
  rw [isWordStart_of_isDigit digit] at start
  cases start

/-- The lower case of a name does not start with a digit. -/
theorem VariableName.lower_ne (legal : VariableName name) (digit : d.isDigit = true) :
    Text.lower name ≠ Text.lower (String.singleton d) := by
  rcases legal.exists_start with ⟨c, chars, split, start⟩
  intro same
  have lists := String.ofList_injective same
  have small : d.toNat < 0x80 := Nat.lt_of_le_of_lt (isDigit_iff.1 digit).2 (by decide)
  rw [split, String.toList_singleton, Text.lowerAfter_ascii (toNat_lt_of_isWordStart start),
    Text.lowerAfter_ascii small] at lists
  have heads := congrArg Char.isDigit (List.cons.inj lists).1
  rw [isDigit_toLower, isDigit_toLower, digit] at heads
  rw [isWordStart_of_isDigit heads] at start
  cases start

end Datalog

/-! ## Symbols -/

namespace Alphabet

variable {a : Alphabet} {listed rest : List String} {symbol : String}

theorem mem_ofSymbols (made : ofSymbols listed = .ok a) :
    symbol ∈ a.symbols ↔ symbol ∈ listed ∧ symbol ≠ "" := by
  unfold ofSymbols at made
  dsimp only at made
  split at made
  · cases made
  · cases made
    rw [Text.mem_sortedWords, List.mem_filter, decide_eq_true_eq]

theorem eq_empty_of_ofSymbols {e : Error} (failed : ofSymbols listed = .error e)
    (hs : symbol ∈ listed) : symbol = "" := by
  unfold ofSymbols at failed
  dsimp only at failed
  split at failed
  · rename_i none
    by_contra visible
    have kept : symbol ∈ Text.sortedWords (listed.filter (· ≠ "")) :=
      Text.mem_sortedWords.2 (List.mem_filter.2 ⟨hs, decide_eq_true visible⟩)
    rw [none] at kept
    exact List.not_mem_nil kept
  · cases failed

theorem Spelled.forall_mem {p : Char → Prop} {n : Nat} {word : String}
    (symbols : ∀ symbol ∈ a.symbols, ∀ c ∈ symbol.toList, p c) (spelled : Spelled a n word) :
    ∀ c ∈ word.toList, p c := by
  induction spelled with
  | symbol hs => exact symbols _ hs
  | append _ hs ih =>
    intro c hc
    rw [String.toList_append] at hc
    exact (List.mem_append.1 hc).elim (ih c) (symbols _ hs c)

theorem forall_mem_fresh {p : Char → Prop}
    (symbols : ∀ symbol ∈ a.symbols, ∀ c ∈ symbol.toList, p c) (reserved : List String) :
    ∀ c ∈ (a.fresh reserved).toList, p c := by
  rcases (fresh_free a reserved).2 with ⟨n, spelled⟩
  exact spelled.forall_mem symbols

theorem fresh_ne_empty (a : Alphabet) (reserved : List String) : a.fresh reserved ≠ "" := by
  rcases (fresh_free a reserved).2 with ⟨n, spelled⟩
  intro empty
  have long := Nat.lt_of_lt_of_le spelled.pos spelled.le_length
  rw [empty] at long
  exact Nat.lt_irrefl 0 long

/-- The symbols are in ascending order, so a digit among them is not preceded by a letter. -/
theorem isDigit_head {c d : Char} (symbols : a.symbols = String.singleton d :: rest)
    (word : d.isAlphanum = true) (hc : String.singleton c ∈ a.symbols) (digit : c.isDigit = true) :
    d.isDigit = true := by
  have ascending := a.ascending
  rw [symbols] at hc ascending
  rcases List.mem_cons.1 hc with same | later
  · exact String.singleton_inj.1 same ▸ digit
  · have below : (String.singleton d).toList < (String.singleton c).toList :=
      (List.pairwise_cons.1 ascending).1 _ later
    rw [String.toList_singleton, String.toList_singleton, List.cons_lt_cons_iff] at below
    have order : d < c := below.resolve_right fun same => absurd same.2 (List.not_lt_nil [])
    exact isDigit_of_lt word order digit

end Alphabet

/-! ## The characters of the names -/

namespace Formula

variable {f : Formula} {c : Char}

/-- The character occurs in a name, and is not the one that the blank consists of. -/
def UsesChar (f : Formula) (c : Char) : Prop :=
  c ≠ '_' ∧ ∃ n ∈ f.names, c ∈ n.toList

def UsesDigit (f : Formula) : Prop :=
  ∃ n ∈ f.names, ∃ c ∈ n.toList, c.isDigit = true

instance (f : Formula) : Decidable f.UsesDigit :=
  decidable_of_iff ((f.names.any fun n => n.toList.any Char.isDigit) = true) (by
    simp only [UsesDigit, List.any_eq_true])

theorem mem_characters {symbol : String} :
    symbol ∈ ((f.names.flatMap (·.toList)).filter (· ≠ '_')).map String.singleton ↔
      ∃ c, f.UsesChar c ∧ symbol = String.singleton c := by
  simp only [List.mem_map, List.mem_filter, List.mem_flatMap, decide_eq_true_eq, UsesChar]
  constructor
  · rintro ⟨c, ⟨used, visible⟩, rfl⟩
    exact ⟨c, ⟨visible, used⟩, rfl⟩
  · rintro ⟨c, ⟨visible, used⟩, rfl⟩
    exact ⟨c, ⟨used, visible⟩, rfl⟩

/-- The symbols are the characters in use. Only if there are none the alphabet is the latin one. -/
theorem symbols_activeAlphabet (f : Formula) :
    (∀ symbol, symbol ∈ f.activeAlphabet.symbols ↔
      ∃ c, f.UsesChar c ∧ symbol = String.singleton c) ∨
    ((∀ c, ¬ f.UsesChar c) ∧ f.activeAlphabet = .latin) := by
  unfold activeAlphabet
  dsimp only
  split
  · rename_i alphabet made
    refine .inl fun symbol => ?_
    rw [Alphabet.mem_ofSymbols made, mem_characters]
    refine and_iff_left_of_imp ?_
    rintro ⟨c, -, rfl⟩
    exact String.singleton_ne_empty
  · rename_i e failed
    refine .inr ⟨fun c used => ?_, rfl⟩
    have empty := Alphabet.eq_empty_of_ofSymbols failed (mem_characters.2 ⟨c, used, rfl⟩)
    exact String.singleton_ne_empty empty

theorem forall_mem_activeAlphabet {p : Char → Prop} (letters : ∀ c, c.isAlpha = true → p c)
    (used : ∀ c, f.UsesChar c → p c) :
    ∀ symbol ∈ f.activeAlphabet.symbols, ∀ c ∈ symbol.toList, p c := by
  intro symbol hs c hc
  rcases symbols_activeAlphabet f with symbols | ⟨-, latin⟩
  · rcases (symbols symbol).1 hs with ⟨d, hd, rfl⟩
    rw [String.toList_singleton] at hc
    exact List.mem_singleton.1 hc ▸ used d hd
  · have spelled :
        (Alphabet.latin.symbols.all fun symbol => symbol.toList.all Char.isAlpha) = true := by
      decide +kernel
    rw [latin] at hs
    exact letters c (List.all_eq_true.1 (List.all_eq_true.1 spelled symbol hs) c hc)

section Legal

variable (legal : ∀ n ∈ f.names, Datalog.VariableName n)
include legal

theorem isAlphanum_of_usesChar (used : f.UsesChar c) : c.isAlphanum = true := by
  rcases used with ⟨visible, n, hn, hc⟩
  exact (legal n hn).isAlphanum hc visible

/-- A digit is the first symbol, and it is free since no name starts with a digit. -/
theorem fresh_of_usesDigit (digits : f.UsesDigit) :
    ∃ d, d.isDigit = true ∧ f.activeAlphabet.fresh f.names = String.singleton d := by
  rcases digits with ⟨n, hn, c, hc, digit⟩
  have used : f.UsesChar c := by
    refine ⟨?_, n, hn, hc⟩
    rintro rfl
    cases digit
  -- a character is in use, so the alphabet is not the latin one
  have symbols := (symbols_activeAlphabet f).resolve_right fun none => none.1 c used
  rcases List.exists_cons_of_ne_nil f.activeAlphabet.nonempty with ⟨symbol, rest, split⟩
  have first : symbol ∈ f.activeAlphabet.symbols := split ▸ List.mem_cons_self
  rcases (symbols symbol).1 first with ⟨d, hd, rfl⟩
  have leading : d.isDigit = true :=
    Alphabet.isDigit_head split (isAlphanum_of_usesChar legal hd)
      ((symbols _).2 ⟨c, used, rfl⟩) digit
  -- neither a name nor a word of SQL stands in the way
  have ascii : d.toNat < 0x80 :=
    Nat.lt_of_le_of_lt (isDigit_iff.1 leading).2 (by decide)
  refine ⟨d, leading, Alphabet.fresh_eq_head split ?_⟩
  refine Alphabet.isTaken_lower_eq_false_iff.2 ⟨fun name hname => ?_, Sql.isKeyword_singleton ascii⟩
  exact (legal name hname).lower_ne leading

end Legal

end Formula
end QueryCalculus
