import QueryCalculus.Alphabet
import QueryCalculus.Proofs.Characters
import QueryCalculus.Variable

/-!
# Fresh names

- `Alphabet.Spelled` : the words of a number of symbols
- `Alphabet.isTaken_of_long` : words that are longer than all taken ones are free
- `Alphabet.Search` : the search for a free word, with no bound on its rounds
- `Alphabet.Round` : what is searched in a round, all words of a number of symbols in ascending
  order
- `Alphabet.First` : where the search ends, at the least free word of the fewest symbols
- `Alphabet.search_fresh`, `Alphabet.first_fresh` : the search ends with the fresh name
- `Alphabet.fresh_eq_head` : the first symbol is the fresh name, if it is free
- `Alphabet.fresh_ne_blankName` : a fresh name is the blank only if the blank is a symbol
- `Alphabet.fresh_least_available` : what is known of a fresh name, said of the reserved names
-/

namespace QueryCalculus

/-! ## Words of one character -/

theorem Sql.isKeyword_singleton {c : Char} (ascii : c.toNat < 0x80) :
    isKeyword (String.singleton c) = false := by
  -- bytes are counted since that takes less time to evaluate than counting characters
  have longer : ∀ k ∈ keywords, k.utf8ByteSize ≠ 1 := by decide +kernel
  refine List.any_eq_false.2 fun k hk same => longer k hk ?_
  have lists : k.toList.map Char.toLower = (String.singleton c).toList.map Char.toLower := by
    simpa [Text.sameIgnoringAsciiCase] using same
  rw [String.toList_singleton, List.map_singleton, List.map_eq_singleton_iff] at lists
  rcases lists with ⟨d, split, lowered⟩
  have ascii' : d.toNat < 0x80 := by
    rwa [← toNat_toLower_lt_iff, lowered, toNat_toLower_lt_iff]
  have single : k = String.singleton d := by
    rw [← String.ofList_toList (s := k), split]
    rfl
  rw [single, String.utf8ByteSize_singleton]
  exact utf8Size_of_ascii ascii'

namespace Alphabet

/-! ## Words of an alphabet -/

/-- The words that consist of the given number of symbols, at least one. -/
inductive Spelled (a : Alphabet) : Nat → String → Prop
  | symbol {symbol : String} : symbol ∈ a.symbols → Spelled a 1 symbol
  | append {n : Nat} {word symbol : String} :
      Spelled a n word → symbol ∈ a.symbols → Spelled a (n + 1) (word ++ symbol)

variable {a : Alphabet} {reserved words : List String} {word symbol : String} {n : Nat}

theorem length_pos_of_mem (h : symbol ∈ a.symbols) : 0 < symbol.length := by
  apply Nat.pos_of_ne_zero
  intro empty
  exact a.spelled symbol h (String.length_eq_zero_iff.1 empty)

/-- Every symbol has at least one character. -/
theorem Spelled.le_length (h : Spelled a n word) : n ≤ word.length := by
  induction h with
  | symbol hs => exact length_pos_of_mem hs
  | append _ hs ih =>
    have longer := length_pos_of_mem hs
    rw [String.length_append]
    omega

theorem Spelled.pos (h : Spelled a n word) : 0 < n := by
  cases h <;> omega

theorem mem_lengthen :
    word ∈ a.lengthen words ↔ ∃ w ∈ words, ∃ symbol ∈ a.symbols, w ++ symbol = word := by
  rw [lengthen, Text.mem_sortedWords, List.mem_flatMap]
  simp only [List.mem_map]

theorem lengthen_ne_nil (h : words ≠ []) : a.lengthen words ≠ [] := by
  rcases List.exists_mem_of_ne_nil words h with ⟨w, hw⟩
  rcases List.exists_mem_of_ne_nil a.symbols a.nonempty with ⟨symbol, hs⟩
  exact List.ne_nil_of_mem (mem_lengthen.2 ⟨w, hw, symbol, hs, rfl⟩)

/-! ## Taken words -/

theorem le_foldl_length (words : List String) (start : Nat) :
    start ≤ words.foldl (fun longest word => max longest word.length) start ∧
      ∀ word ∈ words, word.length ≤
        words.foldl (fun longest word => max longest word.length) start := by
  induction words generalizing start with
  | nil => simp
  | cons w ws ih =>
    have rest := ih (max start w.length)
    refine ⟨Nat.le_trans (Nat.le_max_left _ _) rest.1, fun word h => ?_⟩
    rcases List.mem_cons.1 h with rfl | h
    · exact Nat.le_trans (Nat.le_max_right _ _) rest.1
    · exact rest.2 word h

theorem length_le_longestTaken (h : word ∈ reserved ++ Sql.keywords) :
    word.length ≤ longestTaken reserved :=
  (le_foldl_length _ 0).2 word h

theorem length_eq_of_sameIgnoringAsciiCase {left right : String}
    (same : Text.sameIgnoringAsciiCase left right = true) : left.length = right.length := by
  have lists : left.toList.map Char.toLower = right.toList.map Char.toLower := by
    simpa [Text.sameIgnoringAsciiCase] using same
  simpa only [List.length_map, String.length_toList] using congrArg List.length lists

/-- Words in lower case are not shorter, and words that differ in case only have the same length. -/
theorem isTaken_of_long (long : longestTaken reserved < word.length) :
    isTaken reserved word = false := by
  apply Bool.eq_false_iff.2
  intro taken
  rw [isTaken, Bool.or_eq_true] at taken
  rcases taken with listed | keyword
  · have bound := length_le_longestTaken
      (List.mem_append_left Sql.keywords (List.contains_iff_mem.1 listed))
    have lower := Text.length_le_length_lower word
    omega
  · rw [Sql.isKeyword, List.any_eq_true] at keyword
    rcases keyword with ⟨k, hk, same⟩
    have bound := length_le_longestTaken (List.mem_append_right reserved hk)
    have equal := length_eq_of_sameIgnoringAsciiCase same
    omega

theorem isTaken_lower_iff :
    isTaken (reserved.map Text.lower) word = true ↔
      (∃ name ∈ reserved, Text.lower name = Text.lower word) ∨ Sql.isKeyword word = true := by
  rw [isTaken, Bool.or_eq_true, List.contains_iff_mem, List.mem_map]

theorem isTaken_lower_eq_false_iff :
    isTaken (reserved.map Text.lower) word = false ↔
      (∀ name ∈ reserved, Text.lower name ≠ Text.lower word) ∧ Sql.isKeyword word = false := by
  rw [← Bool.not_eq_true, isTaken_lower_iff, not_or, Bool.not_eq_true]
  simp only [not_exists, not_and, ne_eq]

/-! ## The search -/

/-- The search for a word that is not taken. When there is none among `words` it goes on with the
words that are one symbol longer, for as long as it takes. -/
inductive Search (a : Alphabet) (taken : String → Bool) : List String → String → Prop
  | found {words : List String} {word : String} :
      words.find? (!taken ·) = some word → Search a taken words word
  | longer {words : List String} {word : String} :
      words.find? (!taken ·) = none → Search a taken (a.lengthen words) word →
        Search a taken words word

/-- The words of `n` symbols, in ascending order. -/
structure Round (a : Alphabet) (n : Nat) (words : List String) : Prop where
  nonempty : words ≠ []
  ascending : words.Pairwise (· < ·)
  mem_iff : ∀ word, word ∈ words ↔ Spelled a n word

/-- The word is free, all words of fewer than `n` symbols are taken, and it is the least of the free
words of `n` symbols. -/
structure First (a : Alphabet) (taken : String → Bool) (n : Nat) (word : String) : Prop where
  spelled : Spelled a n word
  free : taken word = false
  shorter : ∀ m < n, ∀ other, Spelled a m other → taken other = true
  least : ∀ other, Spelled a n other → taken other = false → word ≤ other

theorem Round.pos (round : Round a n words) : 0 < n := by
  rcases List.exists_mem_of_ne_nil words round.nonempty with ⟨w, hw⟩
  exact ((round.mem_iff w).1 hw).pos

theorem Round.symbols (a : Alphabet) : Round a 1 a.symbols where
  nonempty := a.nonempty
  ascending := a.ascending
  mem_iff word := by
    constructor
    · exact Spelled.symbol
    · intro spelled
      cases spelled with
      | symbol hs => exact hs
      | append hw _ => exact absurd hw.pos (Nat.lt_irrefl 0)

theorem Round.lengthen (round : Round a n words) : Round a (n + 1) (a.lengthen words) where
  nonempty := lengthen_ne_nil round.nonempty
  ascending := Text.pairwise_sortedWords _
  mem_iff word := by
    rw [mem_lengthen]
    constructor
    · rintro ⟨w, hw, symbol, hs, rfl⟩
      exact .append ((round.mem_iff w).1 hw) hs
    · intro spelled
      cases spelled with
      | symbol hs => exact absurd round.pos (Nat.lt_irrefl 0)
      | append hw hs => exact ⟨_, (round.mem_iff _).2 hw, _, hs, rfl⟩

/-- The first match in an ascending list is the least one. -/
theorem le_of_find? {p : String → Bool} (ascending : words.Pairwise (· < ·))
    (found : words.find? p = some word) {other : String} (listed : other ∈ words)
    (matched : p other = true) : word ≤ other := by
  rcases List.find?_eq_some_iff_append.1 found with ⟨-, before, after, rfl, unmatched⟩
  rcases List.mem_append.1 listed with early | late
  · have none := unmatched other early
    rw [matched] at none
    cases none
  · rcases List.mem_cons.1 late with rfl | late
    · exact Std.le_refl _
    · have above := (List.pairwise_append.1 ascending).2.1
      exact Std.le_of_lt ((List.pairwise_cons.1 above).1 other late)

section

variable {taken : String → Bool}

theorem Search.unique {other : String} (one : Search a taken words word)
    (two : Search a taken words other) : word = other := by
  induction one with
  | found here =>
    cases two with
    | found there => exact Option.some.inj (here.symm.trans there)
    | longer none _ => cases none.symm.trans here
  | longer none _ ih =>
    cases two with
    | found there => cases none.symm.trans there
    | longer _ rest => exact ih rest

/-- The search goes on to the next round only if all words of this one are taken. -/
theorem Search.first (search : Search a taken words word) (round : Round a n words)
    (shorter : ∀ m < n, ∀ other, Spelled a m other → taken other = true) :
    ∃ m, First a taken m word := by
  induction search generalizing n with
  | found here =>
    refine ⟨n, ?_, ?_, shorter, ?_⟩
    · exact (round.mem_iff _).1 (List.mem_of_find?_eq_some here)
    · simpa using List.find?_some here
    · intro other spelled free
      exact le_of_find? round.ascending here ((round.mem_iff other).2 spelled) (by simpa using free)
  | longer none _ ih =>
    refine ih round.lengthen fun m hm other spelled => ?_
    rcases Nat.lt_succ_iff_lt_or_eq.1 hm with below | rfl
    · exact shorter m below other spelled
    · have here := List.find?_eq_none.1 none other ((round.mem_iff other).2 spelled)
      simpa using here

/-- The rounds suffice: the search ends when the words are longer than all taken ones. -/
theorem search_firstFree {longest : Nat} (free : ∀ w, longest < w.length → taken w = false)
    (rounds : Nat) (round : Round a n words) (enough : longest < n + rounds) :
    Search a taken words (a.firstFree taken rounds words) := by
  induction rounds generalizing words n with
  | zero =>
    rcases List.exists_cons_of_ne_nil round.nonempty with ⟨w, ws, rfl⟩
    have first := (round.mem_iff w).1 List.mem_cons_self
    have untaken : taken w = false := free w (Nat.lt_of_lt_of_le enough first.le_length)
    exact .found (List.find?_cons_of_pos (by simpa using untaken))
  | succ rounds ih =>
    rw [firstFree]
    split
    · rename_i w found
      exact .found found
    · rename_i none
      exact .longer none (ih round.lengthen (by omega))

end

/-- The search for a name that is neither reserved nor a word of SQL ends with the fresh name. -/
theorem search_fresh (a : Alphabet) (reserved : List String) :
    Search a (isTaken (reserved.map Text.lower)) a.symbols (a.fresh reserved) :=
  search_firstFree (fun _ long => isTaken_of_long long) _ (Round.symbols a) (by omega)

theorem first_fresh (a : Alphabet) (reserved : List String) :
    ∃ n, First a (isTaken (reserved.map Text.lower)) n (a.fresh reserved) :=
  (search_fresh a reserved).first (Round.symbols a) fun m hm other spelled =>
    absurd spelled.pos (by omega)

theorem fresh_free (a : Alphabet) (reserved : List String) :
    isTaken (reserved.map Text.lower) (a.fresh reserved) = false ∧
      ∃ n, Spelled a n (a.fresh reserved) := by
  rcases first_fresh a reserved with ⟨n, first⟩
  exact ⟨first.free, n, first.spelled⟩

theorem isTaken_fresh (a : Alphabet) (reserved : List String) :
    isTaken (reserved.map Text.lower) (a.fresh reserved) = false :=
  (fresh_free a reserved).1

/-- The first symbol is tried first. -/
theorem fresh_eq_head {rest : List String} (symbols : a.symbols = symbol :: rest)
    (free : isTaken (reserved.map Text.lower) symbol = false) : a.fresh reserved = symbol := by
  refine (search_fresh a reserved).unique (.found ?_)
  rw [symbols]
  exact List.find?_cons_of_pos (by simpa using free)

theorem fresh_notMem (a : Alphabet) (reserved : List String) : a.fresh reserved ∉ reserved := by
  intro listed
  have free := isTaken_lower_eq_false_iff.1 (isTaken_fresh a reserved)
  exact free.1 _ listed rfl

/-- A word of several symbols has several characters. -/
theorem fresh_ne_blankName (blank : Variable.blankName ∉ a.symbols) (reserved : List String) :
    a.fresh reserved ≠ Variable.blankName := by
  intro same
  rcases (fresh_free a reserved).2 with ⟨n, spelled⟩
  generalize a.fresh reserved = word at spelled same
  cases spelled with
  | symbol hs => exact blank (same ▸ hs)
  | append hw hs =>
    have several := (Spelled.append hw hs).le_length
    have first := hw.pos
    rw [same] at several
    have single : Variable.blankName.length = 1 := rfl
    omega

/-- The blank is the only symbol. -/
def blanks : Alphabet where
  symbols := [Variable.blankName]
  nonempty := by simp
  spelled := by decide
  ascending := by simp

/-- Nothing but the reserved names keeps the blank from being drawn. -/
theorem fresh_blanks (absent : ∀ name ∈ reserved, Text.lower name ≠ Text.lower Variable.blankName) :
    blanks.fresh reserved = Variable.blankName := by
  have ascii : '_'.toNat < 0x80 := by decide
  have single : Variable.blankName = String.singleton '_' := by decide
  refine fresh_eq_head rfl (isTaken_lower_eq_false_iff.2 ⟨absent, ?_⟩)
  rw [single]
  exact Sql.isKeyword_singleton ascii

/-- The search for a fresh name ends, and with this name only. The name is a word of `n` symbols
that is no reserved name, ignoring case, and no word of SQL. No shorter word would do, and of those
that consist of `n` symbols it is the least one. -/
theorem fresh_least_available (a : Alphabet) (reserved : List String) :
    (∀ word, a.Search (isTaken (reserved.map Text.lower)) a.symbols word ↔
      word = a.fresh reserved) ∧
    ∃ n, a.Spelled n (a.fresh reserved) ∧
      (∀ name ∈ reserved, Text.lower name ≠ Text.lower (a.fresh reserved)) ∧
      Sql.isKeyword (a.fresh reserved) = false ∧
      (∀ m < n, ∀ word, a.Spelled m word →
        (∃ name ∈ reserved, Text.lower name = Text.lower word) ∨ Sql.isKeyword word = true) ∧
      ∀ word, a.Spelled n word → (∀ name ∈ reserved, Text.lower name ≠ Text.lower word) →
        Sql.isKeyword word = false → a.fresh reserved ≤ word := by
  have ends := search_fresh a reserved
  constructor
  · intro word
    constructor
    · exact fun search => search.unique ends
    · rintro rfl
      exact ends
  · rcases first_fresh a reserved with ⟨n, first⟩
    have free := isTaken_lower_eq_false_iff.1 first.free
    refine ⟨n, first.spelled, free.1, free.2, ?_, ?_⟩
    · intro m hm word spelled
      exact isTaken_lower_iff.1 (first.shorter m hm word spelled)
    · intro word spelled unreserved unkeyed
      exact first.least word spelled (isTaken_lower_eq_false_iff.2 ⟨unreserved, unkeyed⟩)

end Alphabet
end QueryCalculus
