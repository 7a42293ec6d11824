/-!
# Sets of words

- `insertWord` : places a word in an ascending list unless it is there already
- `sortedWords` : the words of a list in code point order, each once
- `pairwise_sortedWords` : the result is ascending
-/

namespace QueryCalculus
namespace Text

def insertWord (word : String) : List String → List String
  | [] => [word]
  | w :: ws =>
    if word < w then word :: w :: ws
    else if word = w then w :: ws
    else w :: insertWord word ws

def sortedWords (words : List String) : List String :=
  words.foldr insertWord []

theorem mem_insertWord {v word : String} {ws : List String} :
    v ∈ insertWord word ws ↔ v = word ∨ v ∈ ws := by
  induction ws with
  | nil => simp [insertWord]
  | cons w ws ih =>
    unfold insertWord
    split
    · simp
    · split
      · simp_all
      · simp only [List.mem_cons, ih]
        constructor
        · rintro (h | h | h)
          · exact .inr (.inl h)
          · exact .inl h
          · exact .inr (.inr h)
        · rintro (h | h | h)
          · exact .inr (.inl h)
          · exact .inl h
          · exact .inr (.inr h)

theorem mem_sortedWords {v : String} {words : List String} :
    v ∈ sortedWords words ↔ v ∈ words := by
  induction words with
  | nil => simp [sortedWords]
  | cons w ws ih =>
    rw [sortedWords, List.foldr_cons, mem_insertWord, List.mem_cons]
    exact or_congr Iff.rfl ih

theorem pairwise_insertWord {word : String} {ws : List String} (h : ws.Pairwise (· < ·)) :
    (insertWord word ws).Pairwise (· < ·) := by
  induction ws with
  | nil => simp [insertWord]
  | cons w ws ih =>
    rw [List.pairwise_cons] at h
    unfold insertWord
    split
    · rename_i below
      refine List.pairwise_cons.2 ⟨?_, List.pairwise_cons.2 h⟩
      intro v hv
      rcases List.mem_cons.1 hv with rfl | hv
      · exact below
      · exact String.lt_trans below (h.1 v hv)
    · rename_i notBelow
      split
      · exact List.pairwise_cons.2 h
      · rename_i different
        refine List.pairwise_cons.2 ⟨?_, ih h.2⟩
        intro v hv
        rcases mem_insertWord.1 hv with rfl | hv
        · exact Std.lt_of_le_of_ne notBelow (Ne.symm different)
        · exact h.1 v hv

theorem pairwise_sortedWords (words : List String) : (sortedWords words).Pairwise (· < ·) := by
  induction words with
  | nil => exact .nil
  | cons w ws ih => exact pairwise_insertWord ih

end Text
end QueryCalculus
