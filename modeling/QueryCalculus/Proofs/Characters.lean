import Mathlib.Logic.Basic

/-!
# Letters and digits

- `isDigit_iff`, `isAlpha_iff` : digits and letters by their code points
- `toNat_toLower` : the code point of a small letter
- `toUInt8_mem_toByteArray` : the byte of a character in a text

All of them are within ASCII. Other characters have no case and are neither letters nor digits.
-/

namespace QueryCalculus

variable {c d : Char}

/-! ## Classes -/

theorem isDigit_iff : c.isDigit = true ↔ 48 ≤ c.toNat ∧ c.toNat ≤ 57 := by
  have range : c.isDigit = (decide ('0'.val ≤ c.val) && decide (c.val ≤ '9'.val)) := rfl
  rw [range, Bool.and_eq_true, decide_eq_true_eq, decide_eq_true_eq, UInt32.le_iff_toNat_le,
    UInt32.le_iff_toNat_le]
  exact Iff.rfl

theorem isAlpha_iff :
    c.isAlpha = true ↔ 65 ≤ c.toNat ∧ c.toNat ≤ 90 ∨ 97 ≤ c.toNat ∧ c.toNat ≤ 122 := by
  have upper : c.isUpper = decide ('A'.val ≤ c.val ∧ c.val ≤ 'Z'.val) := rfl
  have lower : c.isLower = (decide ('a'.val ≤ c.val) && decide (c.val ≤ 'z'.val)) := rfl
  have either : c.isAlpha = (c.isUpper || c.isLower) := rfl
  rw [either, Bool.or_eq_true, upper, lower, Bool.and_eq_true]
  simp only [decide_eq_true_eq, UInt32.le_iff_toNat_le]
  exact Iff.rfl

theorem isAlpha_of_isDigit (digit : c.isDigit = true) : c.isAlpha = false := by
  refine Bool.eq_false_iff.2 fun letter => ?_
  have digits := isDigit_iff.1 digit
  have letters := isAlpha_iff.1 letter
  omega

/-- Digits come before letters. -/
theorem isDigit_of_lt (word : c.isAlphanum = true) (below : c < d) (digit : d.isDigit = true) :
    c.isDigit = true := by
  rcases Bool.or_eq_true_iff.1 word with letter | first
  · have least := isAlpha_iff.1 letter
    have greatest := (isDigit_iff.1 digit).2
    have order : c.toNat < d.toNat := UInt32.lt_iff_toNat_lt.1 below
    omega
  · exact first

/-! ## Case -/

theorem toNat_toLower (c : Char) :
    c.toLower.toNat = if 65 ≤ c.toNat ∧ c.toNat ≤ 90 then c.toNat + 32 else c.toNat := by
  by_cases upper : c.val ≥ 'A'.val ∧ c.val ≤ 'Z'.val
  · have least : 65 ≤ c.toNat := UInt32.le_iff_toNat_le.1 upper.1
    have greatest : c.toNat ≤ 90 := UInt32.le_iff_toNat_le.1 upper.2
    have lowered : c.toLower.toNat = (c.val + 32).toNat :=
      congrArg Char.toNat (dif_pos upper)
    have sum : (c.val + 32).toNat = (c.toNat + 32) % 2 ^ 32 := UInt32.toNat_add c.val 32
    rw [if_pos ⟨least, greatest⟩]
    omega
  · have kept : c.toLower = c := dif_neg upper
    have other : ¬ (65 ≤ c.toNat ∧ c.toNat ≤ 90) := fun between =>
      upper ⟨UInt32.le_iff_toNat_le.2 between.1, UInt32.le_iff_toNat_le.2 between.2⟩
    rw [kept, if_neg other]

theorem toNat_toLower_lt_iff (c : Char) : c.toLower.toNat < 0x80 ↔ c.toNat < 0x80 := by
  rw [toNat_toLower]
  split <;> omega

theorem toLower_toLower (c : Char) : c.toLower.toLower = c.toLower := by
  apply Char.toNat_inj.1
  rw [toNat_toLower c.toLower, toNat_toLower c]
  by_cases upper : 65 ≤ c.toNat ∧ c.toNat ≤ 90
  · rw [if_pos upper, if_neg (by omega)]
  · rw [if_neg upper, if_neg upper]

/-- Lower case letters are no digits either. -/
theorem isDigit_toLower (c : Char) : c.toLower.isDigit = c.isDigit := by
  rw [Bool.eq_iff_iff, isDigit_iff, isDigit_iff, toNat_toLower]
  split <;> omega

theorem toLower_eq_iff_of_isDigit (digit : d.isDigit = true) : c.toLower = d ↔ c = d := by
  rw [isDigit_iff] at digit
  rw [← Char.toNat_inj, ← Char.toNat_inj, toNat_toLower]
  split <;> omega

/-! ## Bytes -/

theorem utf8Size_of_ascii (ascii : c.toNat < 0x80) : c.utf8Size = 1 := by
  rw [Char.utf8Size_eq_one_iff, UInt32.le_iff_toNat_le]
  exact Nat.le_of_lt_succ ascii

theorem toUInt8_mem_toByteArray {text : String} (hc : c ∈ text.toList) (ascii : c.toNat < 0x80) :
    c.val.toUInt8 ∈ text.toByteArray.data.toList := by
  have encoded : text.toByteArray = text.toList.utf8Encode := by
    rw [← String.toByteArray_ofList, String.ofList_toList]
  have single : String.utf8EncodeChar c = [c.val.toUInt8] :=
    String.utf8EncodeChar_eq_singleton (utf8Size_of_ascii ascii)
  have listed : c.val.toUInt8 ∈ text.toList.flatMap String.utf8EncodeChar :=
    List.mem_flatMap.2 ⟨c, hc, single ▸ List.mem_singleton_self _⟩
  rw [encoded, List.utf8Encode]
  simpa using listed

end QueryCalculus
