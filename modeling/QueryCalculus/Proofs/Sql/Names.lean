import QueryCalculus.Proofs.FreshNames
import QueryCalculus.Proofs.Formula.FreeVariables
import QueryCalculus.Sql.Expr

/-!
# Names in statements

- `Sql.fold` : a name as it is compared with others, whatever its case
- `Sql.isIdentifier` : a name that needs no quotes
- `Sql.isIdentifier_queryAlias`, `Sql.isIdentifier_tableAlias` : aliases need none
- `Formula.namesApart` : the variables that a conjunction can select have different names

Only the names of tables are written in quotes. All other names are the same if they differ in the
case of their letters only.
-/

namespace QueryCalculus
namespace Sql

/-! ## Case -/

def fold (name : String) : String :=
  String.ofList (name.toList.map Char.toLower)

theorem toList_fold (name : String) : (fold name).toList = name.toList.map Char.toLower :=
  String.toList_ofList

theorem fold_append (name name' : String) : fold (name ++ name') = fold name ++ fold name' := by
  apply String.toList_inj.1
  simp only [toList_fold, String.toList_append, List.map_append]

theorem isKeyword_fold (name : String) : isKeyword (fold name) = isKeyword name := by
  have lowered : (fold name).toList.map Char.toLower = name.toList.map Char.toLower := by
    rw [toList_fold, List.map_map]
    exact List.map_congr_left fun c _ => toLower_toLower c
  simp only [isKeyword, Text.sameIgnoringAsciiCase, lowered]

/-! ## Digits -/

theorem isDigit_of_mem_toString {n : Nat} {c : Char} (hc : c ∈ (toString n).toList) :
    c.isDigit = true := by
  rw [Nat.toString_eq_ofList_toDigits, String.toList_ofList] at hc
  exact Nat.isDigit_of_mem_toDigits (by omega) (by omega) hc

theorem exists_mem_toString (n : Nat) : ∃ c, c ∈ (toString n).toList := by
  rw [Nat.toString_eq_ofList_toDigits, String.toList_ofList]
  exact List.exists_mem_of_ne_nil _ Nat.toDigits_ne_nil

theorem fold_toString (n : Nat) : fold (toString n) = toString n := by
  apply String.toList_inj.1
  rw [toList_fold]
  exact map_eq_self_iff.2 fun c hc =>
    (toLower_eq_iff_of_isDigit (isDigit_of_mem_toString hc)).2 rfl

theorem fold_queryAlias (n : Nat) : fold (queryAlias n) = queryAlias n := by
  rw [queryAlias, fold_append, fold_toString]
  rfl

/-- No keyword has a digit. -/
theorem isKeyword_of_isDigit {name : String} {d : Char} (hd : d ∈ name.toList)
    (digit : d.isDigit = true) : isKeyword name = false := by
  -- all bytes come behind those of the digits
  have lettered : (keywords.all fun k => k.toByteArray.data.toList.all (57 < ·)) = true := by
    decide +kernel
  refine List.any_eq_false.2 fun k hk same => ?_
  have lists : k.toList.map Char.toLower = name.toList.map Char.toLower := by
    simpa [Text.sameIgnoringAsciiCase] using same
  have there : d.toLower ∈ k.toList.map Char.toLower := lists ▸ List.mem_map_of_mem hd
  rcases List.mem_map.1 there with ⟨c, hc, lowered⟩
  -- the letter of the keyword would be the digit itself
  rw [(toLower_eq_iff_of_isDigit digit).2 rfl, toLower_eq_iff_of_isDigit digit] at lowered
  subst lowered
  have range := isDigit_iff.1 digit
  have byte := List.all_eq_true.1 (List.all_eq_true.1 lettered k hk) _
    (toUInt8_mem_toByteArray hc (by omega))
  have behind : 57 < c.toNat % 256 := UInt8.lt_iff_toNat_lt.1 (of_decide_eq_true byte)
  omega

/-! ## Identifiers -/

def isNameStart (c : Char) : Bool :=
  c.isAlpha || c == '_'

def isNamePart (c : Char) : Bool :=
  isNameStart c || c.isDigit

/-- Letters, digits and underscores, with no digit in front, that are not a keyword together. -/
def isIdentifier (name : String) : Bool :=
  (match name.toList with
    | [] => false
    | c :: cs => isNameStart c && cs.all isNamePart) && !isKeyword name

theorem isIdentifier_iff {name : String} :
    isIdentifier name = true ↔
      (∃ c cs, name.toList = c :: cs ∧ isNameStart c = true ∧ ∀ d ∈ cs, isNamePart d = true) ∧
        isKeyword name = false := by
  unfold isIdentifier
  rw [Bool.and_eq_true, Bool.not_eq_true']
  refine and_congr_left fun _ => ?_
  cases name.toList with
  | nil => simp
  | cons c cs => simp

def isSingleLetter (name : String) : Bool :=
  match name.toList with
  | [c] => isNameStart c
  | _ => false

/-- No keyword consists of one letter. -/
theorem isIdentifier_of_isSingleLetter {name : String} (h : isSingleLetter name = true) :
    isIdentifier name = true := by
  unfold isSingleLetter at h
  split at h
  · rename_i c characters
    have ascii : c.toNat < 0x80 := by
      rcases Bool.or_eq_true_iff.1 h with letter | underscore
      · have range := isAlpha_iff.1 letter
        omega
      · rw [beq_iff_eq.1 underscore]
        decide
    have single : name = String.singleton c := by
      rw [← String.toList_inj, characters, String.toList_singleton]
    rw [isIdentifier_iff, single, String.toList_singleton]
    exact ⟨⟨c, [], rfl, h, List.forall_mem_nil _⟩, isKeyword_singleton ascii⟩
  · cases h

/-- A number behind a name leaves it a name. -/
theorem isIdentifier_numbered {name : String} (n : Nat)
    (start : ∃ c cs, name.toList = c :: cs ∧ isNameStart c = true ∧ ∀ d ∈ cs, isNamePart d = true) :
    isIdentifier (name ++ toString n) = true := by
  rcases start with ⟨c, cs, characters, first, rest⟩
  rcases exists_mem_toString n with ⟨d, hd⟩
  have digits : ∀ d ∈ (toString n).toList, isNamePart d = true := by
    intro d hd
    rw [isNamePart, isDigit_of_mem_toString hd, Bool.or_true]
  have numbered : (name ++ toString n).toList = c :: (cs ++ (toString n).toList) := by
    rw [String.toList_append, characters, List.cons_append]
  refine isIdentifier_iff.2 ⟨⟨c, _, numbered, first, ?_⟩, ?_⟩
  · exact List.forall_mem_append.2 ⟨rest, digits⟩
  · refine isKeyword_of_isDigit (d := d) ?_ (isDigit_of_mem_toString hd)
    rw [String.toList_append]
    exact List.mem_append_right _ hd

theorem isIdentifier_queryAlias (n : Nat) : isIdentifier (queryAlias n) = true :=
  isIdentifier_numbered n ⟨'q', [], rfl, rfl, by simp⟩

theorem isIdentifier_tableAlias {name : String} (h : isIdentifier name = true) (use : Nat) :
    isIdentifier (tableAlias name use) = true :=
  isIdentifier_numbered use (isIdentifier_iff.1 h).1

end Sql

/-! ## Variables of different names -/

namespace Formula

variable {parts : List Formula}

mutual

/-- Whether in every junction the selectable variables have different names, ignoring case. -/
def namesApart : Formula → Bool
  | .atom _ => true
  | .junction c parts =>
    decide ((Formula.junction c parts).selectable.idents.map fun x => Sql.fold x.name).Nodup &&
      namesApartAll parts
  | .neg body => body.namesApart
  | .quant _ _ body => body.namesApart

def namesApartAll : List Formula → Bool
  | [] => true
  | f :: fs => f.namesApart && namesApartAll fs

end

theorem namesApartAll_eq_all (fs : List Formula) : namesApartAll fs = fs.all namesApart := by
  induction fs with
  | nil => rfl
  | cons f fs ih => simp [namesApartAll, ih]

theorem namesApart_junction {c : Connective} :
    namesApart (.junction c parts) = true ↔
      ((Formula.junction c parts).selectable.idents.map fun x => Sql.fold x.name).Nodup ∧
        ∀ f ∈ parts, namesApart f = true := by
  rw [namesApart, Bool.and_eq_true, decide_eq_true_iff, namesApartAll_eq_all, List.all_eq_true]

theorem eq_of_namesApart {c : Connective} (h : namesApart (.junction c parts) = true) {x y : Ident}
    (hx : x ∈ (Formula.junction c parts).selectable)
    (hy : y ∈ (Formula.junction c parts).selectable) (same : Sql.fold x.name = Sql.fold y.name) :
    x = y :=
  List.inj_on_of_nodup_map (namesApart_junction.1 h).1 (VarSet.mem_idents.2 hx)
    (VarSet.mem_idents.2 hy) same

end Formula
end QueryCalculus
