import Mathlib.Data.List.Nodup
import QueryCalculus.Proofs.Sql.Correctness

/-!
# Aliases

- `Expr.aliases` : the aliases that a statement introduces, in the order of the text
- `tableAlias_eq_cases` : when two aliases have the same text
- `Expr.Counted` : a statement whose table uses and sub-queries are numbered without gaps
- `Expr.Counted.nodup_texts_iff` : for which numbers of uses all aliases differ
- `numbered_counted` : numbering leads to such statements

The alias of a table use is the name of the table with a number behind it, and so is that of a
sub-query, with the name `q`.
-/

namespace QueryCalculus
namespace Sql

/-! ## Introduced aliases -/

/-- What gets an alias in a statement: a use of a table or a sub-query. -/
inductive Alias (κ : Type)
  | table (name : String) (use : κ)
  | query (key : κ)
  deriving DecidableEq

namespace Alias

variable {κ μ : Type}

def key : Alias κ → κ
  | .table _ use => use
  | .query key => key

def map (query : κ → μ) (use : String → κ → μ) : Alias κ → Alias μ
  | .table name key => .table name (use name key)
  | .query key => .query (query key)

def text : Alias Nat → String
  | .table name use => tableAlias name use
  | .query key => queryAlias key

def use? : Alias κ → Option (String × κ)
  | .table name use => some (name, use)
  | .query _ => none

def query? : Alias κ → Option κ
  | .table _ _ => none
  | .query key => some key

end Alias

section Introduced

variable {κ μ : Type}

mutual

/-- The aliases that an expression introduces, in the order of the text. -/
def Expr.aliases : Expr κ → List (Alias κ)
  | .truth _ | .compare _ _ _ | .equate _ _ => []
  | .any alternatives => aliasesAll alternatives
  | .group conditions => aliasesAll conditions
  | .not _ condition => condition.aliases
  | .exist body => body.aliases
  | .table name key => [.table name key]
  | .derived _ body key => body.aliases ++ [.query key]
  | .unionAll branches => aliasesAll branches
  | .select _ _ sources conditions _ => aliasesAll sources ++ aliasesAll conditions

def aliasesAll : List (Expr κ) → List (Alias κ)
  | [] => []
  | e :: es => e.aliases ++ aliasesAll es

end

theorem aliasesAll_eq_flatMap (es : List (Expr κ)) : aliasesAll es = es.flatMap Expr.aliases := by
  induction es with
  | nil => rfl
  | cons e es ih => simp [aliasesAll, ih]

theorem aliasesAll_append (es es' : List (Expr κ)) :
    aliasesAll (es ++ es') = aliasesAll es ++ aliasesAll es' := by
  simp only [aliasesAll_eq_flatMap, List.flatMap_append]

/-- The sub-queries that get an alias. -/
def Expr.queries (e : Expr κ) : List κ :=
  e.aliases.filterMap Alias.query?

/-- How often a table is used. -/
def Expr.useCount (e : Expr κ) (name : String) : Nat :=
  e.uses.countP fun entry => entry.1 == name

theorem Expr.mem_queries {e : Expr κ} {key : κ} : key ∈ e.queries ↔ .query key ∈ e.aliases := by
  rw [queries, List.mem_filterMap]
  constructor
  · rintro ⟨a, ha, found⟩
    cases a with
    | table name use => cases found
    | query key' =>
      cases found
      exact ha
  · exact fun h => ⟨_, h, rfl⟩

theorem Expr.aliases_map (query : κ → μ) (use : String → κ → μ) (e : Expr κ) :
    (e.map query use).aliases = e.aliases.map (Alias.map query use) := by
  have list : ∀ es : List (Expr κ),
      (∀ e ∈ es, (e.map query use).aliases = e.aliases.map (Alias.map query use)) →
      aliasesAll (mapAll query use es) = (aliasesAll es).map (Alias.map query use) := by
    intro es ih
    simp only [aliasesAll_eq_flatMap, mapAll_eq_map, List.flatMap_map, List.map_flatMap]
    exact List.flatMap_congr ih
  induction e with
  | any es ih | group es ih | unionAll es ih => exact list es ih
  | not layout e ih | exist e ih => exact ih
  | derived layout e key ih => simp only [Expr.map, aliases, ih, List.map_append, List.map_cons,
      List.map_nil, Alias.map]
  | select distinct columns sources conditions limitOne ih ih' =>
    simp only [Expr.map, aliases, list sources ih, list conditions ih', List.map_append]
  | _ => rfl

theorem Expr.mentions_map (query : κ → μ) (use : String → κ → μ) (e : Expr κ) :
    (e.map query use).mentions = e.mentions.map query := by
  have list : ∀ es : List (Expr κ),
      (∀ e ∈ es, (e.map query use).mentions = e.mentions.map query) →
      mentionsAll (mapAll query use es) = (mentionsAll es).map query := by
    intro es ih
    simp only [mentionsAll_eq_flatMap, mapAll_eq_map, List.flatMap_map, List.map_flatMap]
    exact List.flatMap_congr ih
  have operand : ∀ o : Operand κ, (o.map query).mentions = o.mentions.map query := by
    intro o
    cases o <;> rfl
  induction e with
  | compare relation left right =>
    simp only [Expr.map, mentions, operand, List.map_append]
  | equate column value => exact operand value
  | any es ih | group es ih | unionAll es ih => exact list es ih
  | not layout e ih | exist e ih => exact ih
  | derived layout e key ih =>
    simp only [Expr.map, mentions, ih, List.map_append, List.map_cons, List.map_nil]
  | select distinct columns sources conditions limitOne ih ih' =>
    simp only [Expr.map, mentions, list sources ih, list conditions ih', List.map_append]
  | _ => rfl

/-- The uses of tables are those that get an alias. -/
theorem Expr.uses_eq (e : Expr κ) : e.uses = e.aliases.filterMap Alias.use? := by
  have list : ∀ es : List (Expr κ), (∀ e ∈ es, e.uses = e.aliases.filterMap Alias.use?) →
      usesAll es = (aliasesAll es).filterMap Alias.use? := by
    intro es ih
    simp only [usesAll_eq_flatMap, aliasesAll_eq_flatMap, List.filterMap_flatMap]
    exact List.flatMap_congr ih
  induction e with
  | any es ih | group es ih | unionAll es ih => exact list es ih
  | not layout e ih | exist e ih => exact ih
  | derived layout e key ih =>
    simp only [uses, aliases, ih, List.filterMap_append]
    simp [Alias.use?]
  | select distinct columns sources conditions limitOne ih ih' =>
    simp only [uses, aliases, list sources ih, list conditions ih', List.filterMap_append]
  | _ => rfl

theorem Expr.mem_uses {e : Expr κ} {name : String} {key : κ} :
    (name, key) ∈ e.uses ↔ .table name key ∈ e.aliases := by
  rw [uses_eq, List.mem_filterMap]
  constructor
  · rintro ⟨a, ha, found⟩
    cases a with
    | table name' use =>
      cases found
      exact ha
    | query key' => cases found
  · exact fun h => ⟨_, h, rfl⟩

/-- A sub-query is mentioned where it gets its alias. -/
theorem Expr.mem_mentions_of_aliases {e : Expr κ} {key : κ} (h : .query key ∈ e.aliases) :
    key ∈ e.mentions := by
  have list : ∀ es : List (Expr κ), (∀ e ∈ es, .query key ∈ e.aliases → key ∈ e.mentions) →
      .query key ∈ aliasesAll es → key ∈ mentionsAll es := by
    intro es ih h
    rw [aliasesAll_eq_flatMap] at h
    rcases List.mem_flatMap.1 h with ⟨e, he, h⟩
    rw [mentionsAll_eq_flatMap]
    exact List.mem_flatMap.2 ⟨e, he, ih e he h⟩
  induction e with
  | any es ih | group es ih | unionAll es ih => exact list es ih h
  | not layout e ih | exist e ih => exact ih h
  | derived layout e key' ih =>
    rcases List.mem_append.1 h with inside | here
    · exact List.mem_append_left _ (ih inside)
    · cases List.mem_singleton.1 here
      exact List.mem_append_right _ (List.mem_singleton_self key)
  | select distinct columns sources conditions limitOne ih ih' =>
    rcases List.mem_append.1 h with source | condition
    · exact List.mem_append_left _ (list sources ih source)
    · exact List.mem_append_right _ (list conditions ih' condition)
  | table name use => simp [aliases] at h
  | _ => cases h

end Introduced

/-! ## Names with numbers -/

/-- If the digits of a number end in those of another one, those in front are the digits of a number
as well. -/
theorem toDigits_of_append {front : List Char} {i j : Nat} (nonempty : front ≠ [])
    (positive : 1 ≤ i) (same : front ++ Nat.toDigits 10 i = Nat.toDigits 10 j) :
    ∃ k, 1 ≤ k ∧ front = Nat.toDigits 10 k ∧ 10 * k + 1 ≤ j := by
  -- by the number of digits at the end, which are taken away one by one
  induction i using Nat.strongRecOn generalizing j with
  | ind i ih =>
    have large : 10 ≤ j := by
      by_contra small
      have lengths := congrArg List.length same
      rw [Nat.toDigits_of_lt_base (n := j) (by omega), List.length_append] at lengths
      have front := List.length_pos_iff.2 nonempty
      have back := List.length_pos_iff.2 (Nat.toDigits_ne_nil (n := i) (b := 10))
      simp only [List.length_singleton] at lengths
      omega
    rw [Nat.toDigits_of_base_le (by omega) large] at same
    by_cases short : i < 10
    · rw [Nat.toDigits_of_lt_base short] at same
      have parts := List.append_inj' same rfl
      refine ⟨j / 10, by omega, parts.1, ?_⟩
      -- the last digit is not zero
      have last : j % 10 ≠ 0 := by
        intro zero
        have digit : Nat.digitChar i = '0' := by
          have digits := (List.cons.inj parts.2).1
          rwa [zero] at digits
        have := Nat.digitChar_eq_zero.1 digit
        omega
      omega
    · rw [Nat.toDigits_of_base_le (n := i) (by omega) (by omega), ← List.append_assoc] at same
      have initial := (List.append_inj' same rfl).1
      rcases ih (i / 10) (by omega) (by omega) initial with ⟨k, hk, digits, bound⟩
      exact ⟨k, hk, digits, by omega⟩

theorem toList_tableAlias (name : String) (use : Nat) :
    (tableAlias name use).toList = name.toList ++ Nat.toDigits 10 use := by
  rw [tableAlias, String.toList_append, Nat.toString_eq_ofList_toDigits, String.toList_ofList]

theorem eq_append_toString {name longer : String} {k : Nat}
    (h : longer.toList = name.toList ++ Nat.toDigits 10 k) : longer = name ++ toString k := by
  apply String.toList_inj.1
  rw [h, String.toList_append, Nat.toString_eq_ofList_toDigits, String.toList_ofList]

/-- The names of two aliases with the same text are equal, or one of them has a number behind the
other one. -/
theorem tableAlias_eq_cases {name other : String} {i j : Nat} (positive : 1 ≤ i)
    (same : tableAlias name i = tableAlias other j) :
    (name = other ∧ i = j) ∨ (∃ k, 1 ≤ k ∧ name = other ++ toString k ∧ 10 * k + 1 ≤ j) ∨
      ∃ rest, rest ≠ [] ∧ other.toList = name.toList ++ rest ∧
        rest ++ Nat.toDigits 10 j = Nat.toDigits 10 i := by
  have characters := congrArg String.toList same
  rw [toList_tableAlias, toList_tableAlias] at characters
  -- one of the names is a part of the other
  rcases List.append_eq_append_iff.1 characters with ⟨rest, longer, digits⟩ | ⟨rest, longer, digits⟩
  · by_cases none : rest = []
    · subst none
      rw [List.append_nil] at longer
      exact .inl ⟨(String.toList_inj.1 longer).symm, toDigits_injective digits⟩
    · exact .inr (.inr ⟨rest, none, longer, digits.symm⟩)
  · by_cases none : rest = []
    · subst none
      rw [List.append_nil] at longer
      exact .inl ⟨String.toList_inj.1 longer, (toDigits_injective digits).symm⟩
    · rcases toDigits_of_append none positive digits.symm with ⟨k, hk, rfl, bound⟩
      exact .inr (.inl ⟨k, hk, eq_append_toString longer, bound⟩)

/-- With a number behind the name, the first alias has the text of another alias. -/
theorem tableAlias_append {name : String} {k : Nat} (positive : 1 ≤ k) :
    tableAlias (name ++ toString k) 1 = tableAlias name (10 * k + 1) := by
  have digits : Nat.toDigits 10 k ++ Nat.toDigits 10 1 = Nat.toDigits 10 (10 * k + 1) :=
    Nat.toDigits_append_toDigits (by omega) positive (by omega)
  apply String.toList_inj.1
  calc
    (tableAlias (name ++ toString k) 1).toList
      = name.toList ++ (Nat.toDigits 10 k ++ Nat.toDigits 10 1) := by
        rw [toList_tableAlias, String.toList_append, Nat.toString_eq_ofList_toDigits,
          String.toList_ofList, List.append_assoc]
    _ = name.toList ++ Nat.toDigits 10 (10 * k + 1) := by rw [digits]
    _ = (tableAlias name (10 * k + 1)).toList := (toList_tableAlias _ _).symm

theorem queryAlias_eq (number : Nat) : queryAlias number = tableAlias "q" number :=
  rfl

/-- A table with the alias of a sub-query is called `q`, possibly with a number behind it. -/
theorem tableAlias_eq_queryAlias_cases {name : String} {i j : Nat} (positive : 1 ≤ i)
    (same : tableAlias name i = queryAlias j) :
    (name = "q" ∧ i = j) ∨ ∃ k, 1 ≤ k ∧ name = "q" ++ toString k ∧ 10 * k + 1 ≤ j := by
  rcases tableAlias_eq_cases positive (same.trans (queryAlias_eq j)) with
    equal | longer | ⟨rest, nonempty, shorter, digits⟩
  · exact .inl equal
  · exact .inr longer
  · -- the letter would be a digit
    exfalso
    have letter : 'q' ∈ rest := by
      have only : "q".toList = ['q'] := rfl
      rw [only] at shorter
      rcases List.cons_eq_append_iff.1 shorter with ⟨-, rfl⟩ | ⟨tail, -, empty⟩
      · exact List.mem_singleton_self _
      · exact absurd (List.append_eq_nil_iff.1 empty.symm).2 nonempty
    have digit := Nat.isDigit_of_mem_toDigits (b := 10) (n := i) (c := 'q') (by omega) (by omega)
      (digits ▸ List.mem_append_left _ letter)
    cases digit

/-! ## Numbered statements -/

/-- All aliases are different, the uses of each table are numbered from one and the sub-queries from
zero, and only sub-queries with an alias are mentioned. -/
structure Expr.Counted (e : Expr Nat) : Prop where
  nodup : e.aliases.Nodup
  table : ∀ name i, .table name i ∈ e.aliases ↔ 1 ≤ i ∧ i ≤ e.useCount name
  query : ∀ j, .query j ∈ e.aliases ↔ j < e.queries.length
  mentioned : ∀ j ∈ e.mentions, .query j ∈ e.aliases

section Counted

variable {e : Expr Nat}

/-- No table is used so often that one of its aliases is that of a table with a number in its
name. -/
def Expr.TablesApart (e : Expr Nat) : Prop :=
  ∀ name k, 1 ≤ k → 0 < e.useCount (name ++ toString k) → e.useCount name ≤ 10 * k

/-- No table of the statement has the alias of one of its sub-queries. -/
def Expr.AliasesApart (e : Expr Nat) : Prop :=
  ∀ entry ∈ e.uses, ∀ key ∈ e.mentions, tableAlias entry.1 entry.2 ≠ queryAlias key

instance (e : Expr Nat) : Decidable e.AliasesApart :=
  inferInstanceAs (Decidable (∀ entry ∈ e.uses, ∀ key ∈ e.mentions,
    tableAlias entry.1 entry.2 ≠ queryAlias key))

/-- There are not so many sub-queries that one of them has the alias of a table. -/
def Expr.QueriesApart (e : Expr Nat) : Prop :=
  (0 < e.useCount "q" → e.queries.length ≤ 1) ∧
    ∀ k, 1 ≤ k → 0 < e.useCount ("q" ++ toString k) → e.queries.length ≤ 10 * k + 1

theorem Expr.Counted.aliasesApart_iff (counted : e.Counted) : e.AliasesApart ↔ e.QueriesApart := by
  have mentioned : ∀ j, j ∈ e.mentions ↔ j < e.queries.length := by
    intro j
    rw [← counted.query]
    exact ⟨counted.mentioned j, mem_mentions_of_aliases⟩
  have used : ∀ name i, (name, i) ∈ e.uses ↔ 1 ≤ i ∧ i ≤ e.useCount name := by
    intro name i
    rw [mem_uses, counted.table]
  constructor
  · intro apart
    constructor
    · intro some
      by_contra many
      -- the first use of a table `q` has the alias of query 1
      exact apart ("q", 1) ((used _ _).2 ⟨by omega, some⟩) 1 ((mentioned 1).2 (by omega)) rfl
    · intro k positive some
      by_contra many
      -- with `k` behind the `q`, it has the alias of query `10 * k + 1`
      exact apart ("q" ++ toString k, 1) ((used _ _).2 ⟨by omega, some⟩) (10 * k + 1)
        ((mentioned _).2 (by omega)) (tableAlias_append positive)
  · rintro ⟨plain, numbered⟩ ⟨name, i⟩ hentry j hj same
    have bounds := (used name i).1 hentry
    have below := (mentioned j).1 hj
    rcases tableAlias_eq_queryAlias_cases bounds.1 same with ⟨rfl, rfl⟩ | ⟨k, positive, rfl, bound⟩
    · have few := plain (by omega)
      omega
    · have few := numbered k positive (by omega)
      omega

/-- The texts of the aliases are different just if tables and sub-queries are few enough. -/
theorem Expr.Counted.nodup_texts_iff (counted : e.Counted) :
    (e.aliases.map Alias.text).Nodup ↔ e.TablesApart ∧ e.QueriesApart := by
  have used : ∀ name i, (name, i) ∈ e.uses ↔ .table name i ∈ e.aliases := fun _ _ => mem_uses
  rw [List.nodup_map_iff_inj_on counted.nodup, ← counted.aliasesApart_iff]
  constructor
  · intro injective
    constructor
    · intro name k positive some
      by_contra many
      -- the first use of the one table and a late use of the other
      have first : Alias.table (name ++ toString k) 1 ∈ e.aliases :=
        (counted.table _ _).2 ⟨by omega, some⟩
      have late : Alias.table name (10 * k + 1) ∈ e.aliases :=
        (counted.table _ _).2 ⟨by omega, by omega⟩
      have equal := injective _ first _ late (tableAlias_append positive)
      have numbers : 1 = 10 * k + 1 := (Alias.table.inj equal).2
      omega
    · intro entry hentry j hj same
      have clash := injective _ ((used _ _).1 hentry) _ (counted.mentioned j hj) same
      cases clash
  · rintro ⟨tables, queries⟩ a ha b hb same
    cases a with
    | table name i =>
      have bounds := (counted.table name i).1 ha
      cases b with
      | table other j =>
        have bounds' := (counted.table other j).1 hb
        rcases tableAlias_eq_cases bounds.1 same with
          ⟨rfl, rfl⟩ | ⟨k, positive, rfl, bound⟩ | ⟨rest, nonempty, longer, digits⟩
        · rfl
        · have few := tables other k positive (by omega)
          omega
        · rcases toDigits_of_append nonempty bounds'.1 digits with ⟨k, positive, rfl, bound⟩
          have named := eq_append_toString longer
          subst named
          have few := tables name k positive (by omega)
          omega
      | query j =>
        exact absurd same (queries (name, i) ((used name i).2 ha) j (mem_mentions_of_aliases hb))
    | query i =>
      cases b with
      | table other j =>
        exact absurd same.symm
          (queries (other, j) ((used other j).2 hb) i (mem_mentions_of_aliases ha))
      | query j => rw [queryAlias_injective same]

end Counted

/-! ## Numbering -/

section Numbering

variable {α : Type} [BEq α] [LawfulBEq α]

theorem nodup_eraseDups (l : List α) : l.eraseDups.Nodup := by
  match l with
  | [] => exact List.nodup_nil
  | a :: l =>
    rw [List.eraseDups_cons]
    refine List.nodup_cons.2 ⟨?_, nodup_eraseDups _⟩
    rw [List.mem_eraseDups, List.mem_filter]
    simp
termination_by l.length
decreasing_by simpa [Nat.lt_succ_iff] using List.length_filter_le _ l

/-- The places in a list without repetitions. -/
theorem exists_idxOf_iff {l : List α} (nodup : l.Nodup) {i : Nat} :
    (∃ a ∈ l, l.idxOf a = i) ↔ i < l.length := by
  constructor
  · rintro ⟨a, ha, rfl⟩
    exact List.idxOf_lt_length_of_mem ha
  · intro bound
    exact ⟨l[i], List.getElem_mem bound, nodup.idxOf_getElem i bound⟩

/-- Counting up to a member of a list is finding its place among those that count. -/
theorem countP_take_idxOf {p : α → Bool} {a : α} {l : List α} (ha : a ∈ l) (counts : p a = true) :
    (l.take (l.idxOf a + 1)).countP p = (l.filter p).idxOf a + 1 := by
  induction l with
  | nil => cases ha
  | cons b l ih =>
    by_cases same : b = a
    · subst same
      simp [counts]
    · have behind : a ∈ l := (List.mem_cons.1 ha).resolve_left (Ne.symm same)
      rw [List.idxOf_cons_ne l same, List.take_succ_cons, List.countP_cons, ih behind]
      by_cases counted : p b = true
      · rw [List.filter_cons_of_pos counted, List.idxOf_cons_ne _ same]
        simp [counted]
      · rw [List.filter_cons_of_neg counted]
        simp [counted]

end Numbering

section Numbered

variable {e : Expr Position}

/-- The uses of one table. -/
def Expr.usesOf (e : Expr Position) (name : String) : List (String × Position) :=
  e.uses.filter fun entry => entry.1 == name

theorem useNumber_eq {name : String} {key : Position} (h : (name, key) ∈ e.uses) :
    e.useNumber name key = (e.usesOf name).idxOf (name, key) + 1 :=
  countP_take_idxOf h (by simp)

theorem nodup_uses (nodup : e.aliases.Nodup) : e.uses.Nodup := by
  rw [Expr.uses_eq]
  refine nodup.filterMap ?_
  intro a b entry ha hb
  have same : a.use? = b.use? := (Option.mem_def.1 ha).trans (Option.mem_def.1 hb).symm
  cases a with
  | query key => cases ha
  | table name key =>
    cases b with
    | query key' => cases hb
    | table other key' =>
      cases same
      rfl

theorem nodup_queries (nodup : e.aliases.Nodup) : e.queries.Nodup := by
  refine nodup.filterMap ?_
  intro a b key ha hb
  have same : a.query? = b.query? := (Option.mem_def.1 ha).trans (Option.mem_def.1 hb).symm
  cases a with
  | table name use => cases ha
  | query key =>
    cases b with
    | table name use => cases hb
    | query key' =>
      cases same
      rfl

theorem uses_numbered (e : Expr Position) :
    e.numbered.uses = e.uses.map fun entry => (entry.1, e.useNumber entry.1 entry.2) := by
  rw [Expr.uses_eq, Expr.uses_eq, Expr.numbered, Expr.aliases_map, List.filterMap_map,
    List.map_filterMap]
  refine List.filterMap_congr fun a _ => ?_
  cases a <;> rfl

theorem useCount_numbered (e : Expr Position) (name : String) :
    e.numbered.useCount name = (e.usesOf name).length := by
  rw [Expr.useCount, uses_numbered, List.countP_map, Expr.usesOf, ← List.countP_eq_length_filter]
  rfl

theorem queries_numbered (e : Expr Position) :
    e.numbered.queries = e.queries.map e.queryNumber := by
  rw [Expr.queries, Expr.queries, Expr.numbered, Expr.aliases_map, List.filterMap_map,
    List.map_filterMap]
  refine List.filterMap_congr fun a _ => ?_
  cases a <;> rfl

theorem mentions_numbered (e : Expr Position) :
    e.numbered.mentions = e.mentions.map e.queryNumber :=
  Expr.mentions_map _ _ e

/-- The uses of a table have different numbers. -/
theorem useNumber_injective {name : String} {key key' : Position} (here : (name, key) ∈ e.uses)
    (there : (name, key') ∈ e.uses) (same : e.useNumber name key = e.useNumber name key') :
    key = key' := by
  rw [useNumber_eq here, useNumber_eq there, Nat.add_right_cancel_iff] at same
  have member : (name, key) ∈ e.usesOf name := List.mem_filter.2 ⟨here, by simp⟩
  exact (Prod.mk.inj ((List.idxOf_inj member).1 same)).2

/-- The uses of a table are numbered from one, without gaps. -/
theorem exists_useNumber_iff (nodup : e.uses.Nodup) {name : String} {i : Nat} :
    (∃ key, (name, key) ∈ e.uses ∧ e.useNumber name key = i) ↔
      1 ≤ i ∧ i ≤ (e.usesOf name).length := by
  constructor
  · rintro ⟨key, here, rfl⟩
    have member : (name, key) ∈ e.usesOf name := List.mem_filter.2 ⟨here, by simp⟩
    have bound := List.idxOf_lt_length_of_mem member
    rw [useNumber_eq here]
    omega
  · rintro ⟨positive, bound⟩
    have below : i - 1 < (e.usesOf name).length := by omega
    have places := exists_idxOf_iff (nodup.filter fun entry => entry.1 == name) (i := i - 1)
    rcases places.2 below with ⟨⟨name', key⟩, member, place⟩
    have named := List.mem_filter.1 member
    have equal : name' = name := by simpa using named.2
    subst equal
    have placed : (e.usesOf name').idxOf (name', key) = i - 1 := place
    refine ⟨key, named.1, ?_⟩
    rw [useNumber_eq named.1, placed, Nat.sub_add_cancel positive]

/-- Numbering gives different aliases different numbers, without gaps. -/
theorem numbered_counted (nodup : e.aliases.Nodup)
    (closed : ∀ key ∈ e.mentions, .query key ∈ e.aliases) : e.numbered.Counted := by
  have mentioned : ∀ key, key ∈ e.mentions.eraseDups ↔ .query key ∈ e.aliases := by
    intro key
    rw [List.mem_eraseDups]
    exact ⟨closed key, Expr.mem_mentions_of_aliases⟩
  -- queries are numbered in the order in which they are mentioned, and all that are have an alias
  have perm : e.queries.Perm e.mentions.eraseDups := by
    rw [List.perm_ext_iff_of_nodup (nodup_queries nodup) (nodup_eraseDups _)]
    intro key
    rw [Expr.mem_queries, mentioned]
  constructor
  case nodup =>
    rw [Expr.numbered, Expr.aliases_map]
    refine nodup.map_on ?_
    intro a ha b hb same
    cases a with
    | table name key =>
      cases b with
      | table other key' =>
        rcases Alias.table.inj same with ⟨rfl, numbers⟩
        rw [useNumber_injective (Expr.mem_uses.2 ha) (Expr.mem_uses.2 hb) numbers]
      | query key' => cases same
    | query key =>
      cases b with
      | table other key' => cases same
      | query key' =>
        have numbers : e.queryNumber key = e.queryNumber key' := Alias.query.inj same
        rw [(List.idxOf_inj ((mentioned key).2 ha)).1 numbers]
  case table =>
    intro name i
    rw [useCount_numbered, ← Expr.mem_uses, uses_numbered,
      ← exists_useNumber_iff (nodup_uses nodup)]
    simp only [List.mem_map, Prod.exists, Prod.mk.injEq]
    constructor
    · rintro ⟨name', key, here, rfl, number⟩
      exact ⟨key, here, number⟩
    · rintro ⟨key, here, number⟩
      exact ⟨name, key, here, rfl, number⟩
  case query =>
    intro j
    rw [← Expr.mem_queries, queries_numbered, List.length_map, perm.length_eq, List.mem_map,
      ← exists_idxOf_iff (nodup_eraseDups e.mentions)]
    simp only [perm.mem_iff]
    rfl
  case mentioned =>
    intro j hj
    rw [mentions_numbered] at hj
    rcases List.mem_map.1 hj with ⟨key, hkey, rfl⟩
    rw [← Expr.mem_queries, queries_numbered]
    exact List.mem_map_of_mem (Expr.mem_queries.2 (closed key hkey))

end Numbered

end Sql
end QueryCalculus
