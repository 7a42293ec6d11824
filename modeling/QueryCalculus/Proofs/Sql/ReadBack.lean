import QueryCalculus.Proofs.Sql.Coverage
import QueryCalculus.Proofs.Sql.ExpressionTokens

/-!
# Texts of statements read back

- `Stops` : what may stand behind a part of a statement
- `Expr.ReadsAs` : the tokens of an expression are read as this expression
- `readStatement_render` : the text of a statement is read as this statement
- `formula_sorted` : conditions and statements stand where they belong
- `readStatement_compile` : the text of a compiled statement is read as this statement

Every part is read with what stands behind it, which is left over.
-/

namespace QueryCalculus
namespace Sql

/-! ## What stands behind -/

/-- Nothing, a closing parenthesis or one of the keywords stands here. -/
inductive Stops (ks : List Keyword) : List Token → Prop
  | ended : Stops ks []
  | closed (ts : List Token) : Stops ks (.symbol ')' :: ts)
  | keyword {k : Keyword} (ts : List Token) (h : k ∈ ks) : Stops ks (.keyword k :: ts)

variable {ks : List Keyword} {n : Nat} {rest : List Token}

theorem Stops.mono {ls : List Keyword} (h : Stops ks rest) (subset : ks ⊆ ls) : Stops ls rest := by
  cases h with
  | ended => exact .ended
  | closed ts => exact .closed ts
  | keyword ts h => exact .keyword ts (subset h)

theorem stops_fromTokens (tss : List (List Token)) (h : Stops [.WHERE, .LIMIT] rest) :
    Stops [.FROM, .WHERE, .LIMIT] (fromTokens tss ++ rest) := by
  cases tss with
  | nil => exact h.mono (List.subset_cons_self _ _)
  | cons ts tss => exact .keyword _ List.mem_cons_self

theorem stops_whereTokens (tss : List (List Token)) (h : Stops [.LIMIT] rest) :
    Stops [.WHERE, .LIMIT] (whereTokens tss ++ rest) := by
  cases tss with
  | nil => exact h.mono (List.subset_cons_self _ _)
  | cons ts tss => exact .keyword _ List.mem_cons_self

theorem stops_ands (tss : List (List Token)) (h : Stops [.LIMIT] rest) :
    Stops [.AND, .LIMIT] (tss.flatMap ([.keyword .AND] ++ ·) ++ rest) := by
  cases tss with
  | nil => exact h.mono (List.subset_cons_self _ _)
  | cons ts tss => exact .keyword _ List.mem_cons_self

/-! ## Scalars and columns -/

theorem readScalar_name {name : String} (dot : rest.head? ≠ some (.symbol '.')) :
    readScalar (.name name :: rest) = some (.column name, rest) := by
  rw [readScalar]
  rintro column ts rfl
  exact dot rfl

theorem readScalar_constant (c : Constant) (rest : List Token) :
    readScalar (constantToken c :: rest) = some (.literal (constantLiteral c), rest) := by
  cases c with
  | object iri => rfl
  | data value datatype =>
    simp only [constantToken, constantLiteral]
    split
    · cases Text.sameIgnoringAsciiCase value "true" <;> rfl
    · split <;> rfl

theorem readScalar_operand (o : Operand Nat) (dot : rest.head? ≠ some (.symbol '.')) :
    readScalar (o.tokens ++ rest) = some (o.scalar, rest) := by
  cases o with
  | reference query x => rfl
  | bare x => exact readScalar_name dot
  | column name => exact readScalar_name dot
  | constant c => exact readScalar_constant c rest

theorem readRelation_of_stops (h : Stops ks rest) : readRelation rest = none := by
  cases h <;> rfl

theorem Stops.head_ne_symbol (h : Stops ks rest) {c : Char} (other : c ≠ ')') :
    rest.head? ≠ some (.symbol c) := by
  cases h <;> simp [other.symm]

theorem readComparison_compare (relation : Relation) (left right : Operand Nat)
    (h : Stops ks rest) :
    readComparison (left.tokens ++ (relationTokens relation ++ right.tokens) ++ rest) =
      some (.compare relation left.scalar right.scalar, rest) := by
  have first : readScalar (left.tokens ++ (relationTokens relation ++ (right.tokens ++ rest))) =
      some (left.scalar, relationTokens relation ++ (right.tokens ++ rest)) :=
    readScalar_operand left (by cases relation <;> simp [relationTokens])
  have middle : readRelation (relationTokens relation ++ (right.tokens ++ rest)) =
      some (relation, right.tokens ++ rest) := by
    cases relation <;> rfl
  have second := readScalar_operand right (h.head_ne_symbol (c := '.') (by decide))
  simp only [List.append_assoc, readComparison, first, middle, second, Option.bind_eq_bind,
    Option.bind_some]
  rfl

theorem readComparison_truth (value : Bool) (h : Stops ks rest) :
    readComparison (.keyword (if value then .TRUE else .FALSE) :: rest) =
      some (.truth value, rest) := by
  cases value <;> simp [readComparison, readScalar, readRelation_of_stops h]

/-- What begins with an operand is a comparison. -/
theorem readFactor_operand (o : Operand Nat) (rest : List Token) :
    readFactor n (o.tokens ++ rest) = readComparison (o.tokens ++ rest) := by
  cases o with
  | constant c =>
    cases c with
    | object iri => cases n <;> rfl
    | data value datatype =>
      simp only [Operand.tokens, constantToken]
      split
      · cases Text.sameIgnoringAsciiCase value "true" <;> cases n <;> rfl
      · split <;> cases n <;> rfl
  | _ => cases n <;> rfl

theorem readOutput_column (c : Column) (dot : rest.head? ≠ some (.symbol '.'))
    (label : rest.head? ≠ some (.keyword .AS)) :
    readOutput (c.tokens ++ rest) = some (c.output, rest) := by
  unfold Column.tokens Column.output Column.name
  cases c.label with
  | some text => rfl
  | none =>
    simp only [List.cons_append, List.nil_append, readOutput, readScalar_name dot,
      Option.bind_eq_bind, Option.bind_some]
    split
    · exact absurd rfl label
    · rfl

theorem one_le_length_tokens (c : Column) : 1 ≤ c.tokens.length := by
  rw [Column.tokens, List.length_cons]
  omega

theorem readOutputs_join (c : Column) (cs : List Column) (h : Stops [.FROM, .WHERE, .LIMIT] rest)
    (enough : (joinTokens [.symbol ','] ((c :: cs).map Column.tokens)).length ≤ n) :
    readOutputs n (joinTokens [.symbol ','] ((c :: cs).map Column.tokens) ++ rest) =
      some ((c :: cs).map Column.output, rest) := by
  have taken := one_le_length_tokens c
  induction cs generalizing c n with
  | nil =>
    simp only [joinTokens, List.map_cons, List.map_nil, List.flatMap_nil, List.append_nil] at enough
    obtain ⟨m, rfl⟩ : ∃ m, n = m + 1 := ⟨n - 1, by omega⟩
    have label : rest.head? ≠ some (.keyword .AS) := by
      cases h with
      | keyword ts member =>
        rintro ⟨⟩
        simp at member
      | _ => simp
    have read := readOutput_column c (h.head_ne_symbol (c := '.') (by decide)) label
    have last : joinTokens [.symbol ','] ([c].map Column.tokens) ++ rest = c.tokens ++ rest := by
      simp [joinTokens]
    rw [last, readOutputs, read]
    cases h <;> rfl
  | cons d ds ih =>
    have further : (joinTokens [.symbol ','] ((d :: ds).map Column.tokens)).length + 1 < n := by
      simp only [joinTokens, List.map_cons, List.flatMap_cons, List.length_append, List.length_cons,
        List.length_nil] at enough ⊢
      omega
    obtain ⟨m, rfl⟩ : ∃ m, n = m + 1 := ⟨n - 1, by omega⟩
    have more : joinTokens [.symbol ','] ((c :: d :: ds).map Column.tokens) ++ rest =
        c.tokens ++ .symbol ',' ::
          (joinTokens [.symbol ','] ((d :: ds).map Column.tokens) ++ rest) := by
      simp [joinTokens]
    rw [more, readOutputs, readOutput_column c (by simp) (by simp)]
    simp only [Option.bind_eq_bind, Option.bind_some]
    rw [ih d (by omega) (one_le_length_tokens d)]
    rfl

theorem readOutputs_columnTokens (columns : List Column) (h : Stops [.FROM, .WHERE, .LIMIT] rest)
    (enough : (columnTokens columns).length ≤ n) :
    readOutputs n (columnTokens columns ++ rest) = some (outputsOf columns, rest) := by
  cases columns with
  | nil =>
    obtain ⟨m, rfl⟩ : ∃ m, n = m + 1 := ⟨n - 1, by simp [columnTokens] at enough; omega⟩
    cases h with
    | keyword ts member =>
      simp only [List.mem_cons, List.not_mem_nil, or_false] at member
      rcases member with rfl | rfl | rfl <;> rfl
    | _ => rfl
  | cons c cs => exact readOutputs_join c cs h enough

/-! ## Conditions, sources and statements -/

/-- The tokens of an expression are read as this expression, whatever may stand behind it. -/
structure Expr.ReadsAs (e : Expr Nat) : Prop where
  condition : e.isCondition = true → ∀ n rest, e.tokens.length ≤ n → Stops [.AND, .LIMIT] rest →
    readFactor n (e.tokens ++ rest) = some (e.condition, rest)
  source : e.isSource = true → ∀ n rest, e.tokens.length ≤ n →
    readSource n (e.tokens ++ rest) = some (e.source, rest)
  statement : e.isStatement = true → ∀ n rest, e.tokens.length ≤ n → Stops [] rest →
    readQuery n (e.tokens ++ rest) = some (e.statement, rest)

section Lists

variable {es : List (Expr Nat)}

theorem readAnds_append (each : ∀ e ∈ es, e.ReadsAs) (sorts : ∀ e ∈ es, e.isCondition = true)
    (before : Condition) (h : Stops [.LIMIT] rest)
    (enough : ((es.map Expr.tokens).flatMap ([.keyword .AND] ++ ·)).length ≤ n) :
    readAnds n before ((es.map Expr.tokens).flatMap ([.keyword .AND] ++ ·) ++ rest) =
      some ((es.map Expr.condition).foldl .both before, rest) := by
  induction es generalizing before n with
  | nil =>
    cases h with
    | keyword ts member =>
      rw [List.mem_singleton.1 member]
      cases n <;> rfl
    | _ => cases n <;> rfl
  | cons e es ih =>
    simp only [List.map_cons, List.flatMap_cons, List.length_append,
      List.length_singleton] at enough
    obtain ⟨m, rfl⟩ : ∃ m, n = m + 1 := ⟨n - 1, by omega⟩
    have texts : ((e :: es).map Expr.tokens).flatMap ([.keyword .AND] ++ ·) ++ rest =
        .keyword .AND ::
          (e.tokens ++ ((es.map Expr.tokens).flatMap ([.keyword .AND] ++ ·) ++ rest)) := by
      simp
    have first := (each e List.mem_cons_self).condition (sorts e List.mem_cons_self) m _
      (by omega) (stops_ands (es.map Expr.tokens) h)
    rw [texts, readAnds, first]
    exact ih (fun e he => each e (List.mem_cons_of_mem _ he))
      (fun e he => sorts e (List.mem_cons_of_mem _ he)) _ (by omega)

theorem readJoins_append (each : ∀ e ∈ es, e.ReadsAs) (sorts : ∀ e ∈ es, e.isSource = true)
    (before : Source) (h : Stops [.WHERE, .LIMIT] rest)
    (enough :
      ((es.map Expr.tokens).flatMap ([.keyword .NATURAL, .keyword .JOIN] ++ ·)).length ≤ n) :
    readJoins n before
        ((es.map Expr.tokens).flatMap ([.keyword .NATURAL, .keyword .JOIN] ++ ·) ++ rest) =
      some ((es.map Expr.source).foldl .natural before, rest) := by
  induction es generalizing before n with
  | nil =>
    cases h with
    | keyword ts member =>
      simp only [List.mem_cons, List.not_mem_nil, or_false] at member
      rcases member with rfl | rfl <;> cases n <;> rfl
    | _ => cases n <;> rfl
  | cons e es ih =>
    simp only [List.map_cons, List.flatMap_cons, List.length_append, List.length_cons,
      List.length_nil] at enough
    obtain ⟨m, rfl⟩ : ∃ m, n = m + 1 := ⟨n - 1, by omega⟩
    have texts :
        ((e :: es).map Expr.tokens).flatMap ([.keyword .NATURAL, .keyword .JOIN] ++ ·) ++ rest =
          .keyword .NATURAL :: .keyword .JOIN :: (e.tokens ++
            ((es.map Expr.tokens).flatMap ([.keyword .NATURAL, .keyword .JOIN] ++ ·) ++ rest)) := by
      simp
    have first := fun rest => (each e List.mem_cons_self).source (sorts e List.mem_cons_self) m rest
      (by omega)
    rw [texts, readJoins, first]
    exact ih (fun e he => each e (List.mem_cons_of_mem _ he))
      (fun e he => sorts e (List.mem_cons_of_mem _ he)) _ (by omega)

theorem readFrom_fromTokens (each : ∀ e ∈ es, e.ReadsAs) (sorts : ∀ e ∈ es, e.isSource = true)
    (h : Stops [.WHERE, .LIMIT] rest) (enough : (fromTokens (es.map Expr.tokens)).length ≤ n) :
    readFrom n (fromTokens (es.map Expr.tokens) ++ rest) =
      some (.joined (es.map Expr.source), rest) := by
  cases es with
  | nil =>
    cases h with
    | keyword ts member =>
      simp only [List.mem_cons, List.not_mem_nil, or_false] at member
      rcases member with rfl | rfl <;> cases n <;> rfl
    | _ => cases n <;> rfl
  | cons e es =>
    simp only [List.map_cons, fromTokens, joinTokens, List.length_cons,
      List.length_append] at enough
    obtain ⟨m, rfl⟩ : ∃ m, n = m + 1 := ⟨n - 1, by omega⟩
    have texts : fromTokens ((e :: es).map Expr.tokens) ++ rest =
        .keyword .FROM :: (e.tokens ++
          ((es.map Expr.tokens).flatMap ([.keyword .NATURAL, .keyword .JOIN] ++ ·) ++ rest)) := by
      simp [fromTokens, joinTokens]
    have first := fun rest => (each e List.mem_cons_self).source (sorts e List.mem_cons_self) m rest
      (by omega)
    rw [texts, readFrom, first]
    exact readJoins_append (fun e he => each e (List.mem_cons_of_mem _ he))
      (fun e he => sorts e (List.mem_cons_of_mem _ he)) _ h (by omega)

theorem readWhere_whereTokens (each : ∀ e ∈ es, e.ReadsAs)
    (sorts : ∀ e ∈ es, e.isCondition = true) (h : Stops [.LIMIT] rest)
    (enough : (whereTokens (es.map Expr.tokens)).length ≤ n) :
    readWhere n (whereTokens (es.map Expr.tokens) ++ rest) =
      some (.all (es.map Expr.condition), rest) := by
  cases es with
  | nil =>
    cases h with
    | keyword ts member =>
      rw [List.mem_singleton.1 member]
      cases n <;> rfl
    | _ => cases n <;> rfl
  | cons e es =>
    simp only [List.map_cons, whereTokens, joinTokens, List.length_cons,
      List.length_append] at enough
    obtain ⟨m, rfl⟩ : ∃ m, n = m + 1 := ⟨n - 1, by omega⟩
    have texts : whereTokens ((e :: es).map Expr.tokens) ++ rest =
        .keyword .WHERE ::
          (e.tokens ++ ((es.map Expr.tokens).flatMap ([.keyword .AND] ++ ·) ++ rest)) := by
      simp [whereTokens, joinTokens]
    have first := (each e List.mem_cons_self).condition (sorts e List.mem_cons_self) m _
      (by omega) (stops_ands (es.map Expr.tokens) h)
    rw [texts, readWhere, first]
    exact readAnds_append (fun e he => each e (List.mem_cons_of_mem _ he))
      (fun e he => sorts e (List.mem_cons_of_mem _ he)) _ h (by omega)

end Lists

/-- A condition in parentheses. -/
theorem readFactor_parenthesized {ts behind : List Token} {first condition : Condition}
    (start : readFactor n (ts ++ .symbol ')' :: rest) = some (first, behind))
    (ands : readAnds n first behind = some (condition, .symbol ')' :: rest)) :
    readFactor (n + 1) (parenthesized ts ++ rest) = some (condition, rest) := by
  have tokens : parenthesized ts ++ rest = .symbol '(' :: (ts ++ .symbol ')' :: rest) := by
    simp [parenthesized]
  rw [tokens, readFactor, start]
  simp only [Option.bind_eq_bind, Option.bind_some, ands]
  rfl

theorem readAnds_closed (before : Condition) (rest : List Token) :
    readAnds n before (.symbol ')' :: rest) = some (before, .symbol ')' :: rest) := by
  cases n <;> rfl

theorem readDistinct_append (distinct : Bool) (columns : List Column) (rest : List Token) :
    readDistinct
        ((if distinct then [.keyword .DISTINCT] else []) ++ (columnTokens columns ++ rest)) =
      (distinct, columnTokens columns ++ rest) := by
  cases distinct with
  | true => rfl
  | false => cases columns <;> rfl

theorem readLimit_append (limitOne : Bool) (h : Stops [] rest) :
    readLimit ((if limitOne then [.keyword .LIMIT, .number "1"] else []) ++ rest) =
      (limitOne, rest) := by
  cases limitOne with
  | true => rfl
  | false =>
    cases h with
    | keyword ts member => cases member
    | _ => rfl

/-! ## One sort of expressions after the other -/

section Sorts

variable {e : Expr Nat}

theorem readsAs_of_condition (source : e.isSource = false) (statement : e.isStatement = false)
    (read : ∀ n rest, e.tokens.length ≤ n → Stops [.AND, .LIMIT] rest →
      readFactor n (e.tokens ++ rest) = some (e.condition, rest)) : e.ReadsAs where
  condition _ := read
  source h := absurd (source.symm.trans h) Bool.false_ne_true
  statement h := absurd (statement.symm.trans h) Bool.false_ne_true

theorem readsAs_of_source (condition : e.isCondition = false) (statement : e.isStatement = false)
    (read : ∀ n rest, e.tokens.length ≤ n →
      readSource n (e.tokens ++ rest) = some (e.source, rest)) : e.ReadsAs where
  condition h := absurd (condition.symm.trans h) Bool.false_ne_true
  source _ := read
  statement h := absurd (statement.symm.trans h) Bool.false_ne_true

theorem readsAs_of_statement (condition : e.isCondition = false) (source : e.isSource = false)
    (read : ∀ n rest, e.tokens.length ≤ n → Stops [] rest →
      readQuery n (e.tokens ++ rest) = some (e.statement, rest)) : e.ReadsAs where
  condition h := absurd (condition.symm.trans h) Bool.false_ne_true
  source h := absurd (source.symm.trans h) Bool.false_ne_true
  statement _ := read

theorem readsAs_truth (value : Bool) : (Expr.truth value : Expr Nat).ReadsAs := by
  refine readsAs_of_condition rfl rfl fun n rest enough h => ?_
  have read := readComparison_truth value h
  cases value <;> cases n <;> exact read

theorem readsAs_compare (relation : Relation) (left right : Operand Nat) :
    (Expr.compare relation left right).ReadsAs := by
  refine readsAs_of_condition rfl rfl fun n rest enough h => ?_
  have read := readComparison_compare relation left right h
  rw [Expr.tokens, List.append_assoc, readFactor_operand, ← List.append_assoc]
  exact read

theorem readsAs_equate (column : String) (value : Operand Nat) :
    (Expr.equate column value).ReadsAs := by
  refine readsAs_of_condition rfl rfl fun n rest enough h => ?_
  have read := readComparison_compare .equal (.column column) value h
  cases n <;> exact read

theorem readsAs_group {es : List (Expr Nat)} (each : ∀ e ∈ es, e.ReadsAs) (nonempty : es ≠ [])
    (sorts : ∀ e ∈ es, e.isCondition = true) : (Expr.group es).ReadsAs := by
  refine readsAs_of_condition rfl rfl fun n rest enough h => ?_
  rcases List.exists_cons_of_ne_nil nonempty with ⟨e, es, rfl⟩
  simp only [Expr.tokens, parenthesized, tokensAll_eq_map, joinTokens, List.map_cons,
    List.length_cons, List.length_append] at enough
  obtain ⟨m, rfl⟩ : ∃ m, n = m + 1 := ⟨n - 1, by omega⟩
  have stops : Stops [.LIMIT] (.symbol ')' :: rest) := .closed rest
  have first := (each e List.mem_cons_self).condition (sorts e List.mem_cons_self) m _
    (by omega) (stops_ands (es.map Expr.tokens) stops)
  have ands := readAnds_append (n := m) (fun e he => each e (List.mem_cons_of_mem _ he))
    (fun e he => sorts e (List.mem_cons_of_mem _ he)) e.condition stops (by omega)
  rw [Expr.tokens, Expr.condition, tokensAll_eq_map, conditionsOf_eq_map]
  refine readFactor_parenthesized ?_ ands
  rw [List.map_cons, joinTokens, List.append_assoc]
  exact first

theorem readsAs_not {layout : Layout} (inside : e.ReadsAs) (sort : e.isCondition = true) :
    (Expr.not layout e).ReadsAs := by
  refine readsAs_of_condition rfl rfl fun n rest enough h => ?_
  simp only [Expr.tokens, parenthesized, List.length_cons, List.length_append] at enough
  obtain ⟨m, rfl⟩ : ∃ m, n = m + 2 := ⟨n - 2, by omega⟩
  have read := inside.condition sort m _ (by omega) (.closed rest)
  have closed := readFactor_parenthesized read (readAnds_closed e.condition rest)
  rw [Expr.tokens, List.cons_append, readFactor, closed]
  rfl

theorem readsAs_exist (inside : e.ReadsAs) (sort : e.isStatement = true) :
    (Expr.exist e).ReadsAs := by
  refine readsAs_of_condition rfl rfl fun n rest enough h => ?_
  simp only [Expr.tokens, parenthesized, List.length_cons, List.length_append] at enough
  obtain ⟨m, rfl⟩ : ∃ m, n = m + 1 := ⟨n - 1, by omega⟩
  have read := inside.statement sort m _ (by omega) (.closed rest)
  simp only [Expr.tokens, parenthesized, List.cons_append, List.append_assoc, List.nil_append]
  rw [readFactor, read]
  rfl

theorem readsAs_table (name : String) (use : Nat) : (Expr.table name use).ReadsAs := by
  refine readsAs_of_source rfl rfl fun n rest enough => ?_
  cases n <;> rfl

theorem readsAs_derived {layout : Layout} (inside : e.ReadsAs) (sort : e.isStatement = true)
    (key : Nat) : (Expr.derived layout e key).ReadsAs := by
  refine readsAs_of_source rfl rfl fun n rest enough => ?_
  simp only [Expr.tokens, parenthesized, List.length_cons, List.length_append] at enough
  obtain ⟨m, rfl⟩ : ∃ m, n = m + 1 := ⟨n - 1, by omega⟩
  have read := inside.statement sort m _ (by omega) (.closed (.name (queryAlias key) :: rest))
  simp only [Expr.tokens, parenthesized, List.cons_append, List.append_assoc, List.nil_append]
  rw [readSource, read]
  rfl

theorem readsAs_select {distinct limitOne : Bool} {columns : List Column}
    {sources conditions : List (Expr Nat)} (eachSource : ∀ e ∈ sources, e.ReadsAs)
    (eachCondition : ∀ e ∈ conditions, e.ReadsAs)
    (sorts : (∀ e ∈ sources, e.isSource = true) ∧ ∀ e ∈ conditions, e.isCondition = true) :
    (Expr.select distinct columns sources conditions limitOne).ReadsAs := by
  refine readsAs_of_statement rfl rfl fun n rest enough h => ?_
  rw [Expr.tokens, tokensAll_eq_map, tokensAll_eq_map] at enough ⊢
  simp only [List.length_cons, List.length_append] at enough
  obtain ⟨m, rfl⟩ : ∃ m, n = m + 1 := ⟨n - 1, by omega⟩
  simp only [List.cons_append, List.append_assoc]
  rw [Expr.statement, conditionsOf_eq_map, sourcesOf_eq_map]
  -- the clauses are read from the last one on, each with those behind it as its rest
  have limit := readLimit_append limitOne h
  have stops : Stops [.LIMIT]
      ((if limitOne then [.keyword .LIMIT, .number "1"] else []) ++ rest) := by
    cases limitOne with
    | true => exact .keyword _ List.mem_cons_self
    | false => exact h.mono (List.nil_subset _)
  have condition := readWhere_whereTokens (n := m) eachCondition sorts.2 stops (by omega)
  have behind := stops_whereTokens (conditions.map Expr.tokens) stops
  have source := readFrom_fromTokens (n := m) eachSource sorts.1 behind (by omega)
  have outputs := readOutputs_columnTokens (n := m) columns
    (stops_fromTokens (sources.map Expr.tokens) behind) (by omega)
  simp only [readQuery, readDistinct_append, outputs, source, condition, limit,
    Option.bind_eq_bind, Option.bind_some]
  rfl

end Sorts

theorem readsAs {e : Expr Nat} (sorted : e.Throughout Expr.Sorted) : e.ReadsAs := by
  have only (e : Expr Nat) : e ∈ [e] := List.mem_singleton_self e
  induction e with
  | truth value => exact readsAs_truth value
  | compare relation left right => exact readsAs_compare relation left right
  | equate column value => exact readsAs_equate column value
  | any es => exact absurd sorted.self id
  | group es ih =>
    have each := fun e member => ih e member (sorted.child member)
    exact readsAs_group each sorted.self.1 sorted.self.2
  | not layout e ih => exact readsAs_not (ih (sorted.child (only e))) sorted.self
  | exist e ih => exact readsAs_exist (ih (sorted.child (only e))) sorted.self
  | table name use => exact readsAs_table name use
  | derived layout e key ih => exact readsAs_derived (ih (sorted.child (only e))) sorted.self key
  | unionAll es => exact absurd sorted.self id
  | select distinct columns sources conditions limitOne hs hc =>
    have eachSource := fun e member => hs e member (sorted.child (List.mem_append_left _ member))
    have eachCondition := fun e member =>
      hc e member (sorted.child (List.mem_append_right _ member))
    exact readsAs_select eachSource eachCondition sorted.self

/-- The text of a statement is read as the statement. -/
theorem readStatement_render {e : Expr Nat} (statement : e.isStatement = true)
    (sorted : e.Throughout Expr.Sorted) (words : e.Throughout Expr.Writable)
    (kept : ∀ q ∈ e.quoted, q.Kept) : readStatement e.render = some e.statement := by
  have read := (readsAs sorted).statement statement e.tokens.length [] le_rfl .ended
  rw [List.append_nil] at read
  simp only [readStatement, tokenize_render sorted words kept, read, Option.bind_eq_bind,
    Option.bind_some]
  rfl

/-! ## Compiled statements -/

section Sorts

variable {κ μ : Type} {query : κ → μ} {use : String → κ → μ} {e : Expr κ}

theorem isCondition_map : (e.map query use).isCondition = e.isCondition := by
  cases e <;> rfl

theorem isSource_map : (e.map query use).isSource = e.isSource := by
  cases e <;> rfl

theorem isStatement_map : (e.map query use).isStatement = e.isStatement := by
  cases e <;> rfl

theorem sorted_map (h : e.Sorted) : (e.map query use).Sorted := by
  cases e with
  | group es =>
    rw [Expr.map, mapAll_eq_map]
    refine ⟨by simpa using h.1, List.forall_mem_map.2 fun e he => ?_⟩
    rw [isCondition_map]
    exact h.2 e he
  | not layout e =>
    exact isCondition_map.trans h
  | exist e => exact isStatement_map.trans h
  | derived layout e key => exact isStatement_map.trans h
  | select distinct columns sources conditions limitOne =>
    rw [Expr.map, mapAll_eq_map, mapAll_eq_map]
    refine ⟨List.forall_mem_map.2 fun e he => ?_, List.forall_mem_map.2 fun e he => ?_⟩
    · rw [isSource_map]
      exact h.1 e he
    · rw [isCondition_map]
      exact h.2 e he
  | any es => exact h
  | unionAll es => exact h
  | _ => trivial

end Sorts

section Compiled

variable {ctx : Context} {t : Task}

/-- What is compiled for a part is a condition if nothing is requested inside of a statement, and a
statement otherwise. -/
structure Task.Produces (t : Task) (e : Expr Position) : Prop where
  sorted : e.Throughout Expr.Sorted
  condition : t.requested.isEmpty = true → t.outermost = false → e.isCondition = true
  statement : (t.requested.isEmpty = true → t.outermost = true) → e.isStatement = true

theorem produces_select {columns : List Column} {sources conditions : List (Expr Position)}
    (empty : columns.isEmpty = t.requested.isEmpty)
    (hs : ∀ s ∈ sources, s.Throughout Expr.Sorted ∧ s.isSource = true)
    (hc : ∀ c ∈ conditions, c.Throughout Expr.Sorted ∧ c.isCondition = true) :
    t.Produces (ctx.select t.outermost columns sources conditions) := by
  have inside : (Expr.select (ctx.distinct && t.outermost) (Column.sort columns) sources conditions
      (columns.isEmpty && t.outermost)).Throughout Expr.Sorted := by
    refine Expr.throughout_iff.2
      ⟨⟨fun s member => (hs s member).2, fun c member => (hc c member).2⟩,
      List.forall_mem_append.2 ⟨fun s member => (hs s member).1, fun c member => (hc c member).1⟩⟩
  unfold Context.select
  split
  · rename_i test
    simp only [empty, Bool.and_eq_true, Bool.not_eq_true'] at test
    refine ⟨Expr.throughout_iff.2 ⟨rfl, List.forall_mem_singleton.2 inside⟩, fun _ _ => rfl, ?_⟩
    intro outside
    exact absurd (outside test.1) (by simp [test.2])
  · rename_i test
    simp only [empty, Bool.and_eq_true, Bool.not_eq_true'] at test
    exact ⟨inside, fun none inner => absurd ⟨none, inner⟩ test, fun _ => rfl⟩

theorem produces_conditionOr {c : Expr Position} (none : t.requested.isEmpty = true)
    (sorted : c.Throughout Expr.Sorted) (condition : c.isCondition = true) :
    t.Produces (ctx.conditionOr t.outermost c) := by
  cases outermost : t.outermost with
  | true =>
    have statement : t.Produces (ctx.select t.outermost [] [] [c]) :=
      produces_select none.symm (by simp) (List.forall_mem_singleton.2 ⟨sorted, condition⟩)
    rw [outermost] at statement
    exact statement
  | false =>
    refine ⟨sorted, fun _ _ => condition, fun outside => ?_⟩
    exact absurd (outside none) (by simp [outermost])

theorem sorted_group {es : List (Expr Position)} (nonempty : es ≠ [])
    (each : ∀ e ∈ es, e.Throughout Expr.Sorted ∧ e.isCondition = true) :
    (Expr.group es).Throughout Expr.Sorted :=
  Expr.throughout_iff.2 ⟨⟨nonempty, fun e he => (each e he).2⟩, fun e he => (each e he).1⟩

theorem sorted_guarded {several : Bool} {entries : List (Formula × Nat)}
    {conditions : List (Expr Position)}
    (each : List.Forall₂ (fun _ c => c.Throughout Expr.Sorted ∧ c.isCondition = true) entries
      conditions) :
    ∀ c ∈ guarded several entries conditions,
      c.Throughout Expr.Sorted ∧ c.isCondition = true := by
  have among : List.Forall₂ (fun (entry : Formula × Nat) c =>
      ((amongConditions several entry.1 c).Throughout Expr.Sorted ∧
        (amongConditions several entry.1 c).isCondition = true) ↔ True) entries conditions := by
    refine each.imp fun entry c h => iff_true_intro ?_
    unfold amongConditions
    split
    · exact ⟨sorted_group (List.cons_ne_nil _ _) (List.forall_mem_singleton.2 h), rfl⟩
    · exact h
  exact (forall_mem_zipWith_iff among).2 fun _ _ => trivial

theorem sorted_grouped {es : List (Expr Position)}
    (each : ∀ e ∈ es, e.Throughout Expr.Sorted ∧ e.isCondition = true) :
    ∀ e ∈ grouped es, e.Throughout Expr.Sorted ∧ e.isCondition = true := by
  unfold grouped
  split
  · simp
  · rename_i some
    exact List.forall_mem_singleton.2 ⟨sorted_group (by simpa using some) each, rfl⟩

theorem sorted_sources {parts : List Formula} {queries : List (Expr Position)}
    (each : List.Forall₂ (fun entry q => (t.join (t.wanted parts) entry.1 entry.2).Produces q)
      (t.joined parts) queries) :
    ∀ s ∈ t.sources (t.joined parts) queries, s.Throughout Expr.Sorted ∧ s.isSource = true := by
  have derived : List.Forall₂ (fun entry q =>
      ((Expr.derived (layoutOf entry.1) q (entry.2 :: t.position)).Throughout Expr.Sorted ∧
        (Expr.derived (layoutOf entry.1) q (entry.2 :: t.position)).isSource = true) ↔ True)
      (t.joined parts) queries := by
    refine forall₂_imp_mem each fun entry hentry q h => iff_true_intro ⟨?_, rfl⟩
    -- something is requested of a joined part
    have some := Task.requested_join_nonempty hentry
    have statement := h.statement fun none => absurd (some.symm.trans none) (by simp)
    exact Expr.throughout_iff.2 ⟨statement, List.forall_mem_singleton.2 h.sorted⟩
  exact (forall_mem_zipWith_iff derived).2 fun _ _ => trivial

/-- What is compiled for the parts of a range-restricted formula has the right sort. -/
theorem formula_sorted {f : Formula} {e : Expr Position} (compiled : ctx.formula t f = .ok e)
    (fits : t.Fits f) (restricted : ∃ known, f.rangeRestricted known = true) : t.Produces e := by
  have leaf : ∀ {c : Expr Position}, c.children = [] → c.Sorted → c.Throughout Expr.Sorted :=
    Expr.throughout_leaf
  refine Context.formula_induction
    (I := fun t f => t.Fits f ∧ ∃ known, f.rangeRestricted known = true)
    (motive := fun t f e => t.Produces e)
    ?step ?truth ?comparison ?predicate ?empty ?single ?filter ?join ?alternatives ?negComparison
    ?negNeg ?neg ?exist compiled ⟨fits, restricted⟩
  case step =>
    rintro t f ⟨fits, restricted⟩ next below
    exact ⟨fits.subtask below, Task.restricted_subtask restricted below⟩
  case truth =>
    intro t b inv
    exact produces_conditionOr (inv.1.isEmpty fun _ => Formula.not_mem_selectable_truth)
      (leaf rfl trivial) rfl
  case comparison =>
    intro t c inv
    exact produces_conditionOr (inv.1.isEmpty fun _ => Formula.not_mem_selectable_comparison)
      (leaf rfl trivial) rfl
  case predicate =>
    intro t a table inv found
    have lengths := (Context.tableFor_ok found).2
    refine produces_select (Context.offers_scan inv.1 lengths).isEmpty_eq ?_ fun c hc => ?_
    · exact List.forall_mem_singleton.2 ⟨leaf rfl trivial, rfl⟩
    · rcases Context.scan_conditions_equate c hc with ⟨column, value, rfl⟩
      exact ⟨leaf rfl trivial, rfl⟩
  case empty =>
    intro t c inv
    cases c with
    | and =>
      exact produces_conditionOr (inv.1.isEmpty fun _ => Formula.not_mem_selectable_empty)
        (leaf rfl trivial) rfl
    | or =>
      rcases inv.2 with ⟨known, restricted⟩
      simp [Formula.rangeRestricted] at restricted
  case single => exact fun t c part e inv ih => ⟨ih.sorted, ih.condition, ih.statement⟩
  case filter =>
    intro t parts conditions inv several complete unjoined some ih
    have nonempty : guarded (t.several parts) (t.conditional parts) conditions ≠ [] := by
      rw [Ne, guarded_eq_nil_iff ih.length_eq]
      rintro none
      exact some (List.length_eq_zero_iff.1 (by rw [← ih.length_eq, none]; rfl))
    exact produces_conditionOr (Task.requested_isEmpty complete unjoined) (sorted_group nonempty
      (sorted_guarded (ih.imp fun entry c h => ⟨h.sorted, h.condition rfl rfl⟩))) rfl
  case join =>
    intro t parts queries conditions inv several complete joined compiled ih ih'
    exact produces_select (by simp [VarSet.isEmpty]) (sorted_sources ih)
      (sorted_grouped (sorted_guarded (ih'.imp fun entry c h => ⟨h.sorted, h.condition rfl rfl⟩)))
  case alternatives =>
    intro t parts es inv
    -- disjunctions are not range restricted
    rcases inv.2 with ⟨known, restricted⟩
    simp [Formula.rangeRestricted] at restricted
  case negComparison =>
    intro t c inv
    exact produces_conditionOr (inv.1.isEmpty fun _ => Formula.not_mem_selectable_neg)
      (leaf rfl trivial) rfl
  case negNeg =>
    intro t body e inv ih
    exact produces_conditionOr (inv.1.isEmpty fun _ => Formula.not_mem_selectable_neg)
      ih.sorted (ih.condition rfl rfl)
  case neg =>
    intro t body e layout inv _ _ ih
    refine produces_conditionOr (inv.1.isEmpty fun _ => Formula.not_mem_selectable_neg) ?_ rfl
    exact Expr.throughout_iff.2 ⟨ih.condition rfl rfl, List.forall_mem_singleton.2 ih.sorted⟩
  case exist =>
    intro t vars body e inv compiled ih
    have same := inv.1.requested_within
    exact ⟨ih.sorted, fun none => ih.condition (same ▸ none), fun outside =>
      ih.statement fun none => outside (same ▸ none)⟩

end Compiled

/-- The text of the statement of a range-restricted formula is read as this statement if its names
need no quotes, its numbers are numerals and its literals are not changed by indentation. -/
theorem readStatement_compile {schema : Schema} {labels : Labels} {distinct : Bool} {f : Formula}
    {e : Expr Nat} (compiled : compile schema labels distinct f = .ok e)
    (restricted : f.prepared.rangeRestricted ∅ = true)
    (named : ∀ entry ∈ labels, entry.2 ≠ "" → isIdentifier entry.2 = true)
    (words : f.Worded schema (isIdentifier · = true) (isWritable · = true))
    (kept : ∀ q ∈ e.quoted, q.Kept) : readStatement e.render = some e.statement := by
  have written := compile_worded compiled named words
  rcases compile_ok compiled with ⟨e', fits, inside, rfl⟩
  have produced := formula_sorted inside fits ⟨∅, restricted⟩
  refine readStatement_render ?_ ?_ written kept
  · exact isStatement_map.trans (produced.statement fun _ => rfl)
  · exact Expr.throughout_map_iff.2 fun s occurs => sorted_map (produced.sorted s occurs)

end Sql
end QueryCalculus
