import QueryCalculus.Proofs.Sql.Literals
import QueryCalculus.Proofs.Sql.Syntax

/-!
# Tokens of expressions

- `Expr.tokens` : the tokens of the text of an expression
- `Expr.Sorted` : conditions, sources and statements stand where they belong, without disjunctions
- `tokenize_render` : these are the tokens of the text

For this names must need no quotes, numbers must be numerals, and no literal may be changed by
indentation.
-/

namespace QueryCalculus
namespace Sql

/-! ## Tokens of expressions -/

def constantToken : Constant → Token
  | .object iri => .string iri
  | .data value datatype =>
    if datatype = .boolean then
      .keyword (if Text.sameIgnoringAsciiCase value "true" then .TRUE else .FALSE)
    else if datatype.isNumeric then .number value
    else .string value

def Operand.tokens : Operand Nat → List Token
  | .reference query x => [.name (queryAlias query), .symbol '.', .name (fold x.name)]
  | .bare x => [.name (fold x.name)]
  | .column name => [.name (fold name)]
  | .constant c => [constantToken c]

def relationTokens : Relation → List Token
  | .equal => [.symbol '=']
  | .different => [.symbol '!', .symbol '=']

def Column.tokens (c : Column) : List Token :=
  .name (fold c.source) ::
    match c.label with
    | some label => [.keyword .AS, .name (fold label)]
    | none => []

def columnTokens : List Column → List Token
  | [] => [.number "1"]
  | columns => joinTokens [.symbol ','] (columns.map Column.tokens)

def fromTokens : List (List Token) → List Token
  | [] => []
  | sources => .keyword .FROM :: joinTokens [.keyword .NATURAL, .keyword .JOIN] sources

def whereTokens : List (List Token) → List Token
  | [] => []
  | conditions => .keyword .WHERE :: joinTokens [.keyword .AND] conditions

def parenthesized (ts : List Token) : List Token :=
  .symbol '(' :: (ts ++ [.symbol ')'])

mutual

/-- The tokens of the text of an expression without disjunctions. -/
def Expr.tokens : Expr Nat → List Token
  | .truth value => [.keyword (if value then .TRUE else .FALSE)]
  | .compare relation left right => left.tokens ++ (relationTokens relation ++ right.tokens)
  | .equate column value => .name (fold column) :: .symbol '=' :: value.tokens
  | .group es => parenthesized (joinTokens [.keyword .AND] (tokensAll es))
  | .not _ e => .keyword .NOT :: parenthesized e.tokens
  | .exist e => .keyword .EXISTS :: parenthesized e.tokens
  | .table name use => [.quotedName name, .name (fold (tableAlias name use))]
  | .derived _ e key => parenthesized e.tokens ++ [.name (queryAlias key)]
  | .select distinct columns sources conditions limitOne =>
    .keyword .SELECT :: ((if distinct then [.keyword .DISTINCT] else []) ++ (columnTokens columns ++
      (fromTokens (tokensAll sources) ++ (whereTokens (tokensAll conditions) ++
        (if limitOne then [.keyword .LIMIT, .number "1"] else [])))))
  | .any _ | .unionAll _ => []

def tokensAll : List (Expr Nat) → List (List Token)
  | [] => []
  | e :: es => e.tokens :: tokensAll es

end

theorem tokensAll_eq_map (es : List (Expr Nat)) : tokensAll es = es.map Expr.tokens := by
  induction es with
  | nil => rfl
  | cons e es ih => rw [tokensAll, ih, List.map_cons]

/-! ## Sorts -/

section Sorts

variable {κ : Type}

def Expr.isCondition : Expr κ → Bool
  | .truth _ | .compare _ _ _ | .equate _ _ | .group _ | .not _ _ | .exist _ => true
  | _ => false

def Expr.isSource : Expr κ → Bool
  | .table _ _ | .derived _ _ _ => true
  | _ => false

def Expr.isStatement : Expr κ → Bool
  | .select _ _ _ _ _ => true
  | _ => false

/-- The parts of an expression are of the right sort, and there are no disjunctions. -/
def Expr.Sorted : Expr κ → Prop
  | .group es => es ≠ [] ∧ ∀ e ∈ es, e.isCondition = true
  | .not _ e => e.isCondition = true
  | .exist e | .derived _ e _ => e.isStatement = true
  | .select _ _ sources conditions _ =>
    (∀ e ∈ sources, e.isSource = true) ∧ ∀ e ∈ conditions, e.isCondition = true
  | .any _ | .unionAll _ => False
  | _ => True

end Sorts

/-! ## Words -/

/-- A number is written as a numeral. -/
def isWritable : Constant → Bool
  | .object _ => true
  | .data value datatype => !datatype.isNumeric || isNumeral value.toList

abbrev Operand.Writable {κ : Type} (o : Operand κ) : Prop :=
  o.Worded (isIdentifier · = true) (isWritable · = true)

/-- The names in an expression need no quotes, and its numbers are numerals. -/
abbrev Expr.Writable {κ : Type} (e : Expr κ) : Prop :=
  e.Worded (isIdentifier · = true) (isWritable · = true)

theorem tokenize_literal {c : Constant} (h : isWritable c = true) :
    tokenize (literal c) = some [constantToken c] := by
  cases c with
  | object iri => exact tokenize_quoteString iri
  | data value datatype =>
    by_cases boolean : datatype = .boolean
    · simp only [literal, constantToken, boolean, if_true]
      split
      · rfl
      · rfl
    · by_cases numeric : datatype.isNumeric = true
      · simp only [literal, constantToken, boolean, numeric, if_true, if_false]
        refine tokenize_number ?_
        simpa [isWritable, numeric] using h
      · simp only [literal, constantToken, boolean, numeric, if_false]
        exact tokenize_quoteString value

theorem tokenize_operand {o : Operand Nat} (h : o.Writable) : tokenize o.text = some o.tokens := by
  cases o with
  | reference query x =>
    have source := closed_qualifier (isIdentifier_queryAlias query)
    rw [fold_queryAlias] at source
    exact source.tokenize_append (tokenize_name h)
  | bare x => exact tokenize_name h
  | column name => exact tokenize_name h
  | constant c => exact tokenize_literal h

theorem tokenize_compare {left right : Operand Nat} (relation : Relation) (hl : left.Writable)
    (hr : right.Writable) :
    tokenize (left.text ++ " " ++ relation.symbol ++ " " ++ right.text) =
      some (left.tokens ++ (relationTokens relation ++ right.tokens)) := by
  have texts : left.text ++ " " ++ relation.symbol ++ " " ++ right.text =
      left.text ++ (" " ++ relation.symbol ++ " ") ++ right.text := by
    simp only [String.append_assoc]
  have closed : Closed (" " ++ relation.symbol ++ " ") (relationTokens relation) := by
    cases relation <;> rfl
  have breaks : Breaks (" " ++ relation.symbol ++ " ") := by
    cases relation <;> rfl
  have nonempty : " " ++ relation.symbol ++ " " ≠ "" := by
    cases relation <;> decide
  rw [texts, tokenize_separated (tokenize_operand hl) (tokenize_operand hr) closed breaks nonempty,
    List.append_assoc]

theorem tokenize_equate {column : String} {value : Operand Nat} (hc : isIdentifier column = true)
    (hv : value.Writable) :
    tokenize (column ++ "=" ++ value.text) =
      some (.name (fold column) :: .symbol '=' :: value.tokens) := by
  have sign : Closed "=" [.symbol '='] := rfl
  exact tokenize_separated (tokenize_name hc) (tokenize_operand hv) sign rfl (by decide)

/-! ## Literals on one line -/

theorem map_joinTokens (f : Token → Token) (us : List Token) (tss : List (List Token)) :
    (joinTokens us tss).map f = joinTokens (us.map f) (tss.map (·.map f)) := by
  cases tss with
  | nil => rfl
  | cons ts rest => simp [joinTokens, List.map_flatMap, List.flatMap_map]

/-- The constant has no line break. -/
def SingleLine (c : Constant) : Prop :=
  '\n' ∉ c.value.toList

theorem shift_eq_self {text : String} (single : '\n' ∉ text.toList) : shift text = text := by
  have once : shift^[1] text = text := iterate_shift_eq_self_iff.2 (.inr single)
  exact once

theorem shift_name {name : String} (h : isIdentifier name = true) : shift name = name := by
  rcases (isIdentifier_iff.1 h).1 with ⟨c, cs, characters, first, rest⟩
  refine shift_eq_self fun line => ?_
  rw [characters, List.mem_cons] at line
  rcases line with rfl | line
  · cases first
  · cases rest _ line

theorem shift_constantToken {c : Constant} (h : ∀ q ∈ quotedConstant c, SingleLine q.constant) :
    (constantToken c).shift = constantToken c := by
  cases c with
  | object iri =>
    have single : SingleLine (.object iri) := h ⟨.object iri, 0⟩ (List.mem_singleton_self _)
    exact congrArg Token.string (shift_eq_self single)
  | data value datatype =>
    simp only [quotedConstant] at h
    simp only [constantToken]
    split
    · rfl
    · rename_i other
      rw [if_neg other] at h
      split
      · rfl
      · rename_i plain
        rw [if_neg plain] at h
        have single : SingleLine (.data value datatype) :=
          h ⟨.data value datatype, 0⟩ (List.mem_singleton_self _)
        exact congrArg Token.string (shift_eq_self single)

theorem shift_operand {o : Operand Nat} (h : ∀ q ∈ o.quoted, SingleLine q.constant) :
    o.tokens.map Token.shift = o.tokens := by
  cases o with
  | constant c => exact congrArg (fun t => [t]) (shift_constantToken h)
  | _ => rfl

theorem shift_parenthesized {ts : List Token} (h : ts.map Token.shift = ts) :
    (parenthesized ts).map Token.shift = parenthesized ts := by
  simp [parenthesized, h, Token.shift]

theorem shift_columnTokens (columns : List Column) :
    (columnTokens columns).map Token.shift = columnTokens columns := by
  cases columns with
  | nil => rfl
  | cons c cs =>
    have each : ∀ c : Column, c.tokens.map Token.shift = c.tokens := by
      intro c
      unfold Column.tokens
      split <;> rfl
    rw [columnTokens, map_joinTokens, List.map_map]
    · exact congrArg (joinTokens _) (List.map_congr_left fun c _ => each c)
    · exact nofun

theorem shift_fromTokens {tss : List (List Token)} (h : tss.map (·.map Token.shift) = tss) :
    (fromTokens tss).map Token.shift = fromTokens tss := by
  cases tss with
  | nil => rfl
  | cons ts rest =>
    have joined := map_joinTokens Token.shift [.keyword .NATURAL, .keyword .JOIN] (ts :: rest)
    rw [h] at joined
    exact congrArg (Token.keyword .FROM :: ·) joined

theorem shift_whereTokens {tss : List (List Token)} (h : tss.map (·.map Token.shift) = tss) :
    (whereTokens tss).map Token.shift = whereTokens tss := by
  cases tss with
  | nil => rfl
  | cons ts rest =>
    have joined := map_joinTokens Token.shift [.keyword .AND] (ts :: rest)
    rw [h] at joined
    exact congrArg (Token.keyword .WHERE :: ·) joined

theorem constant_of_around {C : Constant → Prop} {layout : Layout} {qs : List Quoted}
    (h : ∀ q ∈ layout.around qs, C q.constant) : ∀ q ∈ qs, C q.constant := by
  intro q hq
  cases layout with
  | inline => exact h q hq
  | block => exact h q.deeper (List.mem_map_of_mem hq)

/-- Indentation changes none of the tokens if it changes no literal. -/
theorem shift_tokens {e : Expr Nat} (words : e.Throughout Expr.Writable)
    (single : ∀ q ∈ e.quoted, SingleLine q.constant) : e.tokens.map Token.shift = e.tokens := by
  -- lists of expressions, given the induction hypothesis for their members
  have list : ∀ {es : List (Expr Nat)},
      (∀ e ∈ es, e.Throughout Expr.Writable → (∀ q ∈ e.quoted, SingleLine q.constant) →
        e.tokens.map Token.shift = e.tokens) →
      (∀ e ∈ es, e.Throughout Expr.Writable) → (∀ q ∈ quotedAll es, SingleLine q.constant) →
      (tokensAll es).map (·.map Token.shift) = tokensAll es := by
    intro es ih words single
    rw [quotedAll_eq_flatMap] at single
    rw [tokensAll_eq_map, List.map_map]
    refine List.map_congr_left fun e he => ih e he (words e he) fun q hq => ?_
    exact single q (List.mem_flatMap.2 ⟨e, he, hq⟩)
  induction e with
  | truth value => rfl
  | compare relation left right =>
    have hl := shift_operand fun q hq => single q (List.mem_append_left _ hq)
    have hr := shift_operand fun q hq => single q (List.mem_append_right _ hq)
    have middle : (relationTokens relation).map Token.shift = relationTokens relation := by
      cases relation <;> rfl
    rw [Expr.tokens, List.map_append, List.map_append, hl, hr, middle]
  | equate column value =>
    have hv := shift_operand single
    simp [Expr.tokens, hv, Token.shift]
  | any es => rfl
  | group es ih =>
    refine shift_parenthesized ?_
    rw [map_joinTokens, list ih (fun _ => words.child) (constant_of_around single)]
    rfl
  | not layout e ih =>
    have inner := ih (words.child (List.mem_singleton_self e)) (constant_of_around single)
    simp [Expr.tokens, shift_parenthesized inner, Token.shift]
  | exist e ih =>
    have below : ∀ q ∈ Layout.block.around e.quoted, SingleLine q.constant := single
    have inner := ih (words.child (List.mem_singleton_self e)) (constant_of_around below)
    simp [Expr.tokens, shift_parenthesized inner, Token.shift]
  | table name use =>
    have named : isIdentifier name = true := words.self
    simp [Expr.tokens, Token.shift, shift_name named]
  | derived layout e key ih =>
    have inner := ih (words.child (List.mem_singleton_self e)) (constant_of_around single)
    simp [Expr.tokens, shift_parenthesized inner, Token.shift]
  | unionAll es => rfl
  | select distinct columns sources conditions limitOne hs hc =>
    have inSources : ∀ q ∈ quotedAll sources, SingleLine q.constant := by
      have part := fun q hq => single q (List.mem_append_left _ hq)
      split at part
      · exact part
      · exact constant_of_around part
    have inConditions := fun q hq => single q (List.mem_append_right _ hq)
    have sourced := shift_fromTokens
      (list hs (fun s member => words.child (List.mem_append_left _ member)) inSources)
    have conditioned := shift_whereTokens
      (list hc (fun c member => words.child (List.mem_append_right _ member)) inConditions)
    have listed := shift_columnTokens columns
    cases distinct <;> cases limitOne <;>
      simp [Expr.tokens, Token.shift, sourced, conditioned, listed]

theorem shift_tokens_of_mem {es : List (Expr Nat)} (words : ∀ e ∈ es, e.Throughout Expr.Writable)
    (single : ∀ q ∈ quotedAll es, SingleLine q.constant) :
    ∀ e ∈ es, e.tokens.map Token.shift = e.tokens := by
  intro e he
  rw [quotedAll_eq_flatMap] at single
  exact shift_tokens (words e he) fun q hq => single q (List.mem_flatMap.2 ⟨e, he, hq⟩)

/-! ## Clauses -/

section Clauses

variable {text : String} {ts : List Token}

theorem breaks_append {text' : String} (h : Breaks text) (nonempty : text ≠ "") :
    Breaks (text ++ text') := by
  cases characters : text.toList with
  | nil => exact absurd (String.toList_eq_nil_iff.1 characters) nonempty
  | cons c cs => simpa [Breaks, characters] using h

/-- A text in parentheses. In a block it is indented. -/
theorem tokenize_wrap {layout : Layout} (h : tokenize text = some ts)
    (kept : layout = .block → ts.map Token.shift = ts) :
    tokenize (wrap layout text) = some (parenthesized ts) := by
  cases layout with
  | inline =>
    have opened : Closed "( " [.symbol '('] := rfl
    have closing : tokenize " )" = some [.symbol ')'] := rfl
    exact tokenize_append (opened.tokenize_append h) closing rfl
  | block =>
    have opened : Closed "(\n" [.symbol '('] := rfl
    have closing : tokenize "\n)" = some [.symbol ')'] := rfl
    have inner := tokenize_indent h
    rw [kept rfl] at inner
    exact tokenize_append (opened.tokenize_append inner) closing rfl

theorem tokenize_column {c : Column}
    (h : isIdentifier c.source = true ∧ ∀ label, c.label = some label → isIdentifier label = true) :
    tokenize c.text = some c.tokens := by
  unfold Column.text Column.tokens
  cases label : c.label with
  | none => exact tokenize_name h.1
  | some text =>
    have between : Closed " AS " [.keyword .AS] := rfl
    exact tokenize_separated (tokenize_name h.1) (tokenize_name (h.2 text label)) between rfl
      (by decide)

theorem tokenize_selectClause (distinct : Bool) {columns : List Column}
    (h : ∀ c ∈ columns, isIdentifier c.source = true ∧
      ∀ label, c.label = some label → isIdentifier label = true) :
    tokenize (selectClause distinct columns) =
      some (.keyword .SELECT ::
        ((if distinct then [.keyword .DISTINCT] else []) ++ columnTokens columns)) := by
  have listed : tokenize (if columns.isEmpty then "1"
      else Text.commaSeparated (columns.map Column.text)) = some (columnTokens columns) := by
    cases columns with
    | nil => rfl
    | cons c cs =>
      have comma : Closed ", " [.symbol ','] := rfl
      have joined : tokenize (", ".intercalate ((c :: cs).map Column.text)) =
          some (joinTokens [.symbol ','] ((c :: cs).map Column.tokens)) :=
        tokenize_intercalate comma rfl (by decide) fun d hd => tokenize_column (h d hd)
      rw [columnTokens]
      · exact joined
      · nofun
  have head : Closed ("SELECT " ++ if distinct then "DISTINCT " else "")
      (.keyword .SELECT :: if distinct then [.keyword .DISTINCT] else []) := by
    cases distinct <;> rfl
  exact head.tokenize_append listed

theorem tokenize_fromClause {α : Type} {sources : List α} {text : α → String}
    {tokens : α → List Token} (each : ∀ a ∈ sources, tokenize (text a) = some (tokens a))
    (kept : 1 < sources.length → ∀ a ∈ sources, (tokens a).map Token.shift = tokens a) :
    tokenize (fromClause (sources.map text)) = some (fromTokens (sources.map tokens)) := by
  have between : Closed "\nNATURAL JOIN\n" [.keyword .NATURAL, .keyword .JOIN] := rfl
  match sources, each, kept with
  | [], _, _ => rfl
  | [a], each, _ =>
    have word : Closed " FROM " [.keyword .FROM] := rfl
    rw [List.map_singleton, List.map_singleton, fromClause,
      word.tokenize_append (each a (List.mem_singleton_self a))]
    simp [fromTokens, joinTokens]
  | a :: b :: rest, each, kept =>
    have word : Closed " FROM\n" [.keyword .FROM] := rfl
    have joined := tokenize_indent (tokenize_intercalate between rfl (by decide) each)
    have same : ((a :: b :: rest).map tokens).map (·.map Token.shift) =
        (a :: b :: rest).map tokens := by
      rw [List.map_map]
      exact List.map_congr_left (kept (by simp))
    rw [map_joinTokens, same] at joined
    exact word.tokenize_append joined

theorem tokenize_whereClause {α : Type} {conditions : List α} (sources : List String)
    {text : α → String} {tokens : α → List Token}
    (each : ∀ a ∈ conditions, tokenize (text a) = some (tokens a)) :
    tokenize (whereClause sources (conditions.map text)) =
      some (whereTokens (conditions.map tokens)) := by
  have between : Closed " AND " [.keyword .AND] := rfl
  cases conditions with
  | nil => rfl
  | cons a rest =>
    have joined := tokenize_intercalate between rfl (by decide) each
    cases sources with
    | nil =>
      have word : Closed " WHERE " [.keyword .WHERE] := rfl
      exact word.tokenize_append joined
    | cons s sources =>
      have word : Closed "\nWHERE " [.keyword .WHERE] := rfl
      exact word.tokenize_append joined

end Clauses

theorem breaks_fromClause (sources : List String) : Breaks (fromClause sources) := by
  match sources with
  | [] => rfl
  | [s] =>
    have word : Breaks " FROM " := rfl
    exact breaks_append word (by decide)
  | s :: s' :: rest =>
    have word : Breaks " FROM\n" := rfl
    exact breaks_append word (by decide)

theorem breaks_whereClause (sources conditions : List String) :
    Breaks (whereClause sources conditions) := by
  unfold whereClause
  split
  · rfl
  · split
    · have word : Breaks " WHERE " := rfl
      exact breaks_append word (by decide)
    · have word : Breaks "\nWHERE " := rfl
      exact breaks_append word (by decide)

/-! ## Tokens of texts -/

theorem kept_of_around {layout : Layout} {qs : List Quoted}
    (h : ∀ q ∈ layout.around qs, q.Kept) :
    (∀ q ∈ qs, q.Kept) ∧ (layout = .block → ∀ q ∈ qs, SingleLine q.constant) := by
  cases layout with
  | inline => exact ⟨h, nofun⟩
  | block =>
    have single : ∀ q ∈ qs, SingleLine q.constant := fun q hq =>
      (h q.deeper (List.mem_map_of_mem hq)).resolve_left (Nat.succ_ne_zero _)
    exact ⟨fun q hq => .inr (single q hq), fun _ => single⟩

/-- Several sources stand in indented lines. -/
theorem kept_of_sources {sources : List (Expr Nat)}
    (h : ∀ q ∈ (if sources.length ≤ 1 then quotedAll sources
      else Layout.block.around (quotedAll sources)), q.Kept) :
    (∀ q ∈ quotedAll sources, q.Kept) ∧
      (1 < sources.length → ∀ q ∈ quotedAll sources, SingleLine q.constant) := by
  split at h
  · exact ⟨h, fun several => by omega⟩
  · exact ⟨(kept_of_around h).1, fun _ => (kept_of_around h).2 rfl⟩

theorem tokenize_group {es : List (Expr Nat)} (each : ∀ e ∈ es, tokenize e.render = some e.tokens)
    (kept : ∀ e ∈ es, e.tokens.map Token.shift = e.tokens) :
    tokenize (Expr.group es).render = some (Expr.group es).tokens := by
  have between : Closed " AND " [.keyword .AND] := rfl
  have joined := tokenize_intercalate between rfl (by decide) each
  rw [Expr.render, Expr.tokens, renderAll_eq_map, tokensAll_eq_map]
  refine tokenize_wrap joined fun _ => ?_
  rw [map_joinTokens, List.map_map]
  exact congrArg (joinTokens _) (List.map_congr_left kept)

theorem tokenize_select (distinct limitOne : Bool) {columns : List Column}
    {sources conditions : List (Expr Nat)}
    (named : ∀ c ∈ columns, isIdentifier c.source = true ∧
      ∀ label, c.label = some label → isIdentifier label = true)
    (each : ∀ s ∈ sources, tokenize s.render = some s.tokens)
    (kept : 1 < sources.length → ∀ s ∈ sources, s.tokens.map Token.shift = s.tokens)
    (eachCondition : ∀ c ∈ conditions, tokenize c.render = some c.tokens) :
    tokenize (Expr.select distinct columns sources conditions limitOne).render =
      some (Expr.select distinct columns sources conditions limitOne).tokens := by
  have selected := tokenize_selectClause distinct named
  have sourced := tokenize_fromClause each kept
  have conditioned := tokenize_whereClause (sources.map Expr.render) eachCondition
  have limited : tokenize (if limitOne then "\nLIMIT 1" else "") =
      some (if limitOne then [.keyword .LIMIT, .number "1"] else []) := by
    cases limitOne <;> rfl
  have whole := tokenize_append (tokenize_append (tokenize_append selected sourced
    (breaks_fromClause _)) conditioned (breaks_whereClause _ _)) limited
    (by cases limitOne <;> rfl)
  rw [Expr.render, Expr.tokens, renderAll_eq_map, renderAll_eq_map, tokensAll_eq_map,
    tokensAll_eq_map, whole]
  simp only [List.cons_append, List.append_assoc]

/-- The tokens of the text of an expression whose literals survive indentation. -/
theorem tokenize_render {e : Expr Nat} (sorted : e.Throughout Expr.Sorted)
    (words : e.Throughout Expr.Writable) (kept : ∀ q ∈ e.quoted, q.Kept) :
    tokenize e.render = some e.tokens := by
  -- lists of expressions, given the induction hypothesis for their members
  have list : ∀ {es : List (Expr Nat)},
      (∀ e ∈ es, e.Throughout Expr.Sorted → e.Throughout Expr.Writable →
        (∀ q ∈ e.quoted, q.Kept) → tokenize e.render = some e.tokens) →
      (∀ e ∈ es, e.Throughout Expr.Sorted) → (∀ e ∈ es, e.Throughout Expr.Writable) →
      (∀ q ∈ quotedAll es, q.Kept) → ∀ e ∈ es, tokenize e.render = some e.tokens := by
    intro es ih sorted words kept e he
    rw [quotedAll_eq_flatMap] at kept
    exact ih e he (sorted e he) (words e he) fun q hq => kept q (List.mem_flatMap.2 ⟨e, he, hq⟩)
  induction e with
  | truth value => cases value <;> rfl
  | compare relation left right =>
    have here : left.Writable ∧ right.Writable := words.self
    exact tokenize_compare relation here.1 here.2
  | equate column value =>
    have here : isIdentifier column = true ∧ value.Writable := words.self
    exact tokenize_equate here.1 here.2
  | any es => exact absurd sorted.self id
  | group es ih =>
    have inside := kept_of_around kept
    have each := list ih (fun _ => sorted.child) (fun _ => words.child) inside.1
    exact tokenize_group each (shift_tokens_of_mem (fun _ => words.child) (inside.2 rfl))
  | not layout e ih =>
    have inside := kept_of_around kept
    have member := List.mem_singleton_self e
    have inner := ih (sorted.child member) (words.child member) inside.1
    cases layout with
    | inline =>
      have opened : Closed "NOT (" [.keyword .NOT, .symbol '('] := rfl
      have closing : tokenize ")" = some [.symbol ')'] := rfl
      exact tokenize_append (opened.tokenize_append inner) closing rfl
    | block =>
      have word : Closed "NOT " [.keyword .NOT] := rfl
      exact word.tokenize_append
        (tokenize_wrap inner fun _ => shift_tokens (words.child member) (inside.2 rfl))
  | exist e ih =>
    have below : ∀ q ∈ Layout.block.around e.quoted, q.Kept := kept
    have inside := kept_of_around below
    have member := List.mem_singleton_self e
    have inner := ih (sorted.child member) (words.child member) inside.1
    have word : Closed "EXISTS " [.keyword .EXISTS] := rfl
    exact word.tokenize_append
      (tokenize_wrap inner fun _ => shift_tokens (words.child member) (inside.2 rfl))
  | table name use =>
    have named : isIdentifier (tableAlias name use) = true := isIdentifier_tableAlias words.self use
    have blank : Closed " " [] := rfl
    exact tokenize_separated (tokenize_quoteName name) (tokenize_name named) blank rfl (by decide)
  | derived layout e key ih =>
    have inside := kept_of_around kept
    have member := List.mem_singleton_self e
    have inner := ih (sorted.child member) (words.child member) inside.1
    have wrapped := tokenize_wrap inner fun block =>
      shift_tokens (words.child member) (inside.2 block)
    have named := tokenize_name (isIdentifier_queryAlias key)
    rw [fold_queryAlias] at named
    have blank : Closed " " [] := rfl
    have whole := tokenize_separated wrapped named blank rfl (by decide)
    rw [List.append_nil] at whole
    exact whole
  | unionAll es => exact absurd sorted.self id
  | select distinct columns sources conditions limitOne hs hc =>
    have inSources := kept_of_sources fun q hq => kept q (List.mem_append_left _ hq)
    have inConditions := fun q hq => kept q (List.mem_append_right _ hq)
    have wordsSources := fun s (member : s ∈ sources) =>
      words.child (List.mem_append_left conditions member)
    have each := list hs (fun s member => sorted.child (List.mem_append_left _ member))
      wordsSources inSources.1
    have eachCondition := list hc (fun c member => sorted.child (List.mem_append_right _ member))
      (fun c member => words.child (List.mem_append_right _ member)) inConditions
    exact tokenize_select distinct limitOne words.self each
      (fun several => shift_tokens_of_mem wordsSources (inSources.2 several)) eachCondition

end Sql
end QueryCalculus
