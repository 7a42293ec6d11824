import Mathlib.Logic.Function.Iterate
import QueryCalculus.Proofs.Sql.Quotation
import QueryCalculus.Proofs.Sql.Words

/-!
# String literals in compiled statements

- `Expr.quoted` : the quoted constants of an expression, and how often they are indented
- `quotes_render` : the string literals in the text of an expression
- `compile_literals_iff` : when the literals in the text of a statement are constants of the formula

Indentation does not look at what it moves. A literal with a line break changes with every level.
-/

namespace QueryCalculus

def Constant.value : Constant → String
  | .object iri => iri
  | .data value _ => value

namespace Sql

/-! ## Repeated indentation -/

theorem length_shiftedLines (text : List Char) :
    (shiftedLines text).length = text.length + 4 * text.count '\n' := by
  induction text with
  | nil => rfl
  | cons c cs ih =>
    have step : (shiftedLines (c :: cs)).length =
        (shiftedLines [c]).length + (shiftedLines cs).length := by
      rw [← List.length_append, ← shiftedLines_append, List.singleton_append]
    by_cases line : c = '\n'
    · have here : (shiftedLines [c]).length = 5 := by subst line; rfl
      rw [step, ih, here, line, List.length_cons, List.count_cons_self]
      omega
    · have here : shiftedLines [c] = [c] := by simp [shiftedLines, line]
      rw [step, ih, here, List.length_singleton, List.length_cons, List.count_cons_of_ne line]
      omega

theorem count_shiftedLines (text : List Char) :
    (shiftedLines text).count '\n' = text.count '\n' := by
  induction text with
  | nil => rfl
  | cons c cs ih =>
    have step : shiftedLines (c :: cs) = shiftedLines [c] ++ shiftedLines cs :=
      shiftedLines_append [c] cs
    have here : (shiftedLines [c]).count '\n' = [c].count '\n' := by
      by_cases line : c = '\n'
      · subst line
        rfl
      · simp [shiftedLines, line]
    rw [step, List.count_append, ih, here, ← List.count_append, List.singleton_append]

/-- Every indentation adds four characters to every line but the first. -/
theorem length_iterate_shift (depth : Nat) (text : String) :
    (shift^[depth] text).toList.length = text.toList.length + depth * (4 * text.toList.count '\n') ∧
      (shift^[depth] text).toList.count '\n' = text.toList.count '\n' := by
  induction depth with
  | zero => simp
  | succ depth ih =>
    rw [Function.iterate_succ_apply', toList_shift, length_shiftedLines, count_shiftedLines, ih.1,
      ih.2, Nat.add_mul, Nat.one_mul, Nat.add_assoc]
    exact ⟨rfl, rfl⟩

theorem iterate_shift_eq_self_iff {depth : Nat} {text : String} :
    shift^[depth] text = text ↔ depth = 0 ∨ '\n' ∉ text.toList := by
  constructor
  · intro same
    have longer := (length_iterate_shift depth text).1
    rw [same] at longer
    -- each time, four blanks are put behind every line break
    have none : depth * (4 * text.toList.count '\n') = 0 := by omega
    rcases Nat.mul_eq_zero.1 none with zero | zero
    · exact .inl zero
    · exact .inr (List.count_eq_zero.1 (by omega))
  · intro h
    rcases h with rfl | single
    · rfl
    · apply Function.iterate_fixed
      apply String.toList_inj.1
      rw [toList_shift, shiftedLines]
      have each : ∀ c ∈ text.toList, (if c = '\n' then '\n' :: "    ".toList else [c]) = [c] := by
        intro c hc
        refine if_neg fun line => ?_
        subst line
        exact single hc
      rw [List.flatMap_congr each, List.flatMap_singleton']

/-! ## Quoted constants -/

/-- A constant that is written as a string literal, and how often the text around it is indented. -/
structure Quoted where
  constant : Constant
  depth : Nat

namespace Quoted

def deeper (q : Quoted) : Quoted :=
  { q with depth := q.depth + 1 }

/-- What is read back from the text. -/
def written (q : Quoted) : String :=
  shift^[q.depth] q.constant.value

/-- The literal has no line break or is not indented. -/
def Kept (q : Quoted) : Prop :=
  q.depth = 0 ∨ '\n' ∉ q.constant.value.toList

instance (q : Quoted) : Decidable q.Kept :=
  inferInstanceAs (Decidable (_ ∨ _))

theorem written_eq_iff {q : Quoted} : q.written = q.constant.value ↔ q.Kept :=
  iterate_shift_eq_self_iff

theorem map_written_deeper (qs : List Quoted) :
    (qs.map deeper).map written = (qs.map written).map shift := by
  rw [List.map_map, List.map_map]
  refine List.map_congr_left fun q _ => ?_
  exact Function.iterate_succ_apply' shift q.depth q.constant.value

end Quoted

section Collect

variable {κ : Type}

/-- Truth values and numbers are not quoted. -/
def quotedConstant : Constant → List Quoted
  | .object iri => [⟨.object iri, 0⟩]
  | .data value datatype =>
    if datatype = .boolean then []
    else if datatype.isNumeric then []
    else [⟨.data value datatype, 0⟩]

def Operand.quoted : Operand κ → List Quoted
  | .constant c => quotedConstant c
  | _ => []

/-- Blocks are indented. -/
def Layout.around : Layout → List Quoted → List Quoted
  | .inline, qs => qs
  | .block, qs => qs.map Quoted.deeper

mutual

/-- The quoted constants in the order of the text. -/
def Expr.quoted : Expr κ → List Quoted
  | .truth _ | .table _ _ => []
  | .compare _ left right => left.quoted ++ right.quoted
  | .equate _ value => value.quoted
  | .any es | .unionAll es => quotedAll es
  | .group es => Layout.block.around (quotedAll es)
  | .not layout e => layout.around e.quoted
  | .exist e => Layout.block.around e.quoted
  | .derived layout e _ => layout.around e.quoted
  | .select _ _ sources conditions _ =>
    (if sources.length ≤ 1 then quotedAll sources else Layout.block.around (quotedAll sources)) ++
      quotedAll conditions

def quotedAll : List (Expr κ) → List Quoted
  | [] => []
  | e :: es => e.quoted ++ quotedAll es

end

theorem quotedAll_eq_flatMap (es : List (Expr κ)) : quotedAll es = es.flatMap Expr.quoted := by
  induction es with
  | nil => rfl
  | cons e es ih => simp [quotedAll, ih]

/-! ## Where the constants are from -/

variable {K : String → Prop} {C : Constant → Prop}

theorem constant_around {layout : Layout} {qs : List Quoted} (h : ∀ q ∈ qs, C q.constant) :
    ∀ q ∈ layout.around qs, C q.constant := by
  cases layout with
  | inline => exact h
  | block =>
    intro q hq
    rcases List.mem_map.1 hq with ⟨inner, member, rfl⟩
    exact h inner member

theorem constant_operand {o : Operand κ} (h : o.Worded K C) : ∀ q ∈ o.quoted, C q.constant := by
  intro q hq
  cases o with
  | constant c =>
    have same : q.constant = c := by
      cases c with
      | object iri => rw [List.mem_singleton.1 hq]
      | data value datatype =>
        simp only [Operand.quoted, quotedConstant] at hq
        split at hq
        · cases hq
        · split at hq
          · cases hq
          · rw [List.mem_singleton.1 hq]
    rw [same]
    exact h
  | _ => cases hq

theorem constant_quoted {e : Expr κ} (h : e.Throughout (Expr.Worded K C)) :
    ∀ q ∈ e.quoted, C q.constant := by
  -- lists of expressions, given the induction hypothesis for their members
  have list : ∀ {es : List (Expr κ)},
      (∀ e ∈ es, e.Throughout (Expr.Worded K C) → ∀ q ∈ e.quoted, C q.constant) →
      (∀ e ∈ es, e.Throughout (Expr.Worded K C)) → ∀ q ∈ quotedAll es, C q.constant := by
    intro es ih each q hq
    rw [quotedAll_eq_flatMap] at hq
    rcases List.mem_flatMap.1 hq with ⟨e, he, inside⟩
    exact ih e he (each e he) q inside
  induction e with
  | truth value => exact fun q hq => absurd hq List.not_mem_nil
  | compare relation left right =>
    have here : left.Worded K C ∧ right.Worded K C := h.self
    intro q hq
    rcases List.mem_append.1 hq with hq | hq
    · exact constant_operand here.1 q hq
    · exact constant_operand here.2 q hq
  | equate column value =>
    have here : K column ∧ value.Worded K C := h.self
    exact constant_operand here.2
  | any es ih => exact list ih fun _ => h.child
  | group es ih => exact constant_around (list ih fun _ => h.child)
  | not layout e ih =>
    exact constant_around (ih (h.child (List.mem_singleton_self e)))
  | exist e ih =>
    exact constant_around (ih (h.child (List.mem_singleton_self e)))
  | table name key => exact fun q hq => absurd hq List.not_mem_nil
  | derived layout e key ih =>
    exact constant_around (ih (h.child (List.mem_singleton_self e)))
  | unionAll es ih => exact list ih fun _ => h.child
  | select distinct columns sources conditions limitOne hs hc =>
    have inSources := list hs fun s member => h.child (List.mem_append_left _ member)
    have inConditions := list hc fun c member => h.child (List.mem_append_right _ member)
    intro q hq
    rcases List.mem_append.1 hq with hq | hq
    · split at hq
      · exact inSources q hq
      · exact constant_around inSources q hq
    · exact inConditions q hq

end Collect

/-! ## Reading a text -/

theorem plain_toString (n : Nat) : Plain (toString n) := by
  intro c hc
  rw [Nat.toString_eq_ofList_toDigits, String.toList_ofList] at hc
  have digit := Nat.isDigit_of_mem_toDigits (by omega) (by omega) hc
  unfold mark?
  split
  · rename_i same
    subst same
    cases digit
  · split
    · rename_i same
      subst same
      cases digit
    · rfl

theorem plain_queryAlias (number : Nat) : Plain (queryAlias number) :=
  Plain.append (by decide) (plain_toString number)

/-- A number is written without marks. -/
def PlainNumber : Constant → Prop
  | .object _ => True
  | .data value datatype => datatype.isNumeric = true → Plain value

theorem quotes_literal {c : Constant} (h : PlainNumber c) :
    Quotes (literal c) ((quotedConstant c).map Quoted.written) := by
  cases c with
  | object iri => exact quotes_quoteString iri
  | data value datatype =>
    by_cases boolean : datatype = .boolean
    · simp only [literal, quotedConstant, boolean, if_true]
      split
      · exact quotes_plain (by decide)
      · exact quotes_plain (by decide)
    · by_cases numeric : datatype.isNumeric = true
      · simp only [literal, quotedConstant, boolean, numeric, if_true, if_false]
        exact quotes_plain (h numeric)
      · simp only [literal, quotedConstant, boolean, numeric, if_false]
        exact quotes_quoteString value

theorem quotes_operand {o : Operand Nat} (h : o.Worded Plain PlainNumber) :
    Quotes o.text (o.quoted.map Quoted.written) := by
  cases o with
  | reference query x =>
    exact quotes_plain (((plain_queryAlias query).append (by decide)).append h)
  | bare x => exact quotes_plain h
  | column name => exact quotes_plain h
  | constant c => exact quotes_literal h

theorem quotes_wrap {layout : Layout} {text : String} {qs : List Quoted}
    (h : Quotes text (qs.map Quoted.written)) :
    Quotes (wrap layout text) ((layout.around qs).map Quoted.written) := by
  cases layout with
  | inline => exact (h.plain_append (by decide)).append_plain (by decide)
  | block =>
    rw [Layout.around, Quoted.map_written_deeper]
    exact (h.indent.plain_append (by decide)).append_plain (by decide)

theorem quotes_separated {separator : String} (plain : Plain separator) (nonempty : separator ≠ "")
    {es : List (Expr Nat)} (each : ∀ e ∈ es, Quotes e.render (e.quoted.map Quoted.written)) :
    Quotes (separator.intercalate (renderAll es)) ((quotedAll es).map Quoted.written) := by
  rw [renderAll_eq_map, quotedAll_eq_flatMap, List.map_flatMap]
  exact quotes_intercalate plain nonempty each

theorem quotes_fromClause {sources : List (Expr Nat)}
    (each : ∀ e ∈ sources, Quotes e.render (e.quoted.map Quoted.written)) :
    Quotes (fromClause (renderAll sources))
      ((if sources.length ≤ 1 then quotedAll sources
        else Layout.block.around (quotedAll sources)).map Quoted.written) := by
  cases sources with
  | nil => exact quotes_plain (by decide)
  | cons s rest =>
    cases rest with
    | nil =>
      have one := each s List.mem_cons_self
      simp only [renderAll, fromClause, quotedAll, List.append_nil, List.length_singleton, le_refl,
        if_true]
      exact one.plain_append (by decide)
    | cons s' rest =>
      have separator : Plain "\nNATURAL JOIN\n" := by decide
      have joined := quotes_separated separator (by decide) each
      have several : ¬ (s :: s' :: rest).length ≤ 1 := by simp
      rw [if_neg several, Layout.around, Quoted.map_written_deeper]
      exact joined.indent.plain_append (by decide)

theorem quotes_whereClause {conditions : List (Expr Nat)} (sources : List String)
    (each : ∀ e ∈ conditions, Quotes e.render (e.quoted.map Quoted.written)) :
    Quotes (whereClause sources (renderAll conditions))
        ((quotedAll conditions).map Quoted.written) ∧
      Unmarked (whereClause sources (renderAll conditions)) := by
  have separator : Plain " AND " := by decide
  have joined := quotes_separated separator (by decide) each
  unfold whereClause
  split
  · rename_i none
    have empty : conditions = [] := by
      rw [renderAll_eq_map, List.isEmpty_iff, List.map_eq_nil_iff] at none
      exact none
    subst empty
    exact ⟨quotes_plain (by decide), Plain.unmarked (by decide)⟩
  · split
    · exact ⟨joined.plain_append (by decide), Plain.unmarked_append (by decide) (by decide)⟩
    · exact ⟨joined.plain_append (by decide), Plain.unmarked_append (by decide) (by decide)⟩

theorem plain_selectClause {distinct : Bool} {columns : List Column}
    (h : ∀ c ∈ columns, Plain c.source ∧ ∀ label, c.label = some label → Plain label) :
    Plain (selectClause distinct columns) := by
  have column : ∀ c ∈ columns, Plain c.text := by
    intro c hc
    unfold Column.text
    split
    · rename_i label written
      exact ((h c hc).1.append (by decide)).append ((h c hc).2 label written)
    · exact (h c hc).1
  have enumeration : ∀ items : List String, (∀ item ∈ items, Plain item) →
      Plain (Text.commaSeparated items) := by
    intro items each
    induction items with
    | nil => decide
    | cons item items ih =>
      have first := each item List.mem_cons_self
      have rest := ih fun other ho => each other (List.mem_cons_of_mem item ho)
      cases items with
      | nil => simpa [Text.commaSeparated, String.intercalate_singleton] using first
      | cons next items =>
        rw [Text.commaSeparated, String.intercalate_cons_cons]
        exact (first.append (by decide)).append rest
  unfold selectClause
  refine Plain.append (Plain.append (by decide) ?_) ?_
  · cases distinct <;> decide
  · split
    · decide
    · exact enumeration _ (List.forall_mem_map.2 column)

/-- The string literals in the text of an expression are its quoted constants, moved as often as
they are indented. -/
theorem quotes_render {e : Expr Nat} (h : e.Throughout (Expr.Worded Plain PlainNumber)) :
    Quotes e.render (e.quoted.map Quoted.written) := by
  have blank : Plain " " := by decide
  induction e with
  | truth value => cases value <;> exact quotes_plain (by decide)
  | compare relation left right =>
    have here : left.Worded Plain PlainNumber ∧ right.Worded Plain PlainNumber :=
      h.self
    have symbol : Plain relation.symbol := by cases relation <;> decide
    have first := ((quotes_operand here.1).append_plain blank).append_plain symbol
    rw [Expr.quoted, List.map_append]
    exact first.separated (quotes_operand here.2) (by decide) (by decide)
  | equate column value =>
    have here : Plain column ∧ value.Worded Plain PlainNumber := h.self
    exact (quotes_operand here.2).plain_append (here.1.append (by decide))
  | any es ih =>
    exact quotes_separated (by decide) (by decide) fun e he => ih e he (h.child he)
  | group es ih =>
    exact quotes_wrap (quotes_separated (by decide) (by decide) fun e he => ih e he (h.child he))
  | not layout e ih =>
    have inner := ih (h.child (List.mem_singleton_self e))
    cases layout with
    | inline => exact (inner.plain_append (by decide)).append_plain (by decide)
    | block => exact (quotes_wrap inner).plain_append (by decide)
  | exist e ih =>
    have inner := ih (h.child (List.mem_singleton_self e))
    exact (quotes_wrap inner).plain_append (by decide)
  | table name use =>
    have here : Plain name := h.self
    have named : Plain (tableAlias name use) := here.append (plain_toString use)
    exact ((quotes_quoteName name).append_plain blank).append_plain named
  | derived layout e key ih =>
    have inner := ih (h.child (List.mem_singleton_self e))
    exact ((quotes_wrap inner).append_plain blank).append_plain (plain_queryAlias key)
  | unionAll es ih =>
    exact quotes_separated (by decide) (by decide) fun e he => ih e he (h.child he)
  | select distinct columns sources conditions limitOne hs hc =>
    have clause : Plain (selectClause distinct columns) :=
      plain_selectClause h.self
    have joined := quotes_fromClause fun s member =>
      hs s member (h.child (List.mem_append_left _ member))
    have filtered := quotes_whereClause (renderAll sources) fun c member =>
      hc c member (h.child (List.mem_append_right _ member))
    have limit : Plain (if limitOne then "\nLIMIT 1" else "") := by cases limitOne <;> decide
    rw [Expr.quoted, List.map_append]
    exact ((joined.plain_append clause).append filtered.1 filtered.2).append_plain limit

/-! ## Compiled statements -/

/-- The literals in the text of a compiled statement are string constants of the formula. They keep
their values just if those with line breaks are not indented. -/
theorem compile_literals_iff {schema : Schema} {labels : Labels} {distinct : Bool} {f : Formula}
    {e : Expr Nat} (compiled : compile schema labels distinct f = .ok e)
    (named : ∀ entry ∈ labels, Plain entry.2) (words : f.Worded schema Plain PlainNumber) :
    (∀ q ∈ e.quoted, Term.const q.constant ∈ f.terms) ∧
    stringLiterals e.render = e.quoted.map Quoted.written ∧
    (stringLiterals e.render = e.quoted.map (fun q => q.constant.value) ↔
      ∀ q ∈ e.quoted, q.Kept) ∧
    ((∀ text ∈ stringLiterals e.render, ∃ c, Term.const c ∈ f.terms ∧ text = c.value) ↔
      ∀ q ∈ e.quoted, q.Kept ∨ ∃ c, Term.const c ∈ f.terms ∧ q.written = c.value) := by
  have read : stringLiterals e.render = e.quoted.map Quoted.written :=
    (quotes_render (compile_worded compiled (fun entry he _ => named entry he) words)).literals
  have origin : ∀ q ∈ e.quoted, Term.const q.constant ∈ f.terms := by
    have own : f.Worded schema (fun _ => True) (fun c => Term.const c ∈ f.terms) := by
      refine ⟨fun term hterm => ?_, fun _ _ _ _ => ⟨trivial, fun _ _ => trivial⟩⟩
      cases term with
      | var x => trivial
      | const c => exact hterm
    exact constant_quoted (compile_worded compiled (fun _ _ _ => trivial) own)
  refine ⟨origin, read, ?_, ?_⟩
  · rw [read, List.map_inj_left]
    exact forall₂_congr fun q _ => Quoted.written_eq_iff
  · rw [read, List.forall_mem_map]
    refine forall₂_congr fun q hq => ⟨.inr, fun h => ?_⟩
    rcases h with kept | other
    · exact ⟨q.constant, origin q hq, Quoted.written_eq_iff.2 kept⟩
    · exact other

-- names are not quoted, so marks in the name of a column are read as those of a literal
example :
    ∃ e, compile ⟨[⟨"A", ["'a'"]⟩], []⟩ [] false
        (.predicate ⟨"A", [.var ⟨⟨"x", none⟩, .undefined⟩], .undefined⟩) = .ok e ∧
      stringLiterals e.render = ["a"] :=
  ⟨_, rfl, by decide⟩

/-- Tables `A(a)` and `R(from, to)`. -/
def valueSchema : Schema :=
  { tables := [⟨"A", ["a"]⟩, ⟨"R", ["from", "to"]⟩] }

/-- `A(x) ∧ R(x, value)` -/
def valued (value : String) : Formula :=
  .junction .and [.predicate ⟨"A", [.var ⟨⟨"x", none⟩, .undefined⟩], .undefined⟩,
    .predicate ⟨"R", [.var ⟨⟨"x", none⟩, .undefined⟩, .const (.data value .string)], .undefined⟩]

theorem terms_valued (value : String) :
    (valued value).terms = [.var ⟨⟨"x", none⟩, .undefined⟩, .var ⟨⟨"x", none⟩, .undefined⟩,
      .const (.data value .string)] :=
  rfl

theorem worded_valued (value : String) :
    (valued value).Worded valueSchema Plain PlainNumber := by
  constructor
  · intro term hterm
    have x : Plain "x" := by decide
    have constant : PlainNumber (.data value .string) := fun numeric => absurd numeric (by decide)
    simp only [terms_valued, List.mem_cons, List.not_mem_nil, or_false] at hterm
    rcases hterm with rfl | rfl | rfl
    · exact x
    · exact x
    · exact constant
  · intro a ha table found
    have names : a.predicate = "A" ∨ a.predicate = "R" := by
      have atoms : (valued value).atoms =
          [.predicate ⟨"A", [.var ⟨⟨"x", none⟩, .undefined⟩], .undefined⟩,
            .predicate ⟨"R",
              [.var ⟨⟨"x", none⟩, .undefined⟩, .const (.data value .string)], .undefined⟩] :=
        rfl
      simp only [atoms, List.mem_cons, Atom.predicate.injEq, List.not_mem_nil, or_false] at ha
      rcases ha with rfl | rfl
      · exact .inl rfl
      · exact .inr rfl
    have first : valueSchema.table? "A" = some ⟨"A", ["a"]⟩ := rfl
    have second : valueSchema.table? "R" = some ⟨"R", ["from", "to"]⟩ := rfl
    rcases names with name | name
    · rw [name, first] at found
      cases found
      decide
    · rw [name, second] at found
      cases found
      decide

/-- A literal with an apostrophe in an indented sub-query. -/
theorem valued_literals :
    ∃ e, compile valueSchema [] false (valued "it's") = .ok e ∧
      stringLiterals e.render = ["it's"] := by
  have compiled : compile valueSchema [] false (valued "it's") = .ok _ := rfl
  have kept := (compile_literals_iff compiled (by simp) (worded_valued "it's")).2.2.1.2 (by decide)
  exact ⟨_, compiled, kept⟩

/-- The second line of the literal is indented with the sub-query. -/
theorem valued_moved :
    ∃ e, compile valueSchema [] false (valued "a\nb") = .ok e ∧
      stringLiterals e.render = ["a\n    b"] ∧
      ∀ c, Term.const c ∈ (valued "a\nb").terms → c.value ≠ "a\n    b" := by
  have compiled : compile valueSchema [] false (valued "a\nb") = .ok _ := rfl
  have words := compile_worded compiled (by simp) (worded_valued "a\nb")
  refine ⟨_, compiled, (quotes_render words).literals.trans rfl, ?_⟩
  intro c hc
  have only : c = .data "a\nb" .string := by simpa [terms_valued] using hc
  subst only
  decide

end Sql
end QueryCalculus
