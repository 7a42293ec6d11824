import QueryCalculus.Proofs.Sql.Joins
import QueryCalculus.Proofs.Sql.ReadBack
import QueryCalculus.Proofs.Sql.Scans

/-!
# Statements return the answers of their formulas

- `Expr.SourcesApart` : no table has the alias of a sub-query, ignoring case
- `formula_correct` : every compiled part of a range-restricted formula is correct
- `Expr.Returns` : the rows of what is read from the text are the answers of a formula

At the end it is said when the text of a compiled statement returns the answers of its formula.
-/

namespace QueryCalculus
namespace Sql

/-! ## Aliases -/

namespace Expr

/-- No table of the statement has the alias of one of its sub-queries. Aliases are written without
quotes, so that case does not matter. -/
def SourcesApart (e : Expr Nat) : Prop :=
  ∀ entry ∈ e.uses, ∀ key ∈ e.mentions, fold (tableAlias entry.1 entry.2) ≠ queryAlias key

instance (e : Expr Nat) : Decidable e.SourcesApart :=
  inferInstanceAs (Decidable (∀ entry ∈ e.uses, ∀ key ∈ e.mentions,
    fold (tableAlias entry.1 entry.2) ≠ queryAlias key))

/-- The sources of a statement do not hide the sub-queries that its conditions refer to. -/
def Unshadowed : Expr Nat → Prop
  | .select _ _ sources conditions _ =>
    ∀ name use, .table name use ∈ sources → ∀ column key x,
      .equate column (.reference key x) ∈ conditions → fold (tableAlias name use) ≠ queryAlias key
  | _ => True

theorem SourcesApart.child {e c : Expr Nat} (apart : e.SourcesApart) (hc : c ∈ e.children) :
    c.SourcesApart := by
  have list : ∀ {β : Type} (g : Expr Nat → List β) {es : List (Expr Nat)}, c ∈ es →
      g c ⊆ es.flatMap g :=
    fun g es h b hb => List.mem_flatMap.2 ⟨c, h, hb⟩
  have inside : c.uses ⊆ e.uses ∧ c.mentions ⊆ e.mentions := by
    cases e with
    | any es | group es | unionAll es =>
      simp only [uses, mentions, usesAll_eq_flatMap, mentionsAll_eq_flatMap]
      exact ⟨list _ hc, list _ hc⟩
    | not layout e | exist e =>
      rw [List.mem_singleton.1 hc]
      exact ⟨List.Subset.refl _, List.Subset.refl _⟩
    | derived layout e key =>
      rw [List.mem_singleton.1 hc]
      exact ⟨List.Subset.refl _, List.subset_append_left _ _⟩
    | select distinct columns sources conditions limitOne =>
      simp only [uses, mentions, usesAll_eq_flatMap, mentionsAll_eq_flatMap, ← List.flatMap_append]
      exact ⟨list _ hc, list _ hc⟩
    | _ => simp [children] at hc
  intro entry hentry key hkey
  exact apart entry (inside.1 hentry) key (inside.2 hkey)

theorem SourcesApart.unshadowed {e : Expr Nat} (apart : e.SourcesApart) :
    e.Throughout Unshadowed := by
  have here : ∀ e : Expr Nat, e.SourcesApart → e.Unshadowed := by
    intro e apart
    cases e with
    | select distinct columns sources conditions limitOne =>
      intro name use hsource column key x hcondition
      refine apart (name, use) ?_ key ?_
      · rw [uses, usesAll_eq_flatMap]
        exact List.mem_append_left _ (List.mem_flatMap.2 ⟨_, hsource, by simp [uses]⟩)
      · rw [mentions, mentionsAll_eq_flatMap, mentionsAll_eq_flatMap]
        refine List.mem_append_right _ (List.mem_flatMap.2 ⟨_, hcondition, ?_⟩)
        simp [mentions, Operand.mentions]
    | _ => trivial
  intro s inside
  -- a part has no aliases that the whole does not have
  have kept : s.SourcesApart := by
    induction inside with
    | refl => exact apart
    | tail _ last ih => exact ih.child last
  exact here s kept

end Expr

/-! ## Conditions without own variables -/

section Provided

variable {schema : Schema} {D : Type} [DecidableEq D] {db : Database schema D}
  {M : Interpretation D} {number : Position → Nat} {use : String → Position → Nat} {ctx : Context}
  {t : Task} {f : Formula} {env : Env D} {v : Valuation D}

theorem Correct.holds_iff {e : Expr Position} (correct : Correct db M number use t f e)
    (none : t.requested.isEmpty = true) (inside : t.outermost = false)
    (provided : ∀ x : Variable, x.toIdent ∈ f.free → t.providers.find? x ≠ Option.none)
    (sees : t.Sees number f env v) :
    (e.map number use).condition.holds db env = true ↔ f.HoldsApart M v :=
  (correct.holds none inside env sees.supplied).trans (Task.exists_solves_iff sees provided)

/-- A part that can not select anything is correct if its condition has its truth value. -/
theorem correct_of_provided {c : Expr Position} (settled : t.Settled f)
    (none : ∀ x : Ident, x ∉ f.selectable)
    (h : ∀ env v, t.Sees number f env v →
      ((c.map number use).condition.holds db env = true ↔ f.HoldsApart M v)) :
    Correct db M number use t f (ctx.conditionOr t.outermost c) := by
  refine correct_conditionOr (settled.fits.isEmpty none) fun env supplied => ?_
  have nonempty := db.nonempty
  -- all its variables are provided, so that there is only one candidate for a solution
  rcases supplied.exists_sees with ⟨v, sees⟩
  rw [h env v sees, Task.exists_solves_iff sees fun x hx => settled.provided none hx]

omit [DecidableEq D] in
/-- The operand for a provided variable or a constant has the value of the term. -/
theorem value_operand {term : Term} (sees : t.Sees number f env v)
    (constants : ∀ c, Term.const c = term → M.constant c = db.literal (constantLiteral c))
    (free : ∀ x, Term.var x = term → x.toIdent ∈ f.free)
    (provided : ∀ x, Term.var x = term → t.providers.find? x ≠ none) :
    ((operand t.providers term).map number).scalar.value db env = some (term.value M v) := by
  cases term with
  | const c => rw [value_const, constants c rfl, operand, Operand.map, Operand.scalar, Scalar.value]
  | var x =>
    -- a provided variable is a reference to the column of its provider
    rcases Option.ne_none_iff_exists'.1 (provided x rfl) with ⟨key, found⟩
    have reference := sees x (free x rfl) key found
    simp only [operand, found, Operand.map, Operand.scalar, Scalar.value]
    exact reference

theorem holds_comparison_iff {c : Comparison} (sees : t.Sees number f env v)
    (constants : ∀ d, Term.const d ∈ [c.left, c.right] →
      M.constant d = db.literal (constantLiteral d))
    (free : ∀ x, Term.var x ∈ [c.left, c.right] → x.toIdent ∈ f.free)
    (provided : ∀ x, Term.var x ∈ [c.left, c.right] → t.providers.find? x ≠ none) :
    ((comparison t.providers c).map number use).condition.holds db env = true ↔
      c.Holds M v := by
  have left : ((operand t.providers c.left).map number).scalar.value db env =
      some (c.left.value M v) :=
    value_operand sees (fun d same => constants d (by simp [same]))
      (fun x same => free x (by simp [same])) fun x same => provided x (by simp [same])
  have right : ((operand t.providers c.right).map number).scalar.value db env =
      some (c.right.value M v) :=
    value_operand sees (fun d same => constants d (by simp [same]))
      (fun x same => free x (by simp [same])) fun x same => provided x (by simp [same])
  rw [comparison, Expr.map, Expr.condition, holds_compare left right, Comparison.Holds]
  cases c.relation <;> simp [Relation.decides, Relation.Relates]

end Provided

/-! ## Compiled parts -/

section Parts

variable {ctx : Context} {D : Type} [DecidableEq D] {db : Database ctx.schema D}
  {M : Interpretation D} {number : Position → Nat} {use : String → Position → Nat} {t : Task}

theorem correct_truth {b : Bool} (settled : t.Settled (.atom (.truth b))) :
    Correct db M number use t (.atom (.truth b)) (ctx.conditionOr t.outermost (.truth b)) := by
  refine correct_of_provided settled (fun _ => Formula.not_mem_selectable_truth) fun env v _ => ?_
  simp only [Expr.map, Expr.condition, Condition.holds, Formula.HoldsApart, Formula.HoldsBy,
    Atom.HoldsApart]

theorem correct_empty (settled : t.Settled (.junction .and [])) :
    Correct db M number use t (.junction .and []) (ctx.conditionOr t.outermost (.truth true)) := by
  refine correct_of_provided settled (fun _ => Formula.not_mem_selectable_empty) fun env v _ => ?_
  simp only [Expr.map, Expr.condition, Condition.holds, Formula.HoldsApart, Formula.HoldsBy,
    Formula.AllHoldBy]

/-- The variables of a comparison are free in it, since they are not blank. -/
theorem free_of_restricted {c : Comparison}
    (restricted : ∃ known, (Formula.atom (.comparison c)).rangeRestricted known = true)
    {x : Variable} (hx : Term.var x ∈ [c.left, c.right]) :
    x.toIdent ∈ (Formula.atom (.comparison c)).free := by
  rcases restricted with ⟨known, restricted⟩
  exact Formula.mem_free_atom.2 ⟨x, hx, Formula.rangeRestricted_comparison restricted hx, rfl⟩

omit [DecidableEq D] in
theorem holdsApart_iff_of_restricted {c : Comparison} {v : Valuation D}
    (restricted : ∃ known, (Formula.atom (.comparison c)).rangeRestricted known = true) :
    (Formula.atom (.comparison c)).HoldsApart M v ↔ c.Holds M v := by
  rcases restricted with ⟨known, restricted⟩
  simp only [Formula.HoldsApart, Formula.HoldsBy, Atom.HoldsApart]
  exact Formula.comparison_holdsApart_iff fun x hx =>
    Formula.rangeRestricted_comparison restricted hx

theorem correct_comparison {c : Comparison} (settled : t.Settled (.atom (.comparison c)))
    (represents : db.Represents M (.atom (.comparison c))) :
    Correct db M number use t (.atom (.comparison c))
      (ctx.conditionOr t.outermost (comparison t.providers c)) := by
  have none : ∀ x : Ident, x ∉ (Formula.atom (.comparison c)).selectable :=
    fun _ => Formula.not_mem_selectable_comparison
  refine correct_of_provided settled none fun env v sees => ?_
  rw [holdsApart_iff_of_restricted settled.restricted]
  exact holds_comparison_iff sees represents.comparison
    (fun x hx => free_of_restricted settled.restricted hx) fun x hx =>
      settled.provided none (free_of_restricted settled.restricted hx)

omit [DecidableEq D] in
theorem holdsApart_neg_iff {body : Formula} {M : Interpretation D} {v : Valuation D} :
    (Formula.neg body).HoldsApart M v ↔ ¬ body.HoldsApart M v := by
  simp only [Formula.HoldsApart, Formula.HoldsBy]

theorem correct_negComparison {c : Comparison} (settled : t.Settled (.neg (.atom (.comparison c))))
    (represents : db.Represents M (.neg (.atom (.comparison c)))) :
    Correct db M number use t (.neg (.atom (.comparison c)))
      (ctx.conditionOr t.outermost (comparison t.providers c.negated)) := by
  have restricted : ∃ known, (Formula.atom (.comparison c)).rangeRestricted known = true := by
    rcases settled.restricted with ⟨known, restricted⟩
    exact ⟨known, (Formula.rangeRestricted_neg.1 restricted).2⟩
  have inside : db.Represents M (.atom (.comparison c)) := represents.of_atoms (List.Subset.refl _)
  refine correct_of_provided settled (fun _ => Formula.not_mem_selectable_neg) fun env v sees => ?_
  have holds : ((comparison t.providers c.negated).map number use).condition.holds db env = true ↔
      c.negated.Holds M v :=
    holds_comparison_iff sees (fun d hd => inside.comparison d hd)
      (fun x hx => free_of_restricted restricted hx)
      fun x hx => settled.provided_neg (free_of_restricted restricted hx)
  rw [holds, holdsApart_neg_iff, holdsApart_iff_of_restricted restricted]
  exact Formula.relates_negated_iff

theorem correct_negNeg {body : Formula} {e : Expr Position} (settled : t.Settled (.neg (.neg body)))
    (correct : Correct db M number use (t.single.condition t.providers 0) body e) :
    Correct db M number use t (.neg (.neg body)) (ctx.conditionOr t.outermost e) := by
  refine correct_of_provided settled (fun _ => Formula.not_mem_selectable_neg) fun env v sees => ?_
  rw [correct.holds_iff rfl rfl (fun x hx => settled.provided_neg (Formula.mem_free_neg.2 hx))
    fun x hx => sees x (Formula.mem_free_neg.2 (Formula.mem_free_neg.2 hx)),
    holdsApart_neg_iff, holdsApart_neg_iff, not_not]

theorem correct_neg {body : Formula} {e : Expr Position} {layout : Layout}
    (settled : t.Settled (.neg body))
    (correct : Correct db M number use (t.condition t.providers 0) body e) :
    Correct db M number use t (.neg body) (ctx.conditionOr t.outermost (.not layout e)) := by
  refine correct_of_provided settled (fun _ => Formula.not_mem_selectable_neg) fun env v sees => ?_
  rw [Expr.map, Expr.condition, Condition.holds, Bool.not_eq_true', ← Bool.not_eq_true,
    holdsApart_neg_iff, not_iff_not]
  exact correct.holds_iff rfl rfl (fun x hx => settled.provided_neg hx)
    fun x hx => sees x (Formula.mem_free_neg.2 hx)

/-- A part that hands over to a part with the same solutions, up to variables that are not
requested. -/
theorem Correct.of_subtask {t' : Task} {f f' : Formula} {e : Expr Position}
    (correct : Correct db M number use t' f' e) (outermost : t'.outermost = t.outermost)
    (requested : t'.requested.isEmpty = t.requested.isEmpty)
    (supplied : ∀ env : Env D, t.Supplied number f env → t'.Supplied number f' env)
    (up : ∀ env w, t'.Solves M number f' env w →
      t.Solves M number f env w)
    (down : ∀ env w, t.Solves M number f env w →
      ∃ u, t'.Solves M number f' env u ∧
        ∀ c ∈ e.header, u c.carries.toIdent = w c.carries.toIdent) :
    Correct db M number use t f e := by
  constructor
  · intro none inside env here
    rw [correct.holds (requested ▸ none) (outermost ▸ inside) env (supplied env here)]
    constructor
    · rintro ⟨w, solves⟩
      exact ⟨w, up env w solves⟩
    · rintro ⟨w, solves⟩
      rcases down env w solves with ⟨u, solves, -⟩
      exact ⟨u, solves⟩
  · intro outside env here row
    rw [correct.rows (by rwa [requested, outermost]) env (supplied env here)]
    constructor
    · rintro ⟨w, solves, rfl⟩
      exact ⟨w, up env w solves, rfl⟩
    · rintro ⟨w, solves, rfl⟩
      rcases down env w solves with ⟨u, solves, same⟩
      refine ⟨u, solves, List.map_congr_left fun c hc => ?_⟩
      rw [same c hc]

theorem correct_single {part : Formula} {e : Expr Position}
    (correct : Correct db M number use t.single part e) :
    Correct db M number use t (.junction .and [part]) e := by
  -- the only part has the solutions of the conjunction
  have solves : ∀ env w, t.single.Solves M number part env w ↔
      t.Solves M number (.junction .and [part]) env w := by
    intro env w
    rw [Task.solves_and_iff, List.forall_mem_singleton]
    exact Task.solves_iff_of_providers rfl
  refine correct.of_subtask rfl rfl ?_ (fun env w => (solves env w).1) fun env w h =>
    ⟨w, (solves env w).2 h, fun _ _ => rfl⟩
  intro env supplied x hx
  exact supplied x (Formula.mem_free_junction.2 ⟨part, by simp, hx⟩)

theorem correct_exist {vars : VarSet} {body : Formula} {e : Expr Position}
    (settled : t.Settled (.quant .exist vars body)) (answers : ctx.Answers (t.within vars) e)
    (correct : Correct db M number use (t.within vars) body e) :
    Correct db M number use t (.quant .exist vars body) e := by
  have requested := settled.fits.requested_within
  -- outside of the quantifier the providers are those inside, without those of bound variables
  have found : ∀ (x : Variable) key, (t.within vars).providers.find? x = some key →
      x.toIdent ∉ vars ∧ t.providers.find? x = some key := by
    intro x key found
    rw [Providers.find?_within] at found
    split at found
    · cases found
    · rename_i free
      exact ⟨free, found⟩
  refine correct.of_subtask rfl (by rw [requested]) ?supplied ?up ?down
  case supplied =>
    intro env supplied x hx key h
    rcases found x key h with ⟨free, h⟩
    exact supplied x (Formula.mem_free_quant.2 ⟨hx, free⟩) key h
  case up =>
    rintro env w ⟨sees, holds⟩
    refine ⟨?_, ?_⟩
    · intro x hx key h
      rcases Formula.mem_free_quant.1 hx with ⟨hx, free⟩
      exact sees x hx key (by rw [Providers.find?_within, if_neg free, h])
    · simp only [Formula.HoldsApart, Formula.HoldsBy]
      exact ⟨w, fun _ _ => rfl, holds⟩
  case down =>
    rintro env w ⟨sees, holds⟩
    simp only [Formula.HoldsApart, Formula.HoldsBy] at holds
    -- the solution changes its values for the bound variables, none of which is a column
    rcases holds with ⟨u, same, holds⟩
    refine ⟨u, ⟨?_, holds⟩, ?_⟩
    · intro x hx key h
      rcases found x key h with ⟨free, h⟩
      rw [sees x (Formula.mem_free_quant.2 ⟨hx, free⟩) key h, same _ free]
    · intro c hc
      have carried : c.carries.toIdent ∈ (t.within vars).requested :=
        VarSet.mem_idents.1 (answers.header.carries.mem_iff.1 (List.mem_map.2 ⟨c, hc, rfl⟩))
      rw [requested] at carried
      exact same _ (Formula.mem_selectable_quant.1 (settled.fits _ carried)).2

/-- What is compiled for the parts of a range-restricted formula is correct. -/
theorem formula_correct (injective : Function.Injective number) {f : Formula} {e : Expr Position}
    (compiled : ctx.formula t f = .ok e) (settled : t.Settled f) (represents : db.Represents M f)
    (clear : e.Throughout fun s => (s.map number use).Unshadowed) :
    Correct db M number use t f e := by
  -- the induction runs over compiled parts that are settled; that tables hide no alias is asked
  -- of the expression and passed on to the expressions inside
  revert clear
  have test : ∀ q : Expr Position, ((Expr.exist q).map number use).Unshadowed := fun _ => trivial
  have statement : ∀ (c : Expr Position) distinct limitOne,
      ((Expr.select distinct [] [] [c] limitOne).map number use).Unshadowed :=
    fun c distinct limitOne name use h => absurd h List.not_mem_nil
  refine Context.formula_induction
    (I := fun t f => t.Settled f ∧ (∃ e, ctx.formula t f = .ok e) ∧ db.Represents M f)
    (motive := fun t f e => (e.Throughout fun s => (s.map number use).Unshadowed) →
      Correct db M number use t f e)
    ?step ?truth ?comparison ?predicate ?empty ?single ?filter ?join ?alternatives ?negComparison
    ?negNeg ?neg ?exist compiled ⟨settled, ⟨e, compiled⟩, represents⟩
  case step =>
    rintro t f ⟨settled, ⟨e, compiled⟩, represents⟩ next below
    exact ⟨settled.subtask compiled below, Context.subtask_ok compiled below,
      represents.of_atoms (atoms_subtask_subset below)⟩
  case truth => exact fun t b inv _ => correct_truth inv.1
  case comparison => exact fun t c inv _ => correct_comparison inv.1 inv.2.2
  case predicate =>
    intro t a table inv found clear
    refine correct_scan inv.1 inv.2.2 found fun column key x condition => ?_
    have own := ((Context.throughout_select_iff test).1 clear).1
    -- the table is the only source of its statement
    refine own table.name (use table.name t.position) ?_ column (number key) x ?_
    · simp [mapAll, Expr.map]
    · rw [mapAll_eq_map]
      exact List.mem_map_of_mem condition
  case empty =>
    intro t c inv _
    cases c with
    | and => exact correct_empty inv.1
    | or =>
      rcases inv.1.restricted with ⟨known, restricted⟩
      simp [Formula.rangeRestricted] at restricted
  case single =>
    intro t c part e inv ih clear
    cases c with
    | and => exact correct_single (ih clear)
    | or =>
      rcases inv.1.restricted with ⟨known, restricted⟩
      simp [Formula.rangeRestricted] at restricted
  case filter =>
    intro t parts conditions inv several complete unjoined _ ih clear
    have clear := (Context.throughout_conditionOr_iff test (statement _)).1 clear
    have correct := forall₂_and_zipWith ih (Expr.throughout_iff.1 clear).2
    refine correct_filter inv.1 complete unjoined (correct.imp fun entry c h => h.1 ?_)
    exact (Context.throughout_amongConditions_iff fun _ => trivial).1 h.2
  case join =>
    intro t parts queries conditions inv several complete joined compiled ih ih' clear
    have answers := forall₂_imp_mem compiled fun entry hentry q h =>
      Context.formula_answers h (inv.1.fits.subtask (Task.mem_subtasks_joined several hentry))
    rcases (Context.throughout_select_iff test).1 clear with ⟨-, sources, filters⟩
    have filters := (Context.throughout_grouped_iff trivial).1 filters
    have correct := forall₂_and_zipWith ih sources
    have filtered := forall₂_and_zipWith ih' (Expr.throughout_iff.1 filters).2
    refine correct_join inv.1 answers (correct.imp fun entry q h => h.1 ?_) injective complete
      (filtered.imp fun entry c h => h.1 ?_)
    · exact (Context.throughout_derived_iff trivial).1 h.2
    · exact (Context.throughout_amongConditions_iff fun _ => trivial).1 h.2
  case alternatives =>
    intro t parts es inv
    -- disjunctions are not range restricted
    rcases inv.1.restricted with ⟨known, restricted⟩
    simp [Formula.rangeRestricted] at restricted
  case negComparison => exact fun t c inv _ => correct_negComparison inv.1 inv.2.2
  case negNeg =>
    intro t body e inv ih clear
    have inside := (Context.throughout_conditionOr_iff test (statement _)).1 clear
    exact correct_negNeg inv.1 (ih inside)
  case neg =>
    intro t body e layout inv _ _ ih clear
    have clear := (Context.throughout_conditionOr_iff test (statement _)).1 clear
    exact correct_neg inv.1 (ih ((Expr.throughout_iff.1 clear).2 e List.mem_cons_self))
  case exist =>
    intro t vars body e inv compiled ih clear
    have below : (t.within vars, body) ∈ t.subtasks (.quant .exist vars body) := by
      simp [Task.subtasks]
    have answers := Context.formula_answers compiled (inv.1.fits.subtask below)
    exact correct_exist inv.1 answers (ih clear)

end Parts

/-! ## Statements -/

section Statement

variable {schema : Schema} {labels : Labels} {distinct : Bool} {f : Formula} {e : Expr Nat}

theorem compile_resolved (compiled : compile schema labels distinct f = .ok e)
    (settled : (rootTask f.prepared).Settled f.prepared) : e.Resolved [] := by
  rcases compile_ok compiled with ⟨e', fits, inside, rfl⟩
  rcases e'.exists_numbering with ⟨number, injective, numbered⟩
  rw [numbered]
  have resolved := formula_resolvedWhen inside fits settled.outside [] (by simp)
  refine (@resolved_map_iff _ _ number e'.useNumber injective e' []).2 (resolved.2 ⟨?_, ?_⟩)
  · intro x free key found
    simp [rootTask, Providers.find?] at found
  · exact fun goal reached => settled.grounded_of_reaches inside reached

theorem mem_rows_compile_iff (compiled : compile schema labels distinct f = .ok e)
    (settled : (rootTask f.prepared).Settled f.prepared) (apart : e.SourcesApart) {D : Type}
    [DecidableEq D] {db : Database schema D} {M : Interpretation D}
    (represents : db.Represents M f.prepared) {row : Row D} :
    row ∈ e.statement.rows db [] ↔
      ∃ v, f.prepared.HoldsApart M v ∧ row = rowOf v e.header := by
  rcases compile_ok compiled with ⟨e', fits, inside, rfl⟩
  rcases e'.exists_numbering with ⟨number, injective, numbered⟩
  rw [numbered] at apart ⊢
  rw [Expr.header_map]
  -- nothing is provided around the whole statement, so that solutions are valuations of the formula
  have unprovided : ∀ x : Variable, (rootTask f.prepared).providers.find? x = none := fun _ => rfl
  have correct : Correct db M number e'.useNumber (rootTask f.prepared) f.prepared e' :=
    formula_correct injective inside settled represents
      (Expr.throughout_map_iff.1 apart.unshadowed)
  rw [correct.rows (fun _ => rfl) []]
  · constructor
    · rintro ⟨v, solves, row⟩
      exact ⟨v, solves.holds, row⟩
    · rintro ⟨v, holds, row⟩
      refine ⟨v, ⟨?_, holds⟩, row⟩
      intro x _ key found
      simp [unprovided] at found
  · intro x _ key found
    simp [unprovided] at found

end Statement

/-- The text of the statement can be read, and the rows of what is read are the answers of the
formula. -/
def Expr.Returns {schema : Schema} {D : Type} [DecidableEq D] (e : Expr Nat)
    (db : Database schema D) (M : Interpretation D) (f : Formula) : Prop :=
  ∃ query, readStatement e.render = some query ∧
    ∀ row, row ∈ query.rows db [] ↔ ∃ v, f.HoldsApart M v ∧ row = rowOf v e.header

/-- The text of the statement of a range-restricted formula without disjunctions is well formed and
returns the answers of the formula. For this, different variables of one conjunction must have
different names, and tables other aliases than sub-queries, ignoring case. Names must be identifiers
and numbers numerals, and no literal with a line break may be indented. -/
theorem compile_rows_iff {schema : Schema} {labels : Labels} {distinct : Bool} {f : Formula}
    {e : Expr Nat} (compiled : compile schema labels distinct f = .ok e)
    (restricted : f.prepared.rangeRestricted ∅ = true) (named : f.prepared.namesApart = true)
    (apart : e.SourcesApart)
    (labelled : ∀ entry ∈ labels, entry.2 ≠ "" → isIdentifier entry.2 = true)
    (words : f.Worded schema (isIdentifier · = true) (isWritable · = true))
    (kept : ∀ q ∈ e.quoted, q.Kept) {D : Type} [DecidableEq D] (db : Database schema D)
    (M : Interpretation D) (represents : db.Represents M f.prepared) :
    compileText schema labels distinct f = .ok e.render ∧
      e.Resolved [] ∧
      (e.header.map fun c => c.carries.toIdent).Perm f.prepared.free.idents ∧
      (∀ c ∈ e.header,
        c.name = Context.label ⟨schema, f.prepared, labels, distinct⟩ true c.carries) ∧
      e.Returns db M f.prepared := by
  rcases compile_ok compiled with ⟨e', fits, inside, numbers⟩
  have settled := settled_rootTask fits restricted named
  have answers := Context.formula_answers inside fits
  have header : e.header = e'.header := by
    rw [numbers]
    exact Expr.header_map e'
  refine ⟨?text, compile_resolved compiled settled, ?carries, ?names, e.statement, ?read, ?rows⟩
  case text =>
    rw [compileText, compiled]
    rfl
  case carries =>
    rw [header]
    exact answers.header.carries
  case names =>
    rw [header]
    exact answers.header.named
  case read => exact readStatement_compile compiled restricted labelled words kept
  case rows => exact fun row => mem_rows_compile_iff compiled settled apart represents

/-- Tables `A(a)`, `B(b)` and `R(s, t)`. -/
def graphSchema : Schema :=
  { tables := [⟨"A", ["a"]⟩, ⟨"B", ["b"]⟩, ⟨"R", ["s", "t"]⟩] }

/-- `A = {1, 2}`, `B = {3}` and `R = {(1, 3), (2, 3), (2, 4)}` -/
def graph : Database graphSchema Nat where
  rows name :=
    if name = "A" then [[1], [2]]
    else if name = "B" then [[3]]
    else if name = "R" then [[1, 3], [2, 3], [2, 4]]
    else []
  literal l := if l = .string "a\nb" then 1 else 0
  fits := by decide
  distinct := by decide

/-- `A(x) ∧ ¬ ∃ y (R(x, y) ∧ ¬ B(y))` -/
def allSuccessors : Formula :=
  .junction .and [.predicate ⟨"A", [.var ⟨⟨"x", none⟩, .undefined⟩], .undefined⟩,
    .neg (.quant .exist (VarSet.ofList [⟨⟨"y", none⟩, .undefined⟩])
      (.junction .and [
        .predicate
          ⟨"R", [.var ⟨⟨"x", none⟩, .undefined⟩, .var ⟨⟨"y", none⟩, .undefined⟩], .undefined⟩,
        .neg (.predicate ⟨"B", [.var ⟨⟨"y", none⟩, .undefined⟩], .undefined⟩)]))]

/-- Predicates hold of the rows of their tables, and constants are strings. -/
def Database.interpretation {schema : Schema} {D : Type} (db : Database schema D) :
    Interpretation D where
  relation predicate row := ∃ t, schema.table? predicate = some t ∧ row ∈ db.rows t.name
  object iri := db.literal (.string iri)
  data value := db.literal (.string value)

theorem represents_interpretation {schema : Schema} {D : Type} {db : Database schema D}
    {f : Formula}
    (strings : f.Worded schema (fun _ => True) fun c => constantLiteral c = .string c.value) :
    db.Represents db.interpretation f where
  relation a _ t found row := by simp [Database.interpretation, found]
  constant c hc := by
    rw [strings.terms _ hc]
    cases c <;> rfl

theorem isWritable_of_string {c : Constant} (string : constantLiteral c = .string c.value) :
    isWritable c = true := by
  cases c with
  | object iri => rfl
  | data value datatype =>
    by_cases numeric : datatype.isNumeric = true
    · -- a number would be written as such
      have other : datatype ≠ .boolean := by
        rintro rfl
        cases numeric
      rw [constantLiteral, if_neg other, if_pos numeric] at string
      cases string
    · simp [isWritable, numeric]

theorem writable_of_letters {schema : Schema} {f : Formula}
    (h : f.Worded schema (isSingleLetter · = true) fun c => constantLiteral c = .string c.value) :
    f.Worded schema (isIdentifier · = true) (isWritable · = true) :=
  h.mono (fun _ => isIdentifier_of_isSingleLetter) fun _ => isWritable_of_string

/-- Only `1` has all its successors in `B`. -/
theorem allSuccessors_rows :
    ∃ e query, compile graphSchema [] false allSuccessors = .ok e ∧
      allSuccessors.prepared.rangeRestricted ∅ = true ∧ allSuccessors.prepared.namesApart = true ∧
      e.SourcesApart ∧
      allSuccessors.Worded graphSchema (isIdentifier · = true) (isWritable · = true) ∧
      (∀ q ∈ e.quoted, q.Kept) ∧ graph.Represents graph.interpretation allSuccessors.prepared ∧
      readStatement e.render = some query ∧ query.rows graph [] = [[("x", 1)]] ∧
      ∀ row, row ∈ query.rows graph [] ↔
        ∃ v, allSuccessors.prepared.HoldsApart graph.interpretation v ∧ row = rowOf v e.header := by
  have compiled : compile graphSchema [] false allSuccessors = .ok _ := rfl
  have words : allSuccessors.Worded graphSchema (isIdentifier · = true) (isWritable · = true) :=
    writable_of_letters (by decide +kernel)
  have represents : graph.Represents graph.interpretation allSuccessors.prepared :=
    represents_interpretation (by decide +kernel)
  have returns := compile_rows_iff compiled rfl rfl ?apart (by simp) words ?kept graph
    graph.interpretation represents
  rcases returns.2.2.2.2 with ⟨query, read, rows⟩
  cases read.symm.trans (readStatement_compile compiled rfl (by simp) words ?kept)
  refine ⟨_, _, compiled, rfl, rfl, ?apart, words, ?kept, represents, read, ?value, rows⟩
  all_goals decide +kernel

/-! ## Where other rows are returned -/

/-- The text of a statement can be read, but a row is missing. -/
theorem not_returns {schema : Schema} {D : Type} [DecidableEq D] {f : Formula} {e : Expr Nat}
    {db : Database schema D} {M : Interpretation D} {v : Valuation D}
    (compiled : compile schema [] false f = .ok e)
    (restricted : f.prepared.rangeRestricted ∅ = true)
    (words : f.Worded schema (isIdentifier · = true) (isWritable · = true))
    (kept : ∀ q ∈ e.quoted, q.Kept) (holds : f.prepared.HoldsApart M v)
    (missing : rowOf v e.header ∉ e.statement.rows db []) :
    (∀ q ∈ e.quoted, q.Kept) ∧ ¬ e.Returns db M f.prepared := by
  refine ⟨kept, ?_⟩
  rintro ⟨query, read, all⟩
  cases read.symm.trans (readStatement_compile compiled restricted (by simp) words kept)
  exact missing ((all _).2 ⟨v, holds, rfl⟩)

/-- `A(x) ∧ B(y)` -/
def bothHold (x y : Ident) : Formula :=
  .junction .and [.predicate ⟨"A", [.var ⟨x, .undefined⟩], .undefined⟩,
    .predicate ⟨"B", [.var ⟨y, .undefined⟩], .undefined⟩]

theorem bothHold_holds {x y : Ident} {v : Valuation Nat} (a : v x = 1) (b : v y = 3) :
    (bothHold x y).HoldsApart graph.interpretation v :=
  ⟨⟨[1], ⟨_, rfl, by decide⟩, .cons (.inr a) .nil⟩, ⟨[3], ⟨_, rfl, by decide⟩, .cons (.inr b) .nil⟩,
    trivial⟩

/-- Tables `A(a)`, `B(b)` and `q(y)`. -/
def hidingSchema : Schema :=
  { tables := [⟨"A", ["a"]⟩, ⟨"B", ["b"]⟩, ⟨"q", ["y"]⟩] }

/-- `A = {1}`, `B = {3}` and `q = {4}` -/
def hidingRows : Database hidingSchema Nat where
  rows name :=
    if name = "A" then [[1]] else if name = "B" then [[3]] else if name = "q" then [[4]] else []
  literal _ := 0
  fits := by decide
  distinct := by decide

/-- `A(x) ∧ B(y) ∧ ¬ q(y)` -/
def hidden : Formula :=
  .junction .and [.predicate ⟨"A", [.var ⟨⟨"x", none⟩, .undefined⟩], .undefined⟩,
    .predicate ⟨"B", [.var ⟨⟨"y", none⟩, .undefined⟩], .undefined⟩,
    .neg (.predicate ⟨"q", [.var ⟨⟨"y", none⟩, .undefined⟩], .undefined⟩)]

theorem hidden_holds :
    hidden.prepared.HoldsApart hidingRows.interpretation fun x =>
      if x.name = "x" then 1 else 3 := by
  have differ : ¬ (Formula.predicate ⟨"q", [.var ⟨⟨"y", none⟩, .undefined⟩], .undefined⟩).HoldsApart
      hidingRows.interpretation fun x => if x.name = "x" then 1 else 3 := by
    rintro ⟨row, ⟨table, found, hrow⟩, denotes⟩
    cases found
    have only : row = [4] := by simpa [hidingRows] using hrow
    subst only
    cases denotes with
    | cons head _ =>
      rw [denotes_var_iff rfl] at head
      simp at head
  exact ⟨⟨[1], ⟨_, rfl, by decide⟩, .cons (.inr rfl) .nil⟩,
    ⟨[3], ⟨_, rfl, by decide⟩, .cons (.inr rfl) .nil⟩, differ, trivial⟩

/-- `A(c)` with a constant of two lines, and a condition that is always true -/
def twoLines : Formula :=
  .junction .and [.predicate ⟨"A", [.const (.data "a\nb" .string)], .undefined⟩,
    .atom (.truth true)]

/-- Variables of the same name are joined although they are different, and so are variables whose
names differ in case only. A table with the alias of a sub-query hides it from the conditions on the
table. A constant with a line break is compared as it stands in the text, with an indented line. -/
theorem clashing_rows :
    (∃ e, compile graphSchema [] false (bothHold ⟨"x", some 0⟩ ⟨"x", some 1⟩) = .ok e ∧
      (bothHold ⟨"x", some 0⟩ ⟨"x", some 1⟩).prepared.rangeRestricted ∅ = true ∧ e.SourcesApart ∧
      (∀ q ∈ e.quoted, q.Kept) ∧
      ¬ e.Returns graph graph.interpretation (bothHold ⟨"x", some 0⟩ ⟨"x", some 1⟩).prepared) ∧
    (∃ e, compile graphSchema [] false (bothHold ⟨"x", none⟩ ⟨"X", none⟩) = .ok e ∧
      (bothHold ⟨"x", none⟩ ⟨"X", none⟩).prepared.rangeRestricted ∅ = true ∧ e.SourcesApart ∧
      (∀ q ∈ e.quoted, q.Kept) ∧
      ¬ e.Returns graph graph.interpretation (bothHold ⟨"x", none⟩ ⟨"X", none⟩).prepared) ∧
    (∃ e, compile hidingSchema [] false hidden = .ok e ∧
      hidden.prepared.rangeRestricted ∅ = true ∧ hidden.prepared.namesApart = true ∧
      (∀ q ∈ e.quoted, q.Kept) ∧
      ¬ e.Returns hidingRows hidingRows.interpretation hidden.prepared) ∧
    ∃ e, compile graphSchema [] false twoLines = .ok e ∧
      twoLines.prepared.rangeRestricted ∅ = true ∧ twoLines.prepared.namesApart = true ∧
      e.SourcesApart ∧ ¬ e.Returns graph graph.interpretation twoLines.prepared := by
  refine ⟨?sameName, ?otherCase, ?sameAlias, ?twoLines⟩
  case sameName =>
    refine ⟨_, rfl, rfl, by decide +kernel, ?_⟩
    exact not_returns rfl rfl (writable_of_letters (by decide +kernel)) (by decide +kernel)
      (v := fun x => if x.scope = some 0 then 1 else 3) (bothHold_holds rfl rfl)
      (by decide +kernel)
  case otherCase =>
    refine ⟨_, rfl, rfl, by decide +kernel, ?_⟩
    exact not_returns rfl rfl (writable_of_letters (by decide +kernel)) (by decide +kernel)
      (v := fun x => if x.name = "x" then 1 else 3) (bothHold_holds rfl rfl)
      (by decide +kernel)
  case sameAlias =>
    exact ⟨_, rfl, rfl, rfl, not_returns rfl rfl (writable_of_letters (by decide +kernel))
      (by decide +kernel) hidden_holds (by decide +kernel)⟩
  case twoLines =>
    have holds : twoLines.prepared.HoldsApart graph.interpretation fun _ => 0 :=
      ⟨⟨[1], ⟨_, rfl, by decide⟩, .cons (.inr rfl) .nil⟩, rfl, trivial⟩
    refine ⟨_, rfl, rfl, rfl, by decide +kernel, fun ⟨query, read, all⟩ => ?_⟩
    -- the text is read with another constant, of which `A` does not hold
    have none := congrArg (fun read => read.map fun query => query.rows graph []) read
    have empty : query.rows graph [] = [] := Option.some.inj (none.symm.trans ?empty)
    case empty => decide +kernel
    have answer := (all _).2 ⟨_, holds, rfl⟩
    rw [empty] at answer
    cases answer

end Sql
end QueryCalculus
