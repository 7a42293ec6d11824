import QueryCalculus.Proofs.Sql.Solutions

/-!
# Correct statements and conditions

- `Correct` : what is returned for a part are its solutions
- `correct_select`, `correct_conditionOr` : when a statement is correct
- `correct_filter` : a conjunction without joined parts
-/

namespace QueryCalculus
namespace Sql

/-! ## Correct expressions -/

section Correct

variable {schema : Schema} {D : Type} [DecidableEq D]

/-- The rows of a query are those of the solutions of the part. A condition holds if there is a
solution. -/
structure Correct (db : Database schema D) (M : Interpretation D) (number : Position → Nat)
    (use : String → Position → Nat) (t : Task) (f : Formula) (e : Expr Position) : Prop where
  holds : t.requested.isEmpty = true → t.outermost = false → ∀ env, t.Supplied number f env →
    ((e.map number use).condition.holds db env = true ↔ ∃ w, t.Solves M number f env w)
  rows : (t.requested.isEmpty = true → t.outermost = true) → ∀ env, t.Supplied number f env →
    ∀ row, row ∈ (e.map number use).statement.rows db env ↔
      ∃ w, t.Solves M number f env w ∧ row = rowOf w e.header

variable {db : Database schema D} {M : Interpretation D} {number : Position → Nat}
  {use : String → Position → Nat} {ctx : Context} {t : Task} {f : Formula}

/-- A condition that asks for solutions, or the statement that asks for the condition. -/
theorem correct_conditionOr {c : Expr Position} (none : t.requested.isEmpty = true)
    (h : ∀ env, t.Supplied number f env →
      ((c.map number use).condition.holds db env = true ↔ ∃ w, t.Solves M number f env w)) :
    Correct db M number use t f (ctx.conditionOr t.outermost c) := by
  constructor
  · intro _ inside env supplied
    have condition : ctx.conditionOr t.outermost c = c := by simp [Context.conditionOr, inside]
    rw [condition]
    exact h env supplied
  · intro outside env supplied row
    have statement : ctx.conditionOr t.outermost c = .select ctx.distinct [] [] [c] true := by
      simp [Context.conditionOr, outside none, Context.select, Column.sort]
    -- there is one row to choose from, with no columns in it
    have alone :
        row ∈ ((Expr.select ctx.distinct [] [] [c] true).map number use).statement.rows db env ↔
        (c.map number use).condition.holds db ([] :: env) = true ∧ row = [] := by
      rw [Expr.map, mem_rows_statement_iff fun _ => rfl]
      simp [mapAll, Source.joined, Source.scopes, project, outputsOf]
    rw [statement, alone, h ([] :: env) supplied]
    constructor
    · rintro ⟨⟨w, solves⟩, rfl⟩
      exact ⟨w, ⟨solves.sees, solves.holds⟩, rfl⟩
    · rintro ⟨w, solves, rfl⟩
      exact ⟨⟨w, solves.sees, solves.holds⟩, rfl⟩

/-- A statement whose rows are those of the solutions, or the test whether it has one. -/
theorem correct_select {columns : List Column} {sources conditions : List (Expr Position)}
    (empty : columns.isEmpty = t.requested.isEmpty)
    (h : ∀ env, t.Supplied number f env → ∀ row,
      (∃ scope ∈ (Source.joined (sources.map fun e => (e.map number use).source)).scopes db env,
        (∀ c ∈ conditions, (c.map number use).condition.holds db (scope :: env) = true) ∧
          row = project db (scope :: env) (outputsOf (Column.sort columns))) ↔
      ∃ w, t.Solves M number f env w ∧ row = rowOf w (Column.sort columns)) :
    Correct db M number use t f (ctx.select t.outermost columns sources conditions) := by
  -- the query is the same in both cases, and a part without columns inside of a statement only
  -- asks whether it has rows
  let statement : Expr Position := .select (ctx.distinct && t.outermost) (Column.sort columns)
    sources conditions (columns.isEmpty && t.outermost)
  have rows : ∀ env, t.Supplied number f env → ∀ row,
      row ∈ (statement.map number use).statement.rows db env ↔
        ∃ w, t.Solves M number f env w ∧ row = rowOf w (Column.sort columns) := by
    intro env supplied row
    -- a limit is set only where there are no columns
    have bounded : (columns.isEmpty && t.outermost) = true → Column.sort columns = [] := by
      intro limit
      have none : columns = [] := by
        rw [Bool.and_eq_true] at limit
        simpa using limit.1
      rw [none]
      rfl
    rw [← h env supplied row, Expr.map, mem_rows_statement_iff bounded, mapAll_eq_map,
      mapAll_eq_map, List.map_map]
    simp only [List.forall_mem_map, Function.comp_def]
  constructor
  · intro none inside env supplied
    have test : ctx.select t.outermost columns sources conditions = .exist statement := by
      simp [Context.select, statement, empty, none, inside]
    rw [test, Expr.map, Expr.condition, Condition.holds, Bool.not_eq_true',
      List.isEmpty_eq_false_iff_exists_mem]
    simp only [rows env supplied]
    constructor
    · rintro ⟨row, w, solves, -⟩
      exact ⟨w, solves⟩
    · rintro ⟨w, solves⟩
      exact ⟨_, w, solves, rfl⟩
  · intro outside env supplied row
    have plain : ctx.select t.outermost columns sources conditions = statement := by
      cases none : t.requested.isEmpty with
      | true => simp [Context.select, statement, outside none]
      | false => simp [Context.select, statement, empty, none]
    rw [plain]
    exact rows env supplied row

/-! ## Conditions -/

theorem holds_amongConditions {several : Bool} {c : Expr Position} {env : Env D} :
    ((amongConditions several f c).map number use).condition.holds db env =
      (c.map number use).condition.holds db env := by
  unfold amongConditions
  split <;> rfl

theorem holds_group_iff {conditions : List (Expr Position)} {env : Env D} :
    ((Expr.group conditions).map number use).condition.holds db env = true ↔
      ∀ c ∈ conditions, (c.map number use).condition.holds db env = true := by
  rw [Expr.map, Expr.condition, holds_all_iff, conditionsOf_eq_map, List.forall_mem_map,
    mapAll_eq_map, List.forall_mem_map]

theorem holds_grouped_iff {conditions : List (Expr Position)} {env : Env D} :
    (∀ c ∈ grouped conditions, (c.map number use).condition.holds db env = true) ↔
      ∀ c ∈ conditions, (c.map number use).condition.holds db env = true := by
  unfold grouped
  split
  · rename_i none
    have empty : conditions = [] := by simpa using none
    simp [empty]
  · rw [List.forall_mem_singleton, holds_group_iff]

/-- The conditions of a conjunction hold if each of them has a solution. -/
theorem holds_guarded_iff {parts : List Formula} {conditions : List (Expr Position)}
    {several : Bool} {inner : Env D}
    (correct : List.Forall₂
      (fun entry c => Correct db M number use (t.condition (t.inner parts) entry.2) entry.1 c)
      (t.conditional parts) conditions)
    (supplied : ∀ entry ∈ t.conditional parts,
      (t.condition (t.inner parts) entry.2).Supplied number entry.1 inner) :
    (∀ c ∈ guarded several (t.conditional parts) conditions,
        (c.map number use).condition.holds db inner = true) ↔
      ∀ entry ∈ t.conditional parts,
        ∃ u,
          (t.condition (t.inner parts) entry.2).Solves M number entry.1 inner u := by
  refine forall_mem_zipWith_iff (forall₂_imp_mem correct fun entry hentry c h => ?_)
  rw [holds_amongConditions]
  exact h.holds rfl rfl inner (supplied entry hentry)

/-- A conjunction without joined parts. -/
theorem correct_filter {parts : List Formula} {conditions : List (Expr Position)} {several : Bool}
    (settled : t.Settled (.junction .and parts)) (complete : (t.missing parts).isEmpty = true)
    (unjoined : t.joined parts = [])
    (correct : List.Forall₂
      (fun entry c => Correct db M number use (t.condition (t.inner parts) entry.2) entry.1 c)
      (t.conditional parts) conditions) :
    Correct db M number use t (.junction .and parts)
      (ctx.conditionOr t.outermost
        (.group (guarded several (t.conditional parts) conditions))) := by
  refine correct_conditionOr (Task.requested_isEmpty complete unjoined) fun env supplied => ?_
  have nonempty := db.nonempty
  -- the conditions see just what is around the conjunction
  have around : Task.Around number t parts env env fun _ _ => Classical.arbitrary D :=
    ⟨fun _ _ _ => rfl, by simp [unjoined]⟩
  have alike : t.Alike parts fun _ _ => Classical.arbitrary D := by simp [Task.Alike, unjoined]
  have joint := Task.exists_solves_and_iff (M := M) settled complete around
  rw [holds_group_iff, holds_guarded_iff correct fun entry hentry =>
    around.supplied_condition settled supplied hentry]
  simpa [unjoined, alike] using joint.symm

end Correct

end Sql
end QueryCalculus
