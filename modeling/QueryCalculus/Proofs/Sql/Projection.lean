import QueryCalculus.Proofs.Sql.Columns

/-!
# The outermost statement

- `Expr.Inner` : a statement that is not the outermost one
- `Task.Apart` : what is requested of a part is not provided by queries beside it
- `formula_presents` : a compiled part is the whole statement with inner statements in it, or it is
  built from inner statements only

At the end it is said that a statement has one column for each free variable of its formula.
-/

namespace QueryCalculus
namespace Sql

/-! ## Inner statements -/

/-- A statement inside of another one keeps repeated rows, has no limit, and its columns have the
names of their variables. -/
def Expr.Inner {κ : Type} : Expr κ → Prop
  | .select distinct columns _ _ limitOne =>
    distinct = false ∧ limitOne = false ∧ ∀ c ∈ columns, c.name = c.carries.name
  | _ => True

theorem inner_map {κ μ : Type} {number : κ → μ} {use : String → κ → μ} {e : Expr κ}
    (h : e.Inner) : (e.map number use).Inner := by
  cases e with
  | select distinct columns sources conditions limitOne => exact h
  | _ => trivial

/-- The label of a variable: the given one, unless there is none or it is empty. -/
def labelOf (labels : Labels) (x : Variable) : String :=
  match labels.find? (·.1 == x) with
  | some entry => if entry.2 = "" then x.name else entry.2
  | none => x.name

theorem label_true {ctx : Context} {x : Variable} : ctx.label true x = labelOf ctx.labels x := by
  unfold Context.label labelOf
  cases ctx.labels.find? (·.1 == x) with
  | none => rfl
  | some entry =>
    by_cases empty : entry.2 = ""
    · simp [empty]
    · simp [empty]

/-! ## Requested and provided variables -/

/-- No query beside the part provides what is requested of it. -/
def Task.Apart (t : Task) : Prop :=
  ∀ x : Variable, x.toIdent ∈ t.requested → t.providers.find? x = none

theorem Task.Apart.within {t : Task} (apart : t.Apart) (vars : VarSet) :
    (t.within vars).Apart := by
  intro x hx
  have requested : x.toIdent ∈ t.requested := (VarSet.mem_diff.1 hx).1
  rw [Providers.find?_within, apart x requested, ite_self]

theorem Task.Apart.join {t : Task} {parts : List Formula} (apart : t.Apart) (f : Formula)
    (n : Nat) : (t.join (t.wanted parts) f n).Apart := by
  intro x hx
  have wanted : x.toIdent ∈ t.wanted parts := (VarSet.mem_inter.1 hx).1
  -- it is requested of the conjunction, or it is shared and not provided
  rcases Task.mem_wanted.1 wanted with requested | ⟨-, unprovided⟩
  · exact apart x requested
  · exact unprovided

theorem Task.apart_condition {t : Task} {providers : Providers} {n : Nat} :
    (t.condition providers n).Apart :=
  fun x hx => absurd hx (VarSet.not_mem_empty x.toIdent)

theorem Task.Apart.subtask {t : Task} {f : Formula} {next : Task × Formula} (apart : t.Apart)
    (h : next ∈ t.subtasks f) : next.1.Apart := by
  revert apart
  refine subtasks_cases (P := fun t f t' f' => t.Apart → t'.Apart) ?single ?join ?condition
    ?alternative ?negNeg ?neg ?exist h
  case single => exact fun t c part apart => apart
  case join => exact fun t parts f n several hf apart => apart.join f n
  case condition => exact fun t parts f n several hf apart => Task.apart_condition
  case alternative => exact fun t parts f n several hf apart => apart
  case negNeg => exact fun t body apart => Task.apart_condition
  case neg => exact fun t body plain positive apart => Task.apart_condition
  case exist => exact fun t vars body apart => apart.within vars

/-! ## Compiled parts -/

section Parts

variable {ctx : Context} {t : Task}

/-- How a compiled part is written: if it is outermost, it is a statement with the asked form around
inner statements, and otherwise it consists of inner statements. -/
structure Presents (ctx : Context) (t : Task) (e : Expr Position) : Prop where
  outer : t.outermost = true → ∃ columns sources conditions,
    e = .select ctx.distinct columns sources conditions t.requested.isEmpty ∧
      ∀ s ∈ sources ++ conditions, s.Throughout Expr.Inner
  inner : t.outermost = false → e.Throughout Expr.Inner

theorem inner_exist (q : Expr Position) : (Expr.exist q).Inner :=
  trivial

/-- A statement that offers what is requested. -/
theorem presents_select {columns : List Column} {sources conditions : List (Expr Position)}
    (offers : ctx.Offers t columns)
    (below : ∀ s ∈ sources ++ conditions, s.Throughout Expr.Inner) :
    Presents ctx t (ctx.select t.outermost columns sources conditions) := by
  constructor
  · intro outermost
    refine ⟨Column.sort columns, sources, conditions, ?_, below⟩
    simp [Context.select, outermost, offers.isEmpty_eq]
  · intro inside
    have parts := List.forall_mem_append.1 below
    refine (Context.throughout_select_iff inner_exist).2 ⟨?_, parts.1, parts.2⟩
    refine ⟨by simp [inside], by simp [inside], ?_⟩
    intro c hc
    -- labels are for the outermost statement only
    have label : c.name = ctx.label t.outermost c.carries := offers.of_sort.named c hc
    rw [label, inside]
    exact Context.label_false

theorem presents_conditionOr {c : Expr Position} (none : t.requested.isEmpty = true)
    (below : c.Throughout Expr.Inner) : Presents ctx t (ctx.conditionOr t.outermost c) := by
  have statement : Presents ctx t (ctx.select t.outermost [] [] [c]) :=
    presents_select (Context.offers_nil none) (List.forall_mem_singleton.2 below)
  constructor
  · intro outermost
    have written := statement.outer outermost
    simpa [Context.conditionOr, outermost] using written
  · intro inside
    simpa [Context.conditionOr, inside] using below

theorem presents_leaf {c : Expr Position} (none : t.requested.isEmpty = true)
    (children : c.children = []) (here : c.Inner) :
    Presents ctx t (ctx.conditionOr t.outermost c) :=
  presents_conditionOr none (Expr.throughout_leaf children here)

theorem Presents.of_task {t t' : Task} {e : Expr Position} (h : Presents ctx t' e)
    (outermost : t'.outermost = t.outermost) (requested : t'.requested = t.requested) :
    Presents ctx t e := by
  constructor
  · intro outer
    exact requested ▸ h.outer (outermost.trans outer)
  · intro inside
    exact h.inner (outermost.trans inside)

theorem inner_scan {a : PredicateAtom} {table : Table} :
    ∀ s ∈ [Expr.table table.name t.position] ++
        (ctx.scan t [] (a.terms.zip table.columns)).conditions,
      s.Throughout Expr.Inner := by
  intro s hs
  rcases List.mem_append.1 hs with source | condition
  · rw [List.mem_singleton.1 source]
    exact Expr.throughout_leaf rfl trivial
  · rcases Context.scan_conditions_equate s condition with ⟨column, value, rfl⟩
    exact Expr.throughout_leaf rfl trivial

/-- A compiled disjunction is a condition, a union, or a statement around a union. -/
theorem presents_disjunction {es : List (Expr Position)}
    (below : ∀ e ∈ es, e.Throughout Expr.Inner) : Presents ctx t (ctx.disjunction t es) := by
  unfold Context.disjunction
  split
  · rename_i none
    exact presents_conditionOr none (Expr.throughout_iff.2 ⟨trivial, below⟩)
  · have union : (Expr.unionAll es).Throughout Expr.Inner := Expr.throughout_iff.2 ⟨trivial, below⟩
    split
    · rename_i outermost
      have source : (Expr.derived .block (.unionAll es) t.position).Throughout Expr.Inner :=
        (Context.throughout_derived_iff trivial).2 union
      rw [← outermost]
      exact presents_select Context.offers_passedOn (List.forall_mem_singleton.2 source)
    · rename_i inside
      exact ⟨fun outermost => absurd outermost inside, fun _ => union⟩

theorem formula_presents {f : Formula} {e : Expr Position} (compiled : ctx.formula t f = .ok e)
    (fits : t.Fits f) : Presents ctx t e := by
  refine Context.formula_induction (motive := fun t f e => Presents ctx t e) (I := Task.Fits)
    (fun t f fits next h => fits.subtask h) ?truth ?comparison ?predicate ?empty ?single ?filter
    ?join ?alternatives ?negComparison ?negNeg ?neg ?exist compiled fits
  case truth =>
    intro t b fits
    exact presents_leaf (fits.isEmpty fun x => Formula.not_mem_selectable_truth) rfl trivial
  case comparison =>
    intro t c fits
    exact presents_leaf (fits.isEmpty fun x => Formula.not_mem_selectable_comparison) rfl trivial
  case predicate =>
    intro t a table fits found
    exact presents_select (Context.offers_scan fits (Context.tableFor_ok found).2) inner_scan
  case empty =>
    intro t c fits
    exact presents_leaf (fits.isEmpty fun x => Formula.not_mem_selectable_empty) rfl trivial
  case single => exact fun t c part e fits ih => ih.of_task rfl rfl
  case filter =>
    intro t parts conditions fits several complete unjoined some ih
    have group : (Expr.group (guarded (t.several parts) (t.conditional parts)
        conditions)).Throughout Expr.Inner :=
      Context.throughout_guarded (fun _ => trivial) (ih.imp fun _ _ h => h.inner rfl)
    exact presents_conditionOr (Task.requested_isEmpty complete unjoined) group
  case join =>
    intro t parts queries conditions fits several complete joined compiled ih ih'
    have sources := Context.throughout_sources (fun _ _ _ => trivial)
      (ih.imp fun _ _ h => h.inner rfl)
    have conditional : ∀ s ∈ grouped (guarded (t.several parts) (t.conditional parts) conditions),
        s.Throughout Expr.Inner :=
      (Context.throughout_grouped_iff trivial).2
        (Context.throughout_guarded (fun _ => trivial) (ih'.imp fun _ _ h => h.inner rfl))
    refine presents_select Context.offers_passedOn ?_
    exact List.forall_mem_append.2 ⟨sources, conditional⟩
  case alternatives =>
    intro t parts es fits several compiled ih
    refine presents_disjunction fun e he => ?_
    rcases forall₂_exists_left ih he with ⟨entry, -, h⟩
    exact h.inner rfl
  case negComparison =>
    intro t c fits
    exact presents_leaf (fits.isEmpty fun x => Formula.not_mem_selectable_neg) rfl trivial
  case negNeg =>
    intro t body e fits ih
    exact presents_conditionOr (fits.isEmpty fun x => Formula.not_mem_selectable_neg) (ih.inner rfl)
  case neg =>
    intro t body e layout fits plain positive ih
    have negated : (Expr.not layout e).Throughout Expr.Inner :=
      Expr.throughout_iff.2 ⟨trivial, List.forall_mem_singleton.2 (ih.inner rfl)⟩
    exact presents_conditionOr (fits.isEmpty fun x => Formula.not_mem_selectable_neg) negated
  case exist => exact fun t vars body e fits _ ih => ih.of_task rfl fits.requested_within

end Parts

/-! ## Compiled statements -/

theorem apart_rootTask {f : Formula} : (rootTask f).Apart :=
  fun _ _ => rfl

/-- The compiled statement offers the free variables, around inner statements. -/
theorem compile_select {schema : Schema} {labels : Labels} {distinct : Bool} {f : Formula}
    {e : Expr Nat} (compiled : compile schema labels distinct f = .ok e) :
    ∃ columns sources conditions,
      e = .select distinct columns sources conditions f.prepared.free.isEmpty ∧
      Context.Offers ⟨schema, f.prepared, labels, distinct⟩ (rootTask f.prepared) columns ∧
      ∀ s ∈ sources ++ conditions, s.Throughout Expr.Inner := by
  rcases compile_ok compiled with ⟨e', fits, inside, rfl⟩
  have answers := Context.formula_answers inside fits
  rcases (formula_presents inside fits).outer rfl with ⟨columns, sources, conditions, rfl, below⟩
  refine ⟨columns, _, _, rfl, answers.header, ?_⟩
  simp only [mapAll_eq_map, ← List.map_append, List.forall_mem_map]
  intro s hs
  exact Expr.throughout_map_iff.2 fun r hr => inner_map (below s hs r hr)

/-- A statement has one column for each free variable of the compiled formula, under its label, and
it looks for a single row just if there are none. Only the statement as a whole can drop repeated
rows, have a limit or use labels. All tasks of the compilation request selectable variables that no
query beside the part provides. -/
theorem compile_projects {schema : Schema} {labels : Labels} {distinct : Bool} {f : Formula}
    {e : Expr Nat} (compiled : compile schema labels distinct f = .ok e) :
    (∃ columns sources conditions,
      e = .select distinct columns sources conditions f.prepared.free.isEmpty ∧
      e.render = "SELECT " ++ (if distinct then "DISTINCT " else "") ++
        (if f.prepared.free.isEmpty then "1" else Text.commaSeparated (columns.map Column.text)) ++
        fromClause (renderAll sources) ++ whereClause (renderAll sources) (renderAll conditions) ++
        (if f.prepared.free.isEmpty then "\nLIMIT 1" else "") ∧
      (columns.map fun c => c.carries.toIdent).Perm f.prepared.free.idents ∧
      (∀ c ∈ columns, c.name = labelOf labels c.carries) ∧
      ∀ s ∈ sources ++ conditions, s.Throughout Expr.Inner) ∧
    ∀ goal, Task.Reaches (rootTask f.prepared, f.prepared) goal →
      goal.1.Fits goal.2 ∧ goal.1.Apart := by
  constructor
  · rcases compile_select compiled with ⟨columns, sources, conditions, rfl, offers, inner⟩
    have probe : columns.isEmpty = f.prepared.free.isEmpty := offers.isEmpty_eq
    refine ⟨columns, sources, conditions, rfl, ?text, offers.carries, ?named, inner⟩
    case text => simp only [Expr.render, selectClause, String.append_assoc, probe]
    case named => exact fun c hc => (offers.named c hc).trans label_true
  · intro goal reached
    rcases compile_ok compiled with ⟨-, fits, -, -⟩
    exact Task.of_reaches (P := fun task => task.1.Fits task.2 ∧ task.1.Apart)
      (fun task h next hnext => ⟨h.1.subtask hnext, h.2.subtask hnext⟩) reached
      ⟨fits, apart_rootTask⟩

/-- `∃ y (R(x, y) ∧ ¬ A(y))` -/
def leaving : Formula :=
  .quant .exist (VarSet.ofList [⟨⟨"y", none⟩, .undefined⟩])
    (.junction .and [
      .predicate
        ⟨"R", [.var ⟨⟨"x", none⟩, .undefined⟩, .var ⟨⟨"y", none⟩, .undefined⟩], .undefined⟩,
      .neg (.predicate ⟨"A", [.var ⟨⟨"y", none⟩, .undefined⟩], .undefined⟩)])

theorem leaving_projects :
    ∃ e columns sources conditions,
      compile ⟨[⟨"A", ["a"]⟩, ⟨"R", ["from", "to"]⟩], []⟩ [(⟨⟨"x", none⟩, .undefined⟩, "start")]
        true leaving = .ok e ∧
      e = .select true columns sources conditions false ∧
      (columns.map fun c => c.carries.toIdent).Perm [⟨"x", none⟩] ∧
      (∀ c ∈ columns, c.name = labelOf [(⟨⟨"x", none⟩, .undefined⟩, "start")] c.carries) ∧
      ∀ s ∈ sources ++ conditions, s.Throughout Expr.Inner := by
  have compiled : compile ⟨[⟨"A", ["a"]⟩, ⟨"R", ["from", "to"]⟩], []⟩
      [(⟨⟨"x", none⟩, .undefined⟩, "start")] true leaving = .ok _ := rfl
  rcases (compile_projects compiled).1 with
    ⟨columns, sources, conditions, whole, -, carries, named, inner⟩
  exact ⟨_, columns, sources, conditions, compiled, whole, carries, named, inner⟩

end Sql
end QueryCalculus
