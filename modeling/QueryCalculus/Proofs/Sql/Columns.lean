import QueryCalculus.Proofs.Sql.Expressions
import QueryCalculus.Proofs.Sql.Tasks

/-!
# The columns of compiled queries

- `Task.Fits` : only selectable variables are requested
- `Context.Offers` : columns for the requested variables, each once, under their labels
- `Context.formula_answers` : every branch of a compiled query offers what was requested
-/

namespace QueryCalculus
namespace Sql

/-! ## Requests that can be met -/

namespace Task

/-- Only variables that the part can select are requested of it. -/
def Fits (t : Task) (f : Formula) : Prop :=
  ∀ x : Ident, x ∈ t.requested → x ∈ f.selectable

theorem Fits.subtask {t : Task} {f : Formula} {next : Task × Formula} (fits : t.Fits f)
    (h : next ∈ t.subtasks f) : next.1.Fits next.2 := by
  revert fits
  refine subtasks_cases (P := fun t f t' f' => t.Fits f → t'.Fits f') ?single ?join ?condition
    ?alternative ?negNeg ?neg ?exist h
  case single =>
    intro t c part fits x hx
    exact Formula.mem_selectable_single.1 (fits x hx)
  case join =>
    intro t parts f n several hf fits x hx
    exact (VarSet.mem_inter.1 hx).2
  case condition =>
    intro t parts f n several hf fits x hx
    exact absurd hx (VarSet.not_mem_empty x)
  case alternative =>
    intro t parts f n several hf fits x hx
    match parts, several with
    | _ :: _ :: _, _ =>
      exact Formula.mem_selectable_or.1 (fits x hx) f (List.fst_mem_of_mem_zipIdx hf)
  case negNeg =>
    intro t body fits x hx
    exact absurd hx (VarSet.not_mem_empty x)
  case neg =>
    intro t body plain positive fits x hx
    exact absurd hx (VarSet.not_mem_empty x)
  case exist =>
    intro t vars body fits x hx
    exact (Formula.mem_selectable_quant.1 (fits x (VarSet.mem_diff.1 hx).1)).1

theorem Fits.isEmpty {t : Task} {f : Formula} (fits : t.Fits f)
    (none : ∀ x : Ident, x ∉ f.selectable) : t.requested.isEmpty = true :=
  VarSet.isEmpty_iff.2 fun x hx => none x (fits x hx)

theorem Fits.requested_within {t : Task} {vars : VarSet} {body : Formula}
    (fits : t.Fits (.quant .exist vars body)) : (t.within vars).requested = t.requested :=
  VarSet.diff_eq_self fun x hx => (Formula.mem_selectable_quant.1 (fits x hx)).2

end Task

theorem fits_rootTask {f : Formula} (safe : (f.free.diff f.selectable).isEmpty = true) :
    (rootTask f).Fits f := by
  intro x hx
  have kept := VarSet.isEmpty_iff.1 safe x
  rw [VarSet.mem_diff, not_and, not_not] at kept
  exact kept hx

/-! ## Sorted columns -/

theorem Column.place_perm (c : Column) (cs : List Column) : (c.place cs).Perm (c :: cs) := by
  induction cs with
  | nil => exact .refl _
  | cons d ds ih =>
    rw [Column.place]
    split
    · exact .refl _
    · exact (ih.cons d).trans (.swap c d ds)

theorem Column.sort_perm (cs : List Column) : (Column.sort cs).Perm cs := by
  induction cs with
  | nil => exact .refl _
  | cons c cs ih => exact (Column.place_perm c _).trans (ih.cons c)

/-! ## Statements -/

namespace Context

variable {ctx : Context}

theorem header_select {outermost : Bool} {columns : List Column}
    {sources conditions : List (Expr Position)} :
    (ctx.select outermost columns sources conditions).header = Column.sort columns := by
  unfold Context.select
  cases columns with
  | nil => cases outermost <;> rfl
  | cons c cs => simp [Expr.header]

theorem branches_select {outermost : Bool} {columns : List Column}
    {sources conditions : List (Expr Position)} :
    (ctx.select outermost columns sources conditions).branches =
      [ctx.select outermost columns sources conditions] := by
  unfold Context.select
  split <;> rfl

/-- What occurs in a statement, for properties that an existence test has anyway. -/
theorem throughout_select_iff {P : Expr Position → Prop} (test : ∀ q, P (.exist q))
    {outermost : Bool} {columns : List Column} {sources conditions : List (Expr Position)} :
    (ctx.select outermost columns sources conditions).Throughout P ↔
      P (.select (ctx.distinct && outermost) (Column.sort columns) sources conditions
          (columns.isEmpty && outermost)) ∧
        (∀ e ∈ sources, e.Throughout P) ∧ ∀ e ∈ conditions, e.Throughout P := by
  have inside := Expr.throughout_iff (P := P) (e := .select (ctx.distinct && outermost)
    (Column.sort columns) sources conditions (columns.isEmpty && outermost))
  simp only [Expr.children, List.forall_mem_append] at inside
  unfold Context.select
  split
  · rw [Expr.throughout_iff, and_iff_right (test _)]
    simpa only [Expr.children, List.forall_mem_singleton] using inside
  · exact inside

/-- What occurs in a condition or in the statement that asks for it. -/
theorem throughout_conditionOr_iff {P : Expr Position → Prop} (test : ∀ q, P (.exist q))
    {outermost : Bool} {c : Expr Position}
    (statement : ∀ distinct limitOne, P (.select distinct [] [] [c] limitOne)) :
    (ctx.conditionOr outermost c).Throughout P ↔ c.Throughout P := by
  unfold Context.conditionOr
  split
  · rw [throughout_select_iff test]
    simp [Column.sort, statement]
  · exact Iff.rfl

theorem throughout_amongConditions_iff {P : Expr Position → Prop} (group : ∀ c, P (.group [c]))
    {several : Bool} {f : Formula} {c : Expr Position} :
    (amongConditions several f c).Throughout P ↔ c.Throughout P := by
  unfold amongConditions
  split
  · rw [Expr.throughout_iff, and_iff_right (group c)]
    exact List.forall_mem_singleton
  · exact Iff.rfl

theorem throughout_derived_iff {P : Expr Position → Prop} {layout : Layout} {query : Expr Position}
    {key : Position} (derived : P (.derived layout query key)) :
    (Expr.derived layout query key).Throughout P ↔ query.Throughout P := by
  rw [Expr.throughout_iff, and_iff_right derived]
  exact List.forall_mem_singleton

theorem throughout_grouped_iff {P : Expr Position → Prop} {conditions : List (Expr Position)}
    (empty : P (.group [])) :
    (∀ e ∈ grouped conditions, e.Throughout P) ↔ (Expr.group conditions).Throughout P := by
  cases conditions with
  | nil => exact iff_of_true (by simp [grouped]) (Expr.throughout_leaf rfl empty)
  | cons c cs => simp [grouped]

/-- What occurs in a disjunction, for properties that all statements with at most one condition have
anyway. -/
theorem throughout_disjunction_iff {P : Expr Position → Prop} (test : ∀ q, P (.exist q))
    (statement : ∀ distinct columns sources conditions limitOne, conditions.length ≤ 1 →
      P (.select distinct columns sources conditions limitOne))
    (derived : ∀ layout query key, P (.derived layout query key)) {t : Task}
    {es : List (Expr Position)} (any : P (.any es)) :
    (ctx.disjunction t es).Throughout P ↔
      (t.requested.isEmpty = false → P (.unionAll es)) ∧ ∀ e ∈ es, e.Throughout P := by
  unfold Context.disjunction
  split
  · rename_i none
    rw [throughout_conditionOr_iff test fun _ _ => statement _ _ _ _ _ (by simp),
      Expr.throughout_iff, and_iff_right any]
    simp [none, Expr.children]
  · rename_i some
    -- the union itself, which an outermost disjunction wraps into a statement
    have union : (Expr.unionAll es).Throughout P ↔
        (t.requested.isEmpty = false → P (.unionAll es)) ∧ ∀ e ∈ es, e.Throughout P := by
      rw [Expr.throughout_iff]
      simp [some, Expr.children]
    split
    · rw [throughout_select_iff test, and_iff_right (statement _ _ _ _ _ (by simp)), ← union,
        List.forall_mem_singleton, Expr.throughout_iff, and_iff_right (derived _ _ _)]
      simp [Expr.children]
    · exact union

/-- What occurs in the joined queries and in the conditions of a conjunction, for properties that
sub-queries and groups have anyway. -/
theorem throughout_sources {P : Expr Position → Prop}
    (derived : ∀ layout query key, P (.derived layout query key)) {t : Task} {parts : List Formula}
    {queries : List (Expr Position)}
    (joined : List.Forall₂ (fun _ q => q.Throughout P) (t.joined parts) queries) :
    ∀ s ∈ t.sources (t.joined parts) queries, s.Throughout P := by
  have each : List.Forall₂ (fun (entry : Formula × Nat) q =>
      (Expr.derived (layoutOf entry.1) q (entry.2 :: t.position)).Throughout P ↔ True)
      (t.joined parts) queries :=
    joined.imp fun entry q h => iff_true_intro ((throughout_derived_iff (derived _ _ _)).2 h)
  exact (forall_mem_zipWith_iff each).2 fun _ _ => trivial

theorem throughout_guarded {P : Expr Position → Prop} (group : ∀ es, P (.group es)) {t : Task}
    {parts : List Formula} {several : Bool} {conditions : List (Expr Position)}
    (filtered : List.Forall₂ (fun _ c => c.Throughout P) (t.conditional parts) conditions) :
    (Expr.group (guarded several (t.conditional parts) conditions)).Throughout P := by
  have each : List.Forall₂ (fun entry c =>
      (amongConditions several entry.1 c).Throughout P ↔ True) (t.conditional parts) conditions :=
    filtered.imp fun entry c h =>
      iff_true_intro ((throughout_amongConditions_iff fun c => group [c]).2 h)
  refine Expr.throughout_iff.2 ⟨group _, ?_⟩
  exact (forall_mem_zipWith_iff each).2 fun _ _ => trivial

theorem name_passedOn {outermost : Bool} {x : Variable} :
    (ctx.passedOn outermost x).name = ctx.label outermost x := by
  simp only [Context.passedOn, Column.name]
  split
  · rename_i same
    exact same.symm
  · rfl

theorem label_false {x : Variable} : ctx.label false x = x.name := by
  unfold Context.label
  split <;> simp

/-- The columns carry the requested variables, each of them once, under their labels. -/
structure Offers (ctx : Context) (t : Task) (columns : List Column) : Prop where
  carries : (columns.map fun c => c.carries.toIdent).Perm t.requested.idents
  named : ∀ c ∈ columns, c.name = ctx.label t.outermost c.carries

/-- Every branch of a query offers what is requested, and so does the query as a whole. -/
structure Answers (ctx : Context) (t : Task) (e : Expr Position) : Prop where
  header : ctx.Offers t e.header
  branches : ∀ b ∈ e.branches, ctx.Offers t b.header

theorem Offers.of_sort {t : Task} {columns : List Column} (h : ctx.Offers t columns) :
    ctx.Offers t (Column.sort columns) where
  carries := ((Column.sort_perm columns).map _).trans h.carries
  named c hc := h.named c ((Column.sort_perm columns).mem_iff.1 hc)

theorem Offers.isEmpty_eq {t : Task} {columns : List Column} (h : ctx.Offers t columns) :
    columns.isEmpty = t.requested.isEmpty := by
  have lengths := h.carries.length_eq
  rw [VarSet.idents, List.length_map, List.length_map] at lengths
  rw [VarSet.isEmpty, Bool.eq_iff_iff, List.isEmpty_iff_length_eq_zero,
    List.isEmpty_iff_length_eq_zero, lengths]

theorem offers_nil {t : Task} (none : t.requested.isEmpty = true) : ctx.Offers t [] where
  carries := by
    have empty : t.requested.toList = [] := by simpa [VarSet.isEmpty] using none
    simp [VarSet.idents, empty]
  named c hc := absurd hc List.not_mem_nil

theorem offers_passedOn {t : Task} :
    ctx.Offers t (t.requested.toList.map (ctx.passedOn t.outermost)) where
  carries := by
    have same : ∀ x : Variable, (ctx.passedOn t.outermost x).carries.toIdent = x.toIdent :=
      fun _ => rfl
    simp [VarSet.idents, Function.comp_def, same]
  named c hc := by
    rcases List.mem_map.1 hc with ⟨x, -, rfl⟩
    exact name_passedOn

theorem answers_select {t : Task} {columns : List Column}
    {sources conditions : List (Expr Position)} (h : ctx.Offers t columns) :
    ctx.Answers t (ctx.select t.outermost columns sources conditions) := by
  have header : ctx.Offers t (ctx.select t.outermost columns sources conditions).header :=
    header_select ▸ h.of_sort
  refine ⟨header, ?_⟩
  intro b hb
  rw [branches_select, List.mem_singleton] at hb
  exact hb ▸ header

/-- A condition has no columns. -/
theorem answers_condition {t : Task} {c : Expr Position} (none : t.requested.isEmpty = true)
    (header : c.header = []) (branches : c.branches = [c]) : ctx.Answers t c := by
  refine ⟨header ▸ offers_nil none, ?_⟩
  intro b hb
  rw [branches, List.mem_singleton] at hb
  exact hb ▸ header ▸ offers_nil none

theorem answers_conditionOr {t : Task} {c : Expr Position} (none : t.requested.isEmpty = true)
    (h : t.outermost = false → ctx.Answers t c) :
    ctx.Answers t (ctx.conditionOr t.outermost c) := by
  unfold Context.conditionOr
  split
  · rename_i outermost
    rw [← outermost]
    exact answers_select (offers_nil none)
  · rename_i inner
    exact h (by simpa using inner)

theorem answers_leaf {t : Task} {c : Expr Position} (none : t.requested.isEmpty = true)
    (header : c.header = []) (branches : c.branches = [c]) :
    ctx.Answers t (ctx.conditionOr t.outermost c) :=
  answers_conditionOr none fun _ => answers_condition none header branches

/-! ## Atoms -/

theorem exists_mem_zip {α β : Type} {a : α} {as : List α} {bs : List β} (h : a ∈ as)
    (lengths : bs.length = as.length) : ∃ b, (a, b) ∈ as.zip bs := by
  have left : (as.zip bs).map Prod.fst = as := List.map_fst_zip (by omega)
  rw [← left] at h
  rcases List.mem_map.1 h with ⟨⟨a', b⟩, there, rfl⟩
  exact ⟨b, there⟩

theorem tableFor_ok {a : PredicateAtom} {table : Table} (h : ctx.tableFor a = .ok table) :
    ctx.schema.table? a.predicate = some table ∧ table.columns.length = a.terms.length := by
  unfold Context.tableFor at h
  split at h
  · cases h
  · rename_i found
    split at h
    · rename_i arity
      cases h
      exact ⟨found, arity⟩
    · cases h

/-- The named variables of a list of terms that do not occur earlier, each with its first column. -/
def firsts : List (Variable × String) → List (Term × String) → List (Variable × String)
  | _, [] => []
  | earlier, (.const _, _) :: rest => firsts earlier rest
  | earlier, (.var x, column) :: rest =>
    if x.isBlank then firsts earlier rest
    else
      match earlier.find? (·.1 == x) with
      | some _ => firsts earlier rest
      | none => (x, column) :: firsts ((x, column) :: earlier) rest

theorem mem_firsts {earlier : List (Variable × String)} {pairs : List (Term × String)}
    {x : Variable} {column : String} (h : (x, column) ∈ firsts earlier pairs) :
    (Term.var x, column) ∈ pairs ∧ x.isBlank = false ∧
      ∀ occurrence ∈ earlier, occurrence.1.toIdent ≠ x.toIdent := by
  fun_induction firsts earlier pairs with
  | case1 earlier => simp at h
  | case2 earlier c name rest ih =>
    rcases ih h with ⟨there, named, new⟩
    exact ⟨List.mem_cons_of_mem _ there, named, new⟩
  | case3 earlier y name rest blank ih =>
    rcases ih h with ⟨there, named, new⟩
    exact ⟨List.mem_cons_of_mem _ there, named, new⟩
  | case4 earlier y name rest named' occurrence found ih =>
    rcases ih h with ⟨there, named, new⟩
    exact ⟨List.mem_cons_of_mem _ there, named, new⟩
  | case5 earlier y name rest named' absent ih =>
    rcases List.mem_cons.1 h with here | later
    · cases here
      refine ⟨List.mem_cons_self, by simpa using named', ?_⟩
      -- it was looked up among the earlier occurrences and not found
      intro occurrence hoccurrence same
      exact List.find?_eq_none.1 absent occurrence hoccurrence (Variable.beq_iff.2 same)
    · rcases ih later with ⟨there, named, new⟩
      exact ⟨List.mem_cons_of_mem _ there, named, (List.forall_mem_cons.1 new).2⟩

theorem nodup_firsts (earlier : List (Variable × String)) (pairs : List (Term × String)) :
    ((firsts earlier pairs).map fun occurrence => occurrence.1.toIdent).Nodup := by
  fun_induction firsts earlier pairs with
  | case1 earlier => exact .nil
  | case2 earlier c name rest ih => exact ih
  | case3 earlier y name rest blank ih => exact ih
  | case4 earlier y name rest named occurrence found ih => exact ih
  | case5 earlier y name rest named absent ih =>
    refine List.nodup_cons.2 ⟨?_, ih⟩
    intro again
    rcases List.mem_map.1 again with ⟨occurrence, hoccurrence, same⟩
    exact (mem_firsts hoccurrence).2.2 _ List.mem_cons_self same.symm

theorem exists_first (earlier : List (Variable × String)) {pairs : List (Term × String)}
    {x : Variable} {column : String} (h : (Term.var x, column) ∈ pairs)
    (named : x.isBlank = false) :
    ∃ occurrence ∈ earlier ++ firsts earlier pairs, occurrence.1.toIdent = x.toIdent := by
  fun_induction firsts earlier pairs with
  | case1 earlier => simp at h
  | case2 earlier c name rest ih => exact ih (by simpa using h)
  | case3 earlier y name rest blank ih =>
    have later : (Term.var x, column) ∈ rest := by
      rcases List.mem_cons.1 h with here | later
      · cases here
        exact absurd blank (by simp [named])
      · exact later
    exact ih later
  | case4 earlier y name rest named' occurrence found ih =>
    rcases List.mem_cons.1 h with here | later
    · cases here
      -- it has occurred before, and that occurrence counts
      have same := List.find?_some found
      exact ⟨occurrence, List.mem_append_left _ (List.mem_of_find?_eq_some found),
        Variable.beq_iff.1 same⟩
    · exact ih later
  | case5 earlier y name rest named' absent ih =>
    rcases List.mem_cons.1 h with here | later
    · cases here
      exact ⟨(x, column), by simp, rfl⟩
    · rcases ih later with ⟨occurrence, hoccurrence, same⟩
      refine ⟨occurrence, ?_, same⟩
      simp only [List.cons_append, List.mem_cons, List.mem_append] at hoccurrence ⊢
      tauto

theorem scan_columns {t : Task} {earlier : List (Variable × String)}
    {pairs : List (Term × String)} : (ctx.scan t earlier pairs).columns =
      (firsts earlier pairs).flatMap fun occurrence =>
        ctx.selected t occurrence.1 occurrence.2 := by
  fun_induction firsts earlier pairs with
  | case1 earlier => rfl
  | case2 earlier c name rest ih => exact ih
  | case3 earlier y name rest blank ih => simpa [Context.scan, blank] using ih
  | case4 earlier y name rest named occurrence found ih =>
    simpa [Context.scan, named, found] using ih
  | case5 earlier y name rest named absent ih => simp [Context.scan, named, absent, ih]

section Atom

variable {a : PredicateAtom} {columns : List String}

/-- Every free variable of an atom has a first occurrence. -/
theorem exists_first_of_free (lengths : columns.length = a.terms.length) {x : Ident}
    (free : x ∈ (Formula.atom (.predicate a)).free) :
    ∃ occurrence ∈ firsts [] (a.terms.zip columns), occurrence.1.toIdent = x := by
  rcases Formula.mem_free_atom.1 free with ⟨y, hy, named, rfl⟩
  have occurs : Term.var y ∈ a.terms := hy
  rcases exists_mem_zip occurs lengths with ⟨column, there⟩
  rcases exists_first [] there named with ⟨occurrence, hoccurrence, same⟩
  exact ⟨occurrence, by simpa using hoccurrence, same⟩

theorem free_of_mem_firsts {occurrence : Variable × String}
    (h : occurrence ∈ firsts [] (a.terms.zip columns)) :
    occurrence.1.toIdent ∈ (Formula.atom (.predicate a)).free := by
  rcases mem_firsts h with ⟨there, named, -⟩
  exact Formula.mem_free_atom.2 ⟨occurrence.1, (List.of_mem_zip there).1, named, rfl⟩

end Atom

/-- What a scan demands of a term and its column, where the first occurrences of the variables are
given: a constant has its value, and a variable has the value of its first occurrence. -/
def Demands (P : Expr Position → Prop) (occurrences : List (Variable × String)) :
    Term × String → Prop
  | (.const c, column) => P (.equate column (.constant c))
  | (.var x, column) => x.isBlank = false → ∀ o ∈ occurrences, o.1.toIdent = x.toIdent →
      P (.equate column (.column o.2))

/-- A variable that occurred earlier is compared with that occurrence only. -/
theorem demands_var_iff {P : Expr Position → Prop} {earlier : List (Variable × String)}
    (distinct : (earlier.map fun o => o.1.toIdent).Nodup) {pairs : List (Term × String)}
    {x : Variable} {column : String} {occurrence : Variable × String} (named : x.isBlank = false)
    (there : occurrence ∈ earlier) (same : occurrence.1.toIdent = x.toIdent) :
    Demands P (earlier ++ firsts earlier pairs) (.var x, column) ↔
      P (.equate column (.column occurrence.2)) := by
  -- there is no other earlier occurrence, and no later one counts as first
  have only : ∀ o ∈ earlier ++ firsts earlier pairs, o.1.toIdent = x.toIdent → o = occurrence := by
    intro o ho same'
    rcases List.mem_append.1 ho with old | new
    · exact List.inj_on_of_nodup_map distinct old there (same'.trans same.symm)
    · exact absurd (same.trans same'.symm) ((mem_firsts new).2.2 occurrence there)
  constructor
  · intro demands
    exact demands named occurrence (List.mem_append_left _ there) same
  · intro here _ o ho same'
    rw [only o ho same']
    exact here

theorem forall_scan_conditions_iff_demands {t : Task} {earlier : List (Variable × String)}
    {pairs : List (Term × String)} {P : Expr Position → Prop}
    (distinct : (earlier.map fun o => o.1.toIdent).Nodup)
    (refl : ∀ x column, (Term.var x, column) ∈ pairs → P (.equate column (.column column))) :
    (∀ e ∈ (ctx.scan t earlier pairs).conditions, P e) ↔
      (∀ pair ∈ pairs, Demands P (earlier ++ firsts earlier pairs) pair) ∧
      ∀ o ∈ firsts earlier pairs, ∀ e ∈ t.provided o.1 o.2, P e := by
  fun_induction firsts earlier pairs with
  | case1 earlier => simp [Context.scan]
  | case2 earlier c name rest ih =>
    have tail := ih distinct fun x column h => refl x column (List.mem_cons_of_mem _ h)
    rw [Context.scan, List.forall_mem_cons, List.forall_mem_cons, tail, and_assoc]
    rfl
  | case3 earlier y name rest blank ih =>
    have tail := ih distinct fun x column h => refl x column (List.mem_cons_of_mem _ h)
    have nothing : Demands P (earlier ++ firsts earlier rest) (.var y, name) :=
      fun named => absurd blank (by simp [named])
    rw [Context.scan, if_pos blank, List.forall_mem_cons, tail, and_iff_right nothing]
  | case4 earlier y name rest named occurrence found ih =>
    have tail := ih distinct fun x column h => refl x column (List.mem_cons_of_mem _ h)
    have test := List.find?_some found
    have same : occurrence.1.toIdent = y.toIdent := Variable.beq_iff.1 test
    have there : occurrence ∈ earlier := List.mem_of_find?_eq_some found
    have conditions : (ctx.scan t earlier ((.var y, name) :: rest)).conditions =
        .equate name (.column occurrence.2) :: (ctx.scan t earlier rest).conditions := by
      simp [Context.scan, named, found]
    rw [conditions, List.forall_mem_cons, List.forall_mem_cons, tail, and_assoc,
      demands_var_iff distinct (by simpa using named) there same]
  | case5 earlier y name rest named absent ih =>
    have new : ∀ o ∈ earlier, o.1.toIdent ≠ y.toIdent := by
      intro o ho same
      exact List.find?_eq_none.1 absent o ho (Variable.beq_iff.2 same)
    have distinct' : (((y, name) :: earlier).map fun o => o.1.toIdent).Nodup := by
      refine List.nodup_cons.2 ⟨?_, distinct⟩
      intro again
      rcases List.mem_map.1 again with ⟨o, ho, same⟩
      exact new o ho same
    have tail := ih distinct' fun x column h => refl x column (List.mem_cons_of_mem _ h)
    -- the demands depend on the members of the list of occurrences, not on their order
    have moved : ∀ pair,
        Demands P (earlier ++ (y, name) :: firsts ((y, name) :: earlier) rest) pair ↔
        Demands P (((y, name) :: earlier) ++ firsts ((y, name) :: earlier) rest) pair := by
      rintro ⟨x | c, column⟩
      · simp only [Demands, List.cons_append, List.mem_append, List.mem_cons, or_left_comm]
      · rfl
    have conditions : (ctx.scan t earlier ((.var y, name) :: rest)).conditions =
        t.provided y name ++ (ctx.scan t ((y, name) :: earlier) rest).conditions := by
      simp [Context.scan, named, absent]
    have here : Demands P (((y, name) :: earlier) ++ firsts ((y, name) :: earlier) rest)
        (.var y, name) :=
      (demands_var_iff distinct' (by simpa using named) List.mem_cons_self rfl).2
        (refl y name List.mem_cons_self)
    simp only [moved]
    rw [conditions, List.forall_mem_append, List.forall_mem_cons, List.forall_mem_cons, tail,
      and_iff_right here, and_left_comm]

/-- The conditions of a scan: constants have their values, a repeated variable has the value of its
first occurrence, and so has a provided variable. -/
theorem forall_scan_conditions_iff {t : Task} {earlier : List (Variable × String)}
    {pairs : List (Term × String)} {P : Expr Position → Prop}
    (distinct : (earlier.map fun o => o.1.toIdent).Nodup)
    (refl : ∀ x column, (Term.var x, column) ∈ pairs → P (.equate column (.column column))) :
    (∀ e ∈ (ctx.scan t earlier pairs).conditions, P e) ↔
      (∀ c column, (Term.const c, column) ∈ pairs → P (.equate column (.constant c))) ∧
      (∀ x column, (Term.var x, column) ∈ pairs → x.isBlank = false →
        ∀ o ∈ earlier ++ firsts earlier pairs, o.1.toIdent = x.toIdent →
          P (.equate column (.column o.2))) ∧
      ∀ o ∈ firsts earlier pairs, ∀ e ∈ t.provided o.1 o.2, P e := by
  rw [forall_scan_conditions_iff_demands distinct refl, ← and_assoc]
  refine and_congr_left' ?_
  constructor
  · intro demands
    exact ⟨fun c column h => demands _ h, fun x column h => demands _ h⟩
  · rintro ⟨constants, repeated⟩ ⟨x | c, column⟩ h
    · exact repeated x column h
    · exact constants c column h

theorem scan_conditions_equate {t : Task} {pairs : List (Term × String)} :
    ∀ e ∈ (ctx.scan t [] pairs).conditions, ∃ column value, e = .equate column value := by
  rw [forall_scan_conditions_iff (by simp) fun x column h => ⟨column, _, rfl⟩]
  refine ⟨fun c column h => ⟨column, _, rfl⟩,
    fun x column h named o ho same => ⟨column, _, rfl⟩, ?_⟩
  intro o ho e he
  unfold Task.provided at he
  split at he
  · split at he
    · simp at he
    · exact ⟨_, _, List.mem_singleton.1 he⟩
  · simp at he

/-- What occurs in the statement for an atom. -/
theorem throughout_scan {P : Expr Position → Prop} (test : ∀ q, P (.exist q))
    (source : ∀ name use, P (.table name use)) (equate : ∀ column value, P (.equate column value))
    {t : Task} {columns : List Column} {name : String} {pairs : List (Term × String)}
    (statement : ∀ distinct columns limitOne, P (.select distinct columns [.table name t.position]
      (ctx.scan t [] pairs).conditions limitOne)) :
    (ctx.select t.outermost columns [.table name t.position]
      (ctx.scan t [] pairs).conditions).Throughout P := by
  refine (throughout_select_iff test).2 ⟨statement _ _ _, ?_, ?_⟩
  · exact List.forall_mem_singleton.2 (Expr.throughout_leaf rfl (source _ _))
  · intro e he
    rcases scan_conditions_equate e he with ⟨column, value, rfl⟩
    exact Expr.throughout_leaf rfl (equate _ _)

theorem map_carries_selected {t : Task} {occurrences : List (Variable × String)} :
    (occurrences.flatMap fun occurrence => ctx.selected t occurrence.1 occurrence.2).map
        (fun c => c.carries.toIdent) =
      (occurrences.map fun occurrence => occurrence.1.toIdent).filter (· ∈ t.requested) := by
  induction occurrences with
  | nil => rfl
  | cons occurrence rest ih =>
    rw [List.flatMap_cons, List.map_append, ih, List.map_cons, List.filter_cons, Context.selected]
    -- the column of an occurrence is selected just if its variable is requested
    by_cases requested : occurrence.1.toIdent ∈ t.requested
    · simp [VarSet.contains_iff.2 requested, requested]
    · have absent : ¬ t.requested.contains occurrence.1 = true := fun h =>
        requested (VarSet.contains_iff.1 h)
      simp [absent, requested]

/-- A scan offers the requested variables of the atom. -/
theorem offers_scan {t : Task} {a : PredicateAtom} {table : Table}
    (fits : t.Fits (.atom (.predicate a))) (lengths : table.columns.length = a.terms.length) :
    ctx.Offers t (ctx.scan t [] (a.terms.zip table.columns)).columns := by
  constructor
  · rw [scan_columns, map_carries_selected,
      List.perm_ext_iff_of_nodup ((nodup_firsts _ _).filter _) t.requested.nodup_idents]
    intro x
    rw [List.mem_filter, decide_eq_true_iff, VarSet.mem_idents, and_iff_right_iff_imp]
    intro requested
    -- a requested variable is free in the atom, so that it has a first occurrence
    have free := Formula.mem_selectable_predicate.1 (fits x requested)
    rcases exists_first_of_free lengths free with ⟨occurrence, hoccurrence, same⟩
    exact List.mem_map.2 ⟨occurrence, hoccurrence, same⟩
  · intro c hc
    rw [scan_columns] at hc
    rcases List.mem_flatMap.1 hc with ⟨occurrence, -, hc⟩
    unfold Context.selected at hc
    split at hc
    · rw [List.mem_singleton.1 hc]
      rfl
    · simp at hc

/-! ## Compiled parts -/

theorem Answers.of_task {t t' : Task} {e : Expr Position} (h : ctx.Answers t' e)
    (outermost : t'.outermost = t.outermost)
    (requested : t'.requested.idents = t.requested.idents) :
    ctx.Answers t e := by
  have offers : ∀ columns, ctx.Offers t' columns → ctx.Offers t columns := by
    intro columns h
    exact ⟨requested ▸ h.carries, outermost ▸ h.named⟩
  exact ⟨offers _ h.header, fun b hb => offers _ (h.branches b hb)⟩

theorem answers_unionAll {t : Task} {es : List (Expr Position)} (some : es ≠ [])
    (each : ∀ e ∈ es, ctx.Answers t e) : ctx.Answers t (.unionAll es) := by
  constructor
  · cases es with
    | nil => exact absurd rfl some
    | cons e es => exact (each e List.mem_cons_self).header
  · intro b hb
    rw [Expr.branches, Expr.branchesAll_eq_flatMap] at hb
    rcases List.mem_flatMap.1 hb with ⟨e, he, hb⟩
    exact (each e he).branches b hb

/-- Every branch of a compiled query has columns for the requested variables. -/
theorem formula_answers {t : Task} {f : Formula} {e : Expr Position}
    (compiled : ctx.formula t f = .ok e) (fits : t.Fits f) : ctx.Answers t e := by
  refine formula_induction (motive := fun t f e => ctx.Answers t e) (I := Task.Fits)
    (fun t f fits next h => fits.subtask h) ?truth ?comparison ?predicate ?empty ?single ?filter
    ?join ?alternatives ?negComparison ?negNeg ?neg ?exist compiled fits
  case truth =>
    intro t b fits
    exact answers_leaf (fits.isEmpty fun x => Formula.not_mem_selectable_truth) rfl rfl
  case comparison =>
    intro t c fits
    exact answers_leaf (fits.isEmpty fun x => Formula.not_mem_selectable_comparison) rfl rfl
  case predicate =>
    intro t a table fits found
    exact answers_select (offers_scan fits (tableFor_ok found).2)
  case empty =>
    intro t c fits
    exact answers_leaf (fits.isEmpty fun x => Formula.not_mem_selectable_empty) rfl rfl
  case single =>
    intro t c part e fits ih
    exact ih.of_task rfl rfl
  case filter =>
    intro t parts conditions fits several complete unjoined some ih
    have none := Task.requested_isEmpty complete unjoined
    exact answers_leaf none rfl rfl
  case join =>
    intro t parts queries conditions fits several complete joined compiled ih ih'
    exact answers_select offers_passedOn
  case alternatives =>
    intro t parts es fits several compiled ih
    -- a union has a first branch, whose columns are those of the union
    have some : es ≠ [] := by
      rintro rfl
      have lengths := ih.length_eq
      simp only [List.length_zipIdx, List.length_nil] at lengths
      omega
    have each : ∀ e ∈ es, ∃ n, ctx.Answers (t.alternative n) e := by
      intro e he
      rcases forall₂_exists_left ih he with ⟨entry, -, answers⟩
      exact ⟨entry.2, answers⟩
    unfold Context.disjunction
    split
    · rename_i none
      exact answers_leaf none rfl rfl
    · split
      · rename_i outermost
        rw [← outermost]
        exact answers_select offers_passedOn
      · rename_i inner
        refine answers_unionAll some fun e he => ?_
        rcases each e he with ⟨n, answers⟩
        exact answers.of_task (by simpa [Task.alternative] using inner) rfl
  case negComparison =>
    intro t c fits
    exact answers_leaf (fits.isEmpty fun x => Formula.not_mem_selectable_neg) rfl rfl
  case negNeg =>
    intro t body e fits ih
    have none := fits.isEmpty fun x => Formula.not_mem_selectable_neg
    -- nothing is requested of the body of a double negation, nor of the negation
    have empty : t.requested.idents = [] := by
      simpa [VarSet.idents, VarSet.isEmpty] using none
    exact answers_conditionOr none fun inner => ih.of_task inner.symm empty.symm
  case neg =>
    intro t body e layout fits plain positive ih
    exact answers_leaf (fits.isEmpty fun x => Formula.not_mem_selectable_neg) rfl rfl
  case exist =>
    intro t vars body e fits _ ih
    exact ih.of_task rfl (congrArg VarSet.idents fits.requested_within)

end Context

/-- A compiled statement is the numbered statement of the prepared formula, of which all free
variables are requested. -/
theorem compile_ok {schema : Schema} {labels : Labels} {distinct : Bool} {f : Formula}
    {e : Expr Nat} (h : compile schema labels distinct f = .ok e) :
    ∃ e', (rootTask f.prepared).Fits f.prepared ∧
      Context.formula ⟨schema, f.prepared, labels, distinct⟩ (rootTask f.prepared) f.prepared =
        .ok e' ∧
      e = e'.numbered := by
  unfold compile compilePrepared at h
  split at h
  · cases h
  · simp only at h
    split at h
    · rename_i safe
      -- the check for unsafe variables has been passed
      cases compiled : Context.formula ⟨schema, f.prepared, labels, distinct⟩ (rootTask f.prepared)
          f.prepared with
      | error err =>
        rw [compiled] at h
        cases h
      | ok e' =>
        rw [compiled] at h
        cases h
        exact ⟨e', fits_rootTask safe, rfl, rfl⟩
    · cases h

end Sql
end QueryCalculus
