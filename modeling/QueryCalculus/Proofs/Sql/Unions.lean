import QueryCalculus.Proofs.Sql.Columns

/-!
# The branches of unions

- `Expr.Aligned` : the branches of a chain of unions have the same variables in the same order
- `Formula.unionParts` : the parts that become the branches
- `columnOrder` : the order in which a branch selects the requested variables

At the end it is said when all unions of a statement are aligned.
-/

namespace QueryCalculus

mutual

/-- The parts of a formula that become the branches of a union. -/
def Formula.unionParts : Formula → List Formula
  | .junction .or parts => unionPartsAll parts
  | .junction .and [part] => part.unionParts
  | .quant .exist _ body => body.unionParts
  | f => [f]

def unionPartsAll : List Formula → List Formula
  | [] => []
  | f :: fs => f.unionParts ++ unionPartsAll fs

end

theorem unionPartsAll_eq_flatMap (fs : List Formula) :
    unionPartsAll fs = fs.flatMap Formula.unionParts := by
  induction fs with
  | nil => rfl
  | cons f fs ih => simp [unionPartsAll, ih]

theorem Formula.unionParts_single {c : Connective} {part : Formula} :
    (Formula.junction c [part]).unionParts = part.unionParts := by
  cases c with
  | and => rfl
  | or => simp [unionParts, unionPartsAll]

theorem Formula.unionParts_and {parts : List Formula} (several : 1 < parts.length) :
    (Formula.junction .and parts).unionParts = [.junction .and parts] := by
  match parts, several with
  | _ :: _ :: _, _ => rfl

namespace Sql

/-! ## Aligned branches -/

section Alignment

variable {κ μ : Type}

/-- The variables of a query in the order of its columns. -/
def Expr.order (e : Expr κ) : List Ident :=
  e.header.map fun c => c.carries.toIdent

/-- At every place, the branches of a chain of unions carry the same variable. -/
def Expr.Aligned (e : Expr κ) : Prop :=
  ∀ b ∈ e.branches, ∀ b' ∈ e.branches, b.order = b'.order

/-- The branches of a chain of unions carry the same variables, in any order. -/
def Expr.Matched (e : Expr κ) : Prop :=
  ∀ b ∈ e.branches, ∀ b' ∈ e.branches, b.order.Perm b'.order

theorem forall_eq_iff_map {α β : Type} {g : α → β} {as : List α} :
    (∀ a ∈ as, ∀ b ∈ as, g a = g b) ↔ ∀ x ∈ as.map g, ∀ y ∈ as.map g, x = y := by
  simp only [List.forall_mem_map]

variable {number : κ → μ} {use : String → κ → μ} {e : Expr κ}

theorem order_map : (e.map number use).order = e.order := by
  rw [Expr.order, Expr.header_map, Expr.order]

theorem aligned_map_iff : (e.map number use).Aligned ↔ e.Aligned := by
  simp only [Expr.Aligned, Expr.branches_map, List.forall_mem_map, order_map]

theorem matched_map_iff : (e.map number use).Matched ↔ e.Matched := by
  simp only [Expr.Matched, Expr.branches_map, List.forall_mem_map, order_map]

theorem aligned_of_branches (single : e.branches = [e]) : e.Aligned := by
  intro b hb b' hb'
  rw [single, List.mem_singleton] at hb hb'
  rw [hb, hb']

theorem matched_of_branches (single : e.branches = [e]) : e.Matched := by
  intro b hb b' hb'
  rw [aligned_of_branches single b hb b' hb']

end Alignment

/-! ## The order of columns -/

/-- The columns of a branch for the requested variables: those of an atom are named after the
columns of its table, and all others after the variables. -/
def columnsOf (schema : Schema) (requested : VarSet) : Formula → List Column
  | .atom (.predicate a) =>
    match schema.table? a.predicate with
    | some table =>
      ((Context.firsts [] (a.terms.zip table.columns)).filter fun o => requested.contains o.1).map
        fun o => ⟨o.1, o.2, some o.1.name⟩
    | none => []
  | _ => requested.toList.map fun x => ⟨x, x.name, none⟩

/-- The order in which a branch selects the requested variables. -/
def columnOrder (schema : Schema) (requested : VarSet) (f : Formula) : List Ident :=
  (Column.sort (columnsOf schema requested f)).map fun c => c.carries.toIdent

/-- All branches of a disjunction select the requested variables in the same order. -/
def Task.Ordered (schema : Schema) (t : Task) : Formula → Prop
  | .junction .or (part :: part' :: parts) =>
    t.requested.isEmpty = false →
      ∀ f ∈ (Formula.junction .or (part :: part' :: parts)).unionParts,
        ∀ g ∈ (Formula.junction .or (part :: part' :: parts)).unionParts,
          columnOrder schema t.requested f = columnOrder schema t.requested g
  | _ => True

theorem Task.ordered_or_iff {schema : Schema} {t : Task} {parts : List Formula}
    (several : 1 < parts.length) :
    t.Ordered schema (.junction .or parts) ↔
      (t.requested.isEmpty = false → ∀ f ∈ (Formula.junction .or parts).unionParts,
        ∀ g ∈ (Formula.junction .or parts).unionParts,
          columnOrder schema t.requested f = columnOrder schema t.requested g) := by
  match parts, several with
  | _ :: _ :: _, _ => exact Iff.rfl

theorem Task.ordered_and {schema : Schema} {t : Task} {parts : List Formula} :
    t.Ordered schema (.junction .and parts) := by
  cases parts <;> trivial

section Columns

variable {ctx : Context} {t : Task}

theorem passedOn_false {x : Variable} : ctx.passedOn false x = ⟨x, x.name, none⟩ := by
  simp [Context.passedOn, Context.label_false]

theorem scan_columns_eq {a : PredicateAtom} {table : Table} (found : ctx.tableFor a = .ok table)
    (inner : t.outermost = false) :
    (ctx.scan t [] (a.terms.zip table.columns)).columns =
      columnsOf ctx.schema t.requested (.atom (.predicate a)) := by
  simp only [columnsOf, (Context.tableFor_ok found).1, Context.scan_columns]
  induction Context.firsts [] (a.terms.zip table.columns) with
  | nil => rfl
  | cons o os ih =>
    rw [List.flatMap_cons, ih, Context.selected, inner, Context.label_false, List.filter_cons]
    split <;> rfl

end Columns

/-! ## What occurs in a conjunction -/

section Throughout

variable {ctx : Context} {t : Task} {parts : List Formula} {P : Expr Position → Prop}
  (plain : ∀ e : Expr Position, e.branches = [e] → P e)

include plain

theorem throughout_group_iff {Q : Formula × Nat → Prop} {several : Bool}
    {conditions : List (Expr Position)}
    (filtered : List.Forall₂ (fun entry c => c.Throughout P ↔ Q entry) (t.conditional parts)
      conditions) :
    (Expr.group (guarded several (t.conditional parts) conditions)).Throughout P ↔
      ∀ entry ∈ t.conditional parts, Q entry := by
  rw [Expr.throughout_iff, and_iff_right (plain _ rfl)]
  refine forall_mem_zipWith_iff (filtered.imp fun entry c h => ?_)
  exact (Context.throughout_amongConditions_iff fun c => plain _ rfl).trans h

theorem throughout_join_iff {Q R : Formula × Nat → Prop} {several : Bool} {columns : List Column}
    {queries conditions : List (Expr Position)}
    (joined : List.Forall₂ (fun entry q => q.Throughout P ↔ Q entry) (t.joined parts) queries)
    (filtered : List.Forall₂ (fun entry c => c.Throughout P ↔ R entry) (t.conditional parts)
      conditions) :
    (ctx.select t.outermost columns (t.sources (t.joined parts) queries)
        (grouped (guarded several (t.conditional parts) conditions))).Throughout P ↔
      (∀ entry ∈ t.joined parts, Q entry) ∧ ∀ entry ∈ t.conditional parts, R entry := by
  rw [Context.throughout_select_iff fun q => plain _ rfl, and_iff_right (plain _ rfl),
    Context.throughout_grouped_iff (plain _ rfl), throughout_group_iff plain filtered]
  refine and_congr_left' (forall_mem_zipWith_iff (joined.imp fun entry q h => ?_))
  exact (Context.throughout_derived_iff (plain _ rfl)).trans h

end Throughout

/-! ## Compiled parts -/

/-- How the unions in the expression for a part are aligned. -/
structure Unites (ctx : Context) (t : Task) (f : Formula) (e : Expr Position) : Prop where
  aligned : e.Throughout Expr.Aligned ↔
    ∀ goal, Task.Reaches (t, f) goal → goal.1.Ordered ctx.schema goal.2
  matched : e.Throughout Expr.Matched
  orders : t.outermost = false → t.requested.isEmpty = false →
    e.branches.map Expr.order = f.unionParts.map (columnOrder ctx.schema t.requested)

section Parts

variable {ctx : Context} {t : Task}

/-- Nothing is requested of a part without selectable variables. -/
theorem unites_condition {f : Formula} {e : Expr Position} (fits : t.Fits f)
    (none : ∀ x : Ident, x ∉ f.selectable)
    (aligned : e.Throughout Expr.Aligned ↔
      ∀ goal, Task.Reaches (t, f) goal → goal.1.Ordered ctx.schema goal.2)
    (matched : e.Throughout Expr.Matched) : Unites ctx t f e where
  aligned := aligned
  matched := matched
  orders _ some := by simp [fits.isEmpty none] at some

theorem unites_leaf {f : Formula} {c : Expr Position} (fits : t.Fits f)
    (none : ∀ x : Ident, x ∉ f.selectable) (children : c.children = []) (single : c.branches = [c])
    (subtasks : t.subtasks f = []) (ordered : t.Ordered ctx.schema f) :
    Unites ctx t f (ctx.conditionOr t.outermost c) := by
  refine unites_condition fits none ?_ ?_
  · rw [Context.throughout_conditionOr_iff (fun _ => aligned_of_branches rfl)
      fun _ _ => aligned_of_branches rfl, Task.forall_reaches_iff, subtasks]
    exact iff_of_true (Expr.throughout_leaf children (aligned_of_branches single))
      ⟨ordered, by simp⟩
  · rw [Context.throughout_conditionOr_iff (fun _ => matched_of_branches rfl)
      fun _ _ => matched_of_branches rfl]
    exact Expr.throughout_leaf children (matched_of_branches single)

/-- A part that hands over to a single part below. -/
theorem unites_of_subtask {t t' : Task} {f f' : Formula} {e : Expr Position}
    (h : Unites ctx t' f' e) (only : t.subtasks f = [(t', f')]) (ordered : t.Ordered ctx.schema f)
    (parts : f.unionParts = f'.unionParts) (outermost : t'.outermost = t.outermost)
    (requested : t'.requested = t.requested) : Unites ctx t f e where
  aligned := by
    have reached := Task.forall_reaches_iff (P := fun goal => goal.1.Ordered ctx.schema goal.2)
      (t := t) (f := f)
    rw [h.aligned, reached, only]
    simp [ordered]
  matched := h.matched
  orders inner some := by
    rw [parts, ← requested]
    exact h.orders (outermost.trans inner) (requested ▸ some)

theorem unites_scan {a : PredicateAtom} {table : Table} (found : ctx.tableFor a = .ok table) :
    Unites ctx t (.atom (.predicate a))
      (ctx.select t.outermost (ctx.scan t [] (a.terms.zip table.columns)).columns
        [.table table.name t.position] (ctx.scan t [] (a.terms.zip table.columns)).conditions) where
  aligned := by
    rw [Task.forall_reaches_iff]
    refine iff_of_true ?_ ⟨trivial, by simp [Task.subtasks]⟩
    exact Context.throughout_scan (fun _ => aligned_of_branches rfl)
      (fun _ _ => aligned_of_branches rfl) (fun _ _ => aligned_of_branches rfl)
      fun _ _ _ => aligned_of_branches rfl
  matched := Context.throughout_scan (fun _ => matched_of_branches rfl)
    (fun _ _ => matched_of_branches rfl) (fun _ _ => matched_of_branches rfl)
    fun _ _ _ => matched_of_branches rfl
  orders inner some := by
    rw [Context.branches_select, List.map_singleton, Expr.order, Context.header_select,
      scan_columns_eq found inner]
    rfl

theorem unites_join {parts : List Formula} {queries conditions : List (Expr Position)}
    (several : 1 < parts.length)
    (joined : List.Forall₂
      (fun entry q => Unites ctx (t.join (t.wanted parts) entry.1 entry.2) entry.1 q)
      (t.joined parts) queries)
    (filtered : List.Forall₂
      (fun entry c => Unites ctx (t.condition (t.inner parts) entry.2) entry.1 c)
      (t.conditional parts) conditions) :
    Unites ctx t (.junction .and parts) (ctx.select t.outermost
      (t.requested.toList.map (ctx.passedOn t.outermost)) (t.sources (t.joined parts) queries)
      (grouped (guarded (t.several parts) (t.conditional parts) conditions))) where
  aligned := by
    rw [throughout_join_iff (fun _ => aligned_of_branches) (joined.imp fun entry q h => h.aligned)
        (filtered.imp fun entry c h => h.aligned), Task.forall_reaches_iff,
      Task.subtasks_and several, List.forall_mem_append, List.forall_mem_map, List.forall_mem_map,
      and_iff_right Task.ordered_and]
  matched := by
    rw [throughout_join_iff (fun _ => matched_of_branches)
      (joined.imp fun entry q h => iff_true_intro h.matched)
      (filtered.imp fun entry c h => iff_true_intro h.matched)]
    exact ⟨fun _ _ => trivial, fun _ _ => trivial⟩
  orders inner some := by
    have columns : t.requested.toList.map (ctx.passedOn t.outermost) =
        columnsOf ctx.schema t.requested (.junction .and parts) := by
      rw [inner]
      exact List.map_congr_left fun x _ => passedOn_false
    rw [Context.branches_select, List.map_singleton, Expr.order, Context.header_select, columns,
      Formula.unionParts_and several]
    rfl

section Disjunction

variable {parts : List Formula} {es : List (Expr Position)}

/-- The branches of a union are those of its parts, one after the other. -/
theorem order_unionAll
    (each : List.Forall₂ (fun entry e => Unites ctx (t.alternative entry.2) entry.1 e)
      parts.zipIdx es) (some : t.requested.isEmpty = false) :
    (Expr.unionAll es).branches.map Expr.order =
      (Formula.junction .or parts).unionParts.map (columnOrder ctx.schema t.requested) := by
  have orders := flatMap_eq_of_forall₂ (each.imp fun entry e h => h.orders rfl some)
  have firsts : parts = parts.zipIdx.map Prod.fst := (List.zipIdx_map_fst 0 parts).symm
  rw [Expr.branches, Expr.branchesAll_eq_flatMap, List.map_flatMap, orders, Formula.unionParts,
    unionPartsAll_eq_flatMap, List.map_flatMap]
  conv_rhs => rw [firsts, List.flatMap_map]
  rfl

/-- All branches of a union offer what is requested. -/
theorem matched_unionAll (fits : t.Fits (.junction .or parts)) (several : 1 < parts.length)
    (compiled : List.Forall₂ (fun entry e => ctx.formula (t.alternative entry.2) entry.1 = .ok e)
      parts.zipIdx es) : (Expr.unionAll es).Matched := by
  have offers : ∀ b ∈ (Expr.unionAll es).branches, b.order.Perm t.requested.idents := by
    intro b hb
    rw [Expr.branches, Expr.branchesAll_eq_flatMap] at hb
    rcases List.mem_flatMap.1 hb with ⟨e, he, hb⟩
    rcases forall₂_exists_left compiled he with ⟨entry, hentry, below⟩
    have next : (t.alternative entry.2, entry.1) ∈ t.subtasks (.junction .or parts) := by
      rw [Task.subtasks_or several]
      exact List.mem_map.2 ⟨entry, hentry, rfl⟩
    have fits' : (t.alternative entry.2).Fits entry.1 := fits.subtask next
    exact ((Context.formula_answers below fits').branches b hb).carries
  intro b hb b' hb'
  exact (offers b hb).trans (offers b' hb').symm

theorem unites_disjunction (fits : t.Fits (.junction .or parts)) (several : 1 < parts.length)
    (compiled : List.Forall₂ (fun entry e => ctx.formula (t.alternative entry.2) entry.1 = .ok e)
      parts.zipIdx es)
    (each : List.Forall₂ (fun entry e => Unites ctx (t.alternative entry.2) entry.1 e)
      parts.zipIdx es) :
    Unites ctx t (.junction .or parts) (ctx.disjunction t es) where
  aligned := by
    rw [Context.throughout_disjunction_iff (fun _ => aligned_of_branches rfl)
        (fun _ _ _ _ _ _ => aligned_of_branches rfl) (fun _ _ _ => aligned_of_branches rfl)
        (aligned_of_branches rfl), Task.forall_reaches_iff, Task.subtasks_or several,
      List.forall_mem_map, Task.ordered_or_iff several,
      forall_mem_right_iff (each.imp fun entry e h => h.aligned)]
    -- the parts below are the same on both sides, and the union itself has the orders of its parts
    refine and_congr_left' (forall_congr' fun some => ?_)
    rw [Expr.Aligned, forall_eq_iff_map, order_unionAll each some, ← forall_eq_iff_map]
  matched := by
    rw [Context.throughout_disjunction_iff (fun _ => matched_of_branches rfl)
      (fun _ _ _ _ _ _ => matched_of_branches rfl) (fun _ _ _ => matched_of_branches rfl)
      (matched_of_branches rfl)]
    refine ⟨fun _ => matched_unionAll fits several compiled, fun e he => ?_⟩
    rcases forall₂_exists_left each he with ⟨entry, -, h⟩
    exact h.matched
  orders inner some := by
    rw [Context.disjunction, if_neg (by simp [some]), if_neg (by simp [inner])]
    exact order_unionAll each some

end Disjunction

/-- How the unions of a compiled part are aligned. -/
theorem formula_unites {f : Formula} {e : Expr Position} (compiled : ctx.formula t f = .ok e)
    (fits : t.Fits f) : Unites ctx t f e := by
  have single : ∀ e : Expr Position, e.branches = [e] → e.Aligned := fun _ => aligned_of_branches
  have single' : ∀ e : Expr Position, e.branches = [e] → e.Matched := fun _ => matched_of_branches
  refine Context.formula_induction (I := Task.Fits) (motive := Unites ctx)
    (fun t f fits next h => fits.subtask h) ?truth ?comparison ?predicate ?empty ?single ?filter
    ?join ?alternatives ?negComparison ?negNeg ?neg ?exist compiled fits
  case truth =>
    intro t b fits
    exact unites_leaf fits (fun x => Formula.not_mem_selectable_truth) rfl rfl rfl trivial
  case comparison =>
    intro t c fits
    exact unites_leaf fits (fun x => Formula.not_mem_selectable_comparison) rfl rfl rfl trivial
  case predicate => exact fun t a table _ found => unites_scan found
  case empty =>
    intro t c fits
    exact unites_leaf fits (fun x => Formula.not_mem_selectable_empty) rfl rfl rfl
      (by cases c <;> trivial)
  case single =>
    intro t c part e fits ih
    exact unites_of_subtask ih rfl (by cases c <;> trivial) Formula.unionParts_single rfl rfl
  case filter =>
    intro t parts conditions fits several complete unjoined some ih
    -- without joined parts nothing can be requested
    have none := Task.requested_isEmpty complete unjoined
    refine ⟨?_, ?_, fun _ some => by simp [none] at some⟩
    · rw [Context.throughout_conditionOr_iff (fun _ => single _ rfl) fun _ _ => single _ rfl,
        throughout_group_iff single (ih.imp fun entry c h => h.aligned), Task.forall_reaches_iff,
        Task.subtasks_and several, unjoined, List.map_nil, List.nil_append, List.forall_mem_map,
        and_iff_right Task.ordered_and]
    · rw [Context.throughout_conditionOr_iff (fun _ => single' _ rfl) fun _ _ => single' _ rfl,
        throughout_group_iff single' (ih.imp fun entry c h => iff_true_intro h.matched)]
      exact fun _ _ => trivial
  case join =>
    exact fun t parts queries conditions _ several _ _ _ ih ih' => unites_join several ih ih'
  case alternatives =>
    exact fun t parts es fits several compiled ih => unites_disjunction fits several compiled ih
  case negComparison =>
    intro t c fits
    exact unites_leaf fits (fun x => Formula.not_mem_selectable_neg) rfl rfl rfl trivial
  case negNeg =>
    intro t body e fits ih
    refine unites_condition fits (fun x => Formula.not_mem_selectable_neg) ?_ ?_
    · rw [Context.throughout_conditionOr_iff (fun _ => single _ rfl) fun _ _ => single _ rfl,
        ih.aligned, Task.forall_reaches_iff (f := .neg (.neg body))]
      simp [Task.subtasks, Task.Ordered]
    · rw [Context.throughout_conditionOr_iff (fun _ => single' _ rfl) fun _ _ => single' _ rfl]
      exact ih.matched
  case neg =>
    intro t body e layout fits plain positive ih
    refine unites_condition fits (fun x => Formula.not_mem_selectable_neg) ?_ ?_
    · rw [Context.throughout_conditionOr_iff (fun _ => single _ rfl) fun _ _ => single _ rfl,
        Expr.throughout_iff, and_iff_right (single _ rfl), Task.forall_reaches_iff,
        Task.subtasks_neg plain positive]
      simp only [Expr.children, List.forall_mem_singleton, ih.aligned]
      exact (and_iff_right trivial).symm
    · rw [Context.throughout_conditionOr_iff (fun _ => single' _ rfl) fun _ _ => single' _ rfl]
      exact Expr.throughout_iff.2 ⟨single' _ rfl, List.forall_mem_singleton.2 ih.matched⟩
  case exist =>
    -- the quantified variables are not requested outside, so the branches stay the same
    intro t vars body e fits _ ih
    exact unites_of_subtask ih rfl trivial rfl rfl fits.requested_within

end Parts

/-! ## Compiled statements -/

/-- The branches of every union of a statement have the same variables. They have them in the same
order just if the parts of every disjunction from which variables are selected do. -/
theorem compile_aligned_iff {schema : Schema} {labels : Labels} {distinct : Bool} {f : Formula}
    {e : Expr Nat} (compiled : compile schema labels distinct f = .ok e) :
    e.Throughout Expr.Matched ∧
      (e.Throughout Expr.Aligned ↔
        ∀ goal, Task.Reaches (rootTask f.prepared, f.prepared) goal →
          goal.1.Ordered schema goal.2) := by
  rcases compile_ok compiled with ⟨e', fits, inside, rfl⟩
  have unites := formula_unites inside fits
  constructor
  · rw [Expr.numbered, Expr.throughout_map_iff]
    intro s hs
    exact matched_map_iff.2 (unites.matched s hs)
  · rw [Expr.numbered, Expr.throughout_map_iff]
    simp only [aligned_map_iff]
    exact unites.aligned

/-- `R(x, y) ∨ S(x, y)` -/
def eitherRelation : Formula :=
  .junction .or
    [.predicate ⟨"R", [.var ⟨⟨"x", none⟩, .undefined⟩, .var ⟨⟨"y", none⟩, .undefined⟩], .undefined⟩,
      .predicate ⟨"S", [.var ⟨⟨"x", none⟩, .undefined⟩, .var ⟨⟨"y", none⟩, .undefined⟩],
        .undefined⟩]

theorem eitherRelation_aligned :
    ∃ e, compile ⟨[⟨"R", ["a", "b"]⟩, ⟨"S", ["c", "d"]⟩], []⟩ [] false eitherRelation = .ok e ∧
      e.Throughout Expr.Matched ∧ e.Throughout Expr.Aligned := by
  have compiled : compile ⟨[⟨"R", ["a", "b"]⟩, ⟨"S", ["c", "d"]⟩], []⟩ [] false eitherRelation =
      .ok _ := rfl
  have united := compile_aligned_iff compiled
  refine ⟨_, compiled, united.1, united.2.2 ?_⟩
  -- the alternatives are atoms, which have no parts
  refine Task.forall_reaches_iff.2 ⟨fun _ => by decide, List.forall_mem_cons.2 ⟨?_,
    List.forall_mem_singleton.2 ?_⟩⟩
  · exact Task.forall_reaches_iff.2 ⟨trivial, nofun⟩
  · exact Task.forall_reaches_iff.2 ⟨trivial, nofun⟩

/-- The columns of `R` are sorted as `object`, `subject`, and those of `S` as `a`, `b`. -/
theorem eitherRelation_not_aligned :
    ∃ e, compile ⟨[⟨"R", ["subject", "object"]⟩, ⟨"S", ["a", "b"]⟩], []⟩ [] false eitherRelation =
      .ok e ∧ ¬ e.Throughout Expr.Aligned := by
  refine ⟨_, rfl, ?_⟩
  intro all
  have union := all _ (.head (List.mem_append_left _ List.mem_cons_self)
    (.single List.mem_cons_self))
  have same := union _ List.mem_cons_self _ (List.mem_cons_of_mem _ List.mem_cons_self)
  revert same
  decide

end Sql
end QueryCalculus
