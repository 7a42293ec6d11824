import Mathlib.Data.List.Forall2
import Mathlib.Logic.Relation
import QueryCalculus.Proofs.Computations
import QueryCalculus.Proofs.Sql.Roles

/-!
# The tasks of a compilation

- `Task.subtasks` : what the compilation of a part asks of the parts below it
- `Task.Reaches` : the tasks that come up below a task
- `Context.and_ok`, `Context.subtask_ok` : the compiled parts below a compiled part
- `Context.formula_induction` : what holds of every compiled part
-/

namespace QueryCalculus
namespace Sql

/-! ## Tasks below a task -/

namespace Task

/-- The tasks that compiling a part for a task leads to directly. -/
def subtasks (t : Task) : Formula → List (Task × Formula)
  | .junction _ [part] => [(t.single, part)]
  | .junction .and (part :: part' :: parts) =>
    (t.joined (part :: part' :: parts)).map
        (fun entry => (t.join (t.wanted (part :: part' :: parts)) entry.1 entry.2, entry.1)) ++
      (t.conditional (part :: part' :: parts)).map
        fun entry => (t.condition (t.inner (part :: part' :: parts)) entry.2, entry.1)
  | .junction .or (part :: part' :: parts) =>
    (part :: part' :: parts).zipIdx.map fun entry => (t.alternative entry.2, entry.1)
  | .neg (.atom (.comparison _)) => []
  | .neg (.neg body) => [(t.single.condition t.providers 0, body)]
  | .neg body => [(t.condition t.providers 0, body)]
  | .quant .exist vars body => [(t.within vars, body)]
  | _ => []

/-- The second task comes up when a part is compiled for the first one. -/
def Reaches (start goal : Task × Formula) : Prop :=
  Relation.ReflTransGen (fun a b => b ∈ a.1.subtasks a.2) start goal

theorem forall_reaches_iff {P : Task × Formula → Prop} {t : Task} {f : Formula} :
    (∀ goal, Reaches (t, f) goal → P goal) ↔
      P (t, f) ∧ ∀ next ∈ t.subtasks f, ∀ goal, Reaches next goal → P goal := by
  constructor
  · intro all
    refine ⟨all _ .refl, ?_⟩
    intro next hnext goal below
    exact all goal (.head hnext below)
  · rintro ⟨here, below⟩ goal reached
    -- the goal is reached in no step, or through one of the tasks right below
    rcases Relation.ReflTransGen.cases_head reached with rfl | ⟨next, hnext, rest⟩
    · exact here
    · exact below next hnext goal rest

/-- A property that passes from every task to the tasks right below it holds of all tasks below. -/
theorem of_reaches {P : Task × Formula → Prop}
    (step : ∀ a, P a → ∀ b ∈ a.1.subtasks a.2, P b) {start goal : Task × Formula}
    (reached : Reaches start goal) (h : P start) : P goal := by
  induction reached with
  | refl => exact h
  | tail _ last ih => exact step _ ih _ last

theorem subtasks_and {t : Task} {parts : List Formula} (several : 1 < parts.length) :
    t.subtasks (.junction .and parts) =
      (t.joined parts).map (fun entry => (t.join (t.wanted parts) entry.1 entry.2, entry.1)) ++
        (t.conditional parts).map fun entry => (t.condition (t.inner parts) entry.2, entry.1) := by
  match parts, several with
  | _ :: _ :: _, _ => rfl

theorem mem_subtasks_joined {t : Task} {parts : List Formula} {entry : Formula × Nat}
    (several : 1 < parts.length) (h : entry ∈ t.joined parts) :
    (t.join (t.wanted parts) entry.1 entry.2, entry.1) ∈ t.subtasks (.junction .and parts) := by
  rw [subtasks_and several]
  exact List.mem_append_left _ (List.mem_map.2 ⟨entry, h, rfl⟩)

theorem mem_subtasks_conditional {t : Task} {parts : List Formula} {entry : Formula × Nat}
    (several : 1 < parts.length) (h : entry ∈ t.conditional parts) :
    (t.condition (t.inner parts) entry.2, entry.1) ∈ t.subtasks (.junction .and parts) := by
  rw [subtasks_and several]
  exact List.mem_append_right _ (List.mem_map.2 ⟨entry, h, rfl⟩)

theorem subtasks_or {t : Task} {parts : List Formula} (several : 1 < parts.length) :
    t.subtasks (.junction .or parts) =
      parts.zipIdx.map fun entry => (t.alternative entry.2, entry.1) := by
  match parts, several with
  | _ :: _ :: _, _ => rfl

/-- The negations that are compiled as such. -/
theorem subtasks_neg {t : Task} {body : Formula}
    (plain : ∀ c, body ≠ .atom (.comparison c)) (positive : ∀ g, body ≠ .neg g) :
    t.subtasks (.neg body) = [(t.condition t.providers 0, body)] := by
  cases body with
  | atom a =>
    cases a with
    | comparison c => exact absurd rfl (plain c)
    | truth b => rfl
    | predicate a => rfl
  | junction c parts => rfl
  | neg g => exact absurd rfl (positive g)
  | quant q vars g => rfl

/-- To show something of every task right below a task, one shows it for each kind of formula. -/
theorem subtasks_cases {P : Task → Formula → Task → Formula → Prop}
    (single : ∀ t c part, P t (.junction c [part]) t.single part)
    (join : ∀ t parts f n, 1 < parts.length → (f, n) ∈ t.joined parts →
      P t (.junction .and parts) (t.join (t.wanted parts) f n) f)
    (condition : ∀ t parts f n, 1 < parts.length → (f, n) ∈ t.conditional parts →
      P t (.junction .and parts) (t.condition (t.inner parts) n) f)
    (alternative : ∀ t parts f n, 1 < parts.length → (f, n) ∈ parts.zipIdx →
      P t (.junction .or parts) (t.alternative n) f)
    (negNeg : ∀ t body, P t (.neg (.neg body)) (t.single.condition t.providers 0) body)
    (neg : ∀ t body, (∀ c, body ≠ .atom (.comparison c)) → (∀ g, body ≠ .neg g) →
      P t (.neg body) (t.condition t.providers 0) body)
    (exist : ∀ t vars body, P t (.quant .exist vars body) (t.within vars) body)
    {t : Task} {f : Formula} {next : Task × Formula} (h : next ∈ t.subtasks f) :
    P t f next.1 next.2 := by
  -- comparisons and double negations are looked at before other negations
  cases f with
  | atom a => simp [subtasks] at h
  | junction c parts =>
    rcases parts with _ | ⟨part, _ | ⟨part', parts⟩⟩
    · simp [subtasks] at h
    · have only : next = (t.single, part) := by simpa [subtasks] using h
      subst only
      exact single t c part
    · have several : 1 < (part :: part' :: parts).length := by simp
      cases c with
      | and =>
        rw [subtasks_and several] at h
        rcases List.mem_append.1 h with h | h
        · rcases List.mem_map.1 h with ⟨entry, hentry, rfl⟩
          exact join t _ entry.1 entry.2 several hentry
        · rcases List.mem_map.1 h with ⟨entry, hentry, rfl⟩
          exact condition t _ entry.1 entry.2 several hentry
      | or =>
        rw [subtasks_or several] at h
        rcases List.mem_map.1 h with ⟨entry, hentry, rfl⟩
        exact alternative t _ entry.1 entry.2 several hentry
  | neg body =>
    by_cases plain : ∃ c, body = .atom (.comparison c)
    · rcases plain with ⟨c, rfl⟩
      simp [subtasks] at h
    · by_cases negated : ∃ g, body = .neg g
      · rcases negated with ⟨g, rfl⟩
        have only : next = (t.single.condition t.providers 0, g) := by simpa [subtasks] using h
        subst only
        exact negNeg t g
      · have plain := not_exists.1 plain
        have positive := not_exists.1 negated
        rw [subtasks_neg plain positive, List.mem_singleton] at h
        subst h
        exact neg t body plain positive
  | quant q vars body =>
    cases q with
    | exist =>
      have only : next = (t.within vars, body) := by simpa [subtasks] using h
      subst only
      exact exist t vars body
    | forAll => simp [subtasks] at h

/-- The queries of the joined parts under their aliases. -/
def sources (t : Task) (entries : List (Formula × Nat)) (queries : List (Expr Position)) :
    List (Expr Position) :=
  List.zipWith
    (fun entry query => .derived (layoutOf entry.1) query (entry.2 :: t.position)) entries queries

theorem sources_eq_nil_iff {t : Task} {entries : List (Formula × Nat)}
    {queries : List (Expr Position)} (lengths : entries.length = queries.length) :
    t.sources entries queries = [] ↔ entries = [] := by
  rw [sources, ← List.length_eq_zero_iff, List.length_zipWith, ← lengths, Nat.min_self,
    List.length_eq_zero_iff]

end Task

/-- The conditions with the parentheses they get beside each other. -/
def guarded (several : Bool) (entries : List (Formula × Nat)) (conditions : List (Expr Position)) :
    List (Expr Position) :=
  List.zipWith (fun entry condition => amongConditions several entry.1 condition) entries conditions

theorem guarded_eq_nil_iff {several : Bool} {entries : List (Formula × Nat)}
    {conditions : List (Expr Position)} (lengths : entries.length = conditions.length) :
    guarded several entries conditions = [] ↔ entries = [] := by
  rw [guarded, ← List.length_eq_zero_iff, List.length_zipWith, ← lengths, Nat.min_self,
    List.length_eq_zero_iff]

/-- All conditions of a conjunction as one. -/
def grouped (conditions : List (Expr Position)) : List (Expr Position) :=
  if conditions.isEmpty then [] else [.group conditions]

/-! ## Compiled lists -/

theorem forall₂_imp_mem {α β : Type} {R S : α → β → Prop} {as : List α} {bs : List β}
    (h : List.Forall₂ R as bs) (step : ∀ a ∈ as, ∀ b, R a b → S a b) : List.Forall₂ S as bs :=
  ((List.forall₂_and_left as bs).2 ⟨step, h⟩).imp fun _ b both => both.1 b both.2

theorem forall_mem_zipWith_iff {α β γ : Type} {g : α → β → γ} {P : γ → Prop} {Q : α → Prop}
    {as : List α} {bs : List β} (h : List.Forall₂ (fun a b => P (g a b) ↔ Q a) as bs) :
    (∀ c ∈ List.zipWith g as bs, P c) ↔ ∀ a ∈ as, Q a := by
  induction h with
  | nil => simp
  | cons head tail ih =>
    rw [List.zipWith_cons_cons, List.forall_mem_cons, List.forall_mem_cons, head, ih]

theorem forall₂_and_zipWith {α β γ : Type} {g : α → β → γ} {P : γ → Prop} {R : α → β → Prop}
    {as : List α} {bs : List β} (h : List.Forall₂ R as bs) (all : ∀ c ∈ List.zipWith g as bs, P c) :
    List.Forall₂ (fun a b => R a b ∧ P (g a b)) as bs := by
  induction h with
  | nil => exact .nil
  | cons head tail ih =>
    rcases List.forall_mem_cons.1 all with ⟨first, rest⟩
    exact .cons ⟨head, first⟩ (ih rest)

theorem forall_mem_right_iff {α β : Type} {P : β → Prop} {Q : α → Prop} {as : List α} {bs : List β}
    (h : List.Forall₂ (fun a b => P b ↔ Q a) as bs) : (∀ b ∈ bs, P b) ↔ ∀ a ∈ as, Q a := by
  induction h with
  | nil => simp
  | cons head tail ih => rw [List.forall_mem_cons, List.forall_mem_cons, head, ih]

theorem forall_mem_zipIdx_iff {α : Type} {P : α → Prop} {as : List α} :
    (∀ entry ∈ as.zipIdx, P entry.1) ↔ ∀ a ∈ as, P a := by
  have firsts : as.zipIdx.map Prod.fst = as := List.zipIdx_map_fst 0 as
  rw [← List.forall_mem_map (f := Prod.fst) (P := P), firsts]

theorem flatMap_eq_of_forall₂ {α β γ : Type} {F : α → List γ} {G : β → List γ} {as : List α}
    {bs : List β} (h : List.Forall₂ (fun a b => G b = F a) as bs) :
    bs.flatMap G = as.flatMap F := by
  induction h with
  | nil => rfl
  | cons head tail ih => rw [List.flatMap_cons, List.flatMap_cons, head, ih]

theorem forall₂_exists_right {α β : Type} {R : α → β → Prop} {as : List α} {bs : List β}
    (h : List.Forall₂ R as bs) {a : α} (ha : a ∈ as) : ∃ b, R a b := by
  induction h with
  | nil => simp at ha
  | cons head tail ih =>
    rcases List.mem_cons.1 ha with rfl | ha
    · exact ⟨_, head⟩
    · exact ih ha

namespace Context

variable {ctx : Context}

theorem joins_ok {t : Task} {wanted : VarSet} {n : Nat} {roles : List Role} {parts : List Formula}
    {es : List (Expr Position)} (h : ctx.joins t wanted n roles parts = .ok es) :
    ∃ queries, es = t.sources (partsWith .join n roles parts) queries ∧
      List.Forall₂ (fun entry q => ctx.formula (t.join wanted entry.1 entry.2) entry.1 = .ok q)
        (partsWith .join n roles parts) queries := by
  induction parts generalizing n roles es with
  | nil =>
    have none : es = [] := by
      simpa [Context.joins, pure, Except.pure] using h.symm
    subst none
    cases roles <;> exact ⟨[], rfl, .nil⟩
  | cons part parts ih =>
    cases roles with
    | nil =>
      cases h
      exact ⟨[], rfl, .nil⟩
    | cons r roles =>
      cases r with
      | join =>
        rcases bind_eq_ok_iff.1 h with ⟨query, compiled, h⟩
        rcases bind_eq_ok_iff.1 h with ⟨rest, tail, h⟩
        rcases ih tail with ⟨queries, rfl, each⟩
        cases h
        exact ⟨query :: queries, rfl, .cons compiled each⟩
      | condition => exact ih h
      | repeated => exact ih h

theorem conditions_ok {t : Task} {providers : Providers} {several : Bool} {n : Nat}
    {roles : List Role} {parts : List Formula} {es : List (Expr Position)}
    (h : ctx.conditions t providers several n roles parts = .ok es) :
    ∃ conditions, es = guarded several (partsWith .condition n roles parts) conditions ∧
      List.Forall₂ (fun entry c => ctx.formula (t.condition providers entry.2) entry.1 = .ok c)
        (partsWith .condition n roles parts) conditions := by
  induction parts generalizing n roles es with
  | nil =>
    have none : es = [] := by
      simpa [Context.conditions, pure, Except.pure] using h.symm
    subst none
    cases roles <;> exact ⟨[], rfl, .nil⟩
  | cons part parts ih =>
    cases roles with
    | nil =>
      cases h
      exact ⟨[], rfl, .nil⟩
    | cons r roles =>
      cases r with
      | condition =>
        rcases bind_eq_ok_iff.1 h with ⟨condition, compiled, h⟩
        rcases bind_eq_ok_iff.1 h with ⟨rest, tail, h⟩
        rcases ih tail with ⟨conditions, rfl, each⟩
        cases h
        exact ⟨condition :: conditions, rfl, .cons compiled each⟩
      | join => exact ih h
      | repeated => exact ih h

theorem alternatives_ok {t : Task} {n : Nat} {parts : List Formula} {es : List (Expr Position)}
    (h : ctx.alternatives t n parts = .ok es) :
    List.Forall₂ (fun entry e => ctx.formula (t.alternative entry.2) entry.1 = .ok e)
      (parts.zipIdx n) es := by
  induction parts generalizing n es with
  | nil =>
    cases h
    exact .nil
  | cons part parts ih =>
    rcases bind_eq_ok_iff.1 h with ⟨query, compiled, h⟩
    rcases bind_eq_ok_iff.1 h with ⟨rest, tail, h⟩
    cases h
    exact .cons compiled (ih tail)

/-! ## Compiled parts -/

/-- Compiled conjunctions have no source and a group of conditions, or they select from sources. -/
theorem conjunction_ok {t : Task} {parts : List Formula} {sources conditions : List (Expr Position)}
    {e : Expr Position} (h : ctx.conjunction t parts sources conditions = .ok e) :
    (sources = [] ∧ conditions ≠ [] ∧ e = ctx.conditionOr t.outermost (.group conditions)) ∨
      sources ≠ [] ∧ e = ctx.select t.outermost
        (t.requested.toList.map (ctx.passedOn t.outermost)) sources (grouped conditions) := by
  cases sources with
  | nil =>
    cases conditions with
    | nil => cases h
    | cons condition conditions =>
      cases h
      exact .inl ⟨rfl, by simp, rfl⟩
  | cons source sources =>
    cases h
    exact .inr ⟨by simp, rfl⟩

/-- In a compiled conjunction nothing is missing, and its joined parts and conditions are
compiled. -/
theorem and_ok {t : Task} {parts : List Formula} {e : Expr Position} (several : 1 < parts.length)
    (h : ctx.formula t (.junction .and parts) = .ok e) :
    (t.missing parts).isEmpty = true ∧ ∃ queries conditions,
      List.Forall₂
        (fun entry q => ctx.formula (t.join (t.wanted parts) entry.1 entry.2) entry.1 = .ok q)
        (t.joined parts) queries ∧
      List.Forall₂
        (fun entry c => ctx.formula (t.condition (t.inner parts) entry.2) entry.1 = .ok c)
        (t.conditional parts) conditions ∧
      ctx.conjunction t parts (t.sources (t.joined parts) queries)
        (guarded (t.several parts) (t.conditional parts) conditions) = .ok e := by
  match parts, several with
  | part :: part' :: parts, _ =>
    simp only [Context.formula] at h
    -- the check for missing variables comes first
    split at h
    · rename_i complete
      rcases bind_eq_ok_iff.1 h with ⟨sources, hsources, h⟩
      rcases bind_eq_ok_iff.1 h with ⟨conditions, hconditions, h⟩
      rcases joins_ok hsources with ⟨queries, rfl, joined⟩
      rcases conditions_ok hconditions with ⟨conditions, rfl, filtered⟩
      exact ⟨complete, queries, conditions, joined, filtered, h⟩
    · cases h

/-- A negation that is neither of a comparison nor of a negation is compiled as it stands. -/
theorem formula_neg {t : Task} {body : Formula} (plain : ∀ c, body ≠ .atom (.comparison c))
    (positive : ∀ g, body ≠ .neg g) :
    ctx.formula t (.neg body) = (do
      let below ← ctx.formula (t.condition t.providers 0) body
      return ctx.conditionOr t.outermost
        (.not (if body.connective?.isSome then .block else .inline) below)) := by
  -- all kinds of bodies but two take the same branch
  cases body with
  | atom a =>
    cases a with
    | comparison c => exact absurd rfl (plain c)
    | truth b => rfl
    | predicate a => rfl
  | junction c parts => rfl
  | neg g => exact absurd rfl (positive g)
  | quant q vars g => rfl

theorem neg_ok {t : Task} {body : Formula} {e : Expr Position}
    (plain : ∀ c, body ≠ .atom (.comparison c)) (positive : ∀ g, body ≠ .neg g)
    (h : ctx.formula t (.neg body) = .ok e) :
    ∃ layout below, ctx.formula (t.condition t.providers 0) body = .ok below ∧
      e = ctx.conditionOr t.outermost (.not layout below) := by
  rw [formula_neg plain positive] at h
  rcases bind_eq_ok_iff.1 h with ⟨below, compiled, h⟩
  cases h
  exact ⟨_, below, compiled, rfl⟩

/-- What a compiled part asks of the parts below it is compiled. -/
theorem subtask_ok {t : Task} {f : Formula} {e : Expr Position} (compiled : ctx.formula t f = .ok e)
    {next : Task × Formula} (h : next ∈ t.subtasks f) :
    ∃ e', ctx.formula next.1 next.2 = .ok e' := by
  revert e
  refine Task.subtasks_cases (P := fun t f t' f' => ∀ {e}, ctx.formula t f = .ok e →
    ∃ e', ctx.formula t' f' = .ok e') ?single ?join ?condition ?alternative ?negNeg ?neg ?exist h
  case single => exact fun t c part e compiled => ⟨e, compiled⟩
  case join =>
    intro t parts f n several hf e compiled
    rcases and_ok several compiled with ⟨-, queries, conditions, joined, -, -⟩
    exact forall₂_exists_right joined hf
  case condition =>
    intro t parts f n several hf e compiled
    rcases and_ok several compiled with ⟨-, queries, conditions, -, filtered, -⟩
    exact forall₂_exists_right filtered hf
  case alternative =>
    intro t parts f n several hf e compiled
    match parts, several with
    | _ :: _ :: _, _ =>
      rcases bind_eq_ok_iff.1 compiled with ⟨es, hes, -⟩
      exact forall₂_exists_right (alternatives_ok hes) hf
  case negNeg =>
    intro t body e compiled
    rcases bind_eq_ok_iff.1 compiled with ⟨e', inside, -⟩
    exact ⟨e', inside⟩
  case neg =>
    intro t body plain positive e compiled
    rcases neg_ok plain positive compiled with ⟨-, e', inside, -⟩
    exact ⟨e', inside⟩
  case exist => exact fun t vars body e compiled => ⟨e, compiled⟩

/-- To show something of every compiled part, it may be assumed of the compiled parts below it. The
invariant passes from a task to the tasks below. -/
theorem formula_induction {motive : Task → Formula → Expr Position → Prop}
    {I : Task → Formula → Prop}
    (step : ∀ t f, I t f → ∀ next ∈ t.subtasks f, I next.1 next.2)
    (truth : ∀ t b, I t (.atom (.truth b)) →
      motive t (.atom (.truth b)) (ctx.conditionOr t.outermost (.truth b)))
    (comparison : ∀ t c, I t (.atom (.comparison c)) → motive t (.atom (.comparison c))
      (ctx.conditionOr t.outermost (Sql.comparison t.providers c)))
    (predicate : ∀ t a table, I t (.atom (.predicate a)) → ctx.tableFor a = .ok table →
      motive t (.atom (.predicate a))
        (ctx.select t.outermost (ctx.scan t [] (a.terms.zip table.columns)).columns
          [.table table.name t.position] (ctx.scan t [] (a.terms.zip table.columns)).conditions))
    (empty : ∀ t c, I t (.junction c []) →
      motive t (.junction c []) (ctx.conditionOr t.outermost (.truth c.unit)))
    (single : ∀ t c part e, I t (.junction c [part]) → motive t.single part e →
      motive t (.junction c [part]) e)
    (filter : ∀ t parts conditions, I t (.junction .and parts) → 1 < parts.length →
      (t.missing parts).isEmpty = true → t.joined parts = [] → conditions ≠ [] →
      List.Forall₂ (fun entry c => motive (t.condition (t.inner parts) entry.2) entry.1 c)
        (t.conditional parts) conditions →
      motive t (.junction .and parts) (ctx.conditionOr t.outermost
        (.group (guarded (t.several parts) (t.conditional parts) conditions))))
    (join : ∀ t parts queries conditions, I t (.junction .and parts) → 1 < parts.length →
      (t.missing parts).isEmpty = true → t.joined parts ≠ [] →
      List.Forall₂
        (fun entry q => ctx.formula (t.join (t.wanted parts) entry.1 entry.2) entry.1 = .ok q)
        (t.joined parts) queries →
      List.Forall₂ (fun entry q => motive (t.join (t.wanted parts) entry.1 entry.2) entry.1 q)
        (t.joined parts) queries →
      List.Forall₂ (fun entry c => motive (t.condition (t.inner parts) entry.2) entry.1 c)
        (t.conditional parts) conditions →
      motive t (.junction .and parts) (ctx.select t.outermost
        (t.requested.toList.map (ctx.passedOn t.outermost)) (t.sources (t.joined parts) queries)
        (grouped (guarded (t.several parts) (t.conditional parts) conditions))))
    (alternatives : ∀ t parts es, I t (.junction .or parts) → 1 < parts.length →
      List.Forall₂ (fun entry e => ctx.formula (t.alternative entry.2) entry.1 = .ok e)
        parts.zipIdx es →
      List.Forall₂ (fun entry e => motive (t.alternative entry.2) entry.1 e) parts.zipIdx es →
      motive t (.junction .or parts) (ctx.disjunction t es))
    (negComparison : ∀ t c, I t (.neg (.atom (.comparison c))) →
      motive t (.neg (.atom (.comparison c)))
        (ctx.conditionOr t.outermost (Sql.comparison t.providers c.negated)))
    (negNeg : ∀ t body e, I t (.neg (.neg body)) →
      motive (t.single.condition t.providers 0) body e →
      motive t (.neg (.neg body)) (ctx.conditionOr t.outermost e))
    (neg : ∀ t body e layout, I t (.neg body) → (∀ c, body ≠ .atom (.comparison c)) →
      (∀ g, body ≠ .neg g) → motive (t.condition t.providers 0) body e →
      motive t (.neg body) (ctx.conditionOr t.outermost (.not layout e)))
    (exist : ∀ t vars body e, I t (.quant .exist vars body) →
      ctx.formula (t.within vars) body = .ok e → motive (t.within vars) body e →
      motive t (.quant .exist vars body) e)
    {t : Task} {f : Formula} {e : Expr Position} (compiled : ctx.formula t f = .ok e)
    (inv : I t f) : motive t f e := by
  -- by the size of the part: a double negation is compiled in one step
  induction size : sizeOf f using Nat.strongRecOn generalizing t f e with
  | ind n ih =>
    subst size
    have below : ∀ next ∈ t.subtasks f, sizeOf next.2 < sizeOf f → ∀ e,
        ctx.formula next.1 next.2 = .ok e → motive next.1 next.2 e := by
      intro next hnext smaller e compiled
      exact ih _ smaller compiled (step t f inv next hnext) rfl
    cases f with
    | atom a =>
      cases a with
      | truth b =>
        cases compiled
        exact truth t b inv
      | comparison c =>
        cases compiled
        exact comparison t c inv
      | predicate a =>
        rcases bind_eq_ok_iff.1 compiled with ⟨table, found, compiled⟩
        cases compiled
        exact predicate t a table inv found
    | junction c parts =>
      have smaller : ∀ part ∈ parts, sizeOf part < sizeOf (Formula.junction c parts) := by
        intro part hpart
        have inside := List.sizeOf_lt_of_mem hpart
        simp only [Formula.junction.sizeOf_spec]
        omega
      -- junctions of no part and of one part are compiled without regard to their connective
      rcases parts with _ | ⟨part, _ | ⟨part', parts⟩⟩
      · cases compiled
        exact empty t c inv
      · exact single t c part e inv (below (t.single, part) (by simp [Task.subtasks])
          (smaller part (by simp)) e compiled)
      · have several : 1 < (part :: part' :: parts).length := by simp
        cases c with
        | and =>
          rcases and_ok several compiled with
            ⟨complete, queries, conditions, joined, filtered, compiled⟩
          have joined' := forall₂_imp_mem joined fun entry hentry =>
            below (_, entry.1) (Task.mem_subtasks_joined several hentry)
              (smaller entry.1 (Task.mem_of_joined hentry))
          have filtered' := forall₂_imp_mem filtered fun entry hentry =>
            below (_, entry.1) (Task.mem_subtasks_conditional several hentry)
              (smaller entry.1 (Task.mem_of_conditional hentry))
          -- without joined parts the conjunction is a condition, else a query
          rcases conjunction_ok compiled with ⟨none, some, rfl⟩ | ⟨some, rfl⟩
          · refine filter t _ conditions inv several complete
              ((Task.sources_eq_nil_iff joined.length_eq).1 none) ?_ filtered'
            rintro rfl
            exact some List.zipWith_nil_right
          · refine join t _ queries conditions inv several complete ?_ joined joined' filtered'
            exact fun none => some ((Task.sources_eq_nil_iff joined.length_eq).2 none)
        | or =>
          rcases bind_eq_ok_iff.1 compiled with ⟨es, hes, compiled⟩
          cases compiled
          refine alternatives t _ es inv several (alternatives_ok hes)
            (forall₂_imp_mem (alternatives_ok hes) ?_)
          intro entry hentry
          exact below (_, entry.1) (List.mem_map.2 ⟨entry, hentry, rfl⟩)
            (smaller entry.1 (List.fst_mem_of_mem_zipIdx hentry))
    | neg body =>
      by_cases plain : ∃ c, body = .atom (.comparison c)
      · rcases plain with ⟨c, rfl⟩
        cases compiled
        exact negComparison t c inv
      · by_cases negated : ∃ g, body = .neg g
        · rcases negated with ⟨g, rfl⟩
          rcases bind_eq_ok_iff.1 compiled with ⟨e, inside, compiled⟩
          cases compiled
          have smaller : sizeOf g < sizeOf (Formula.neg (.neg g)) := by
            simp only [Formula.neg.sizeOf_spec]
            omega
          exact negNeg t g e inv (below (t.single.condition t.providers 0, g)
            (by simp [Task.subtasks]) smaller e inside)
        · have plain := not_exists.1 plain
          have positive := not_exists.1 negated
          rcases neg_ok plain positive compiled with ⟨layout, e, inside, rfl⟩
          exact neg t body e layout inv plain positive
            (below (t.condition t.providers 0, body) (by simp [Task.subtasks_neg plain positive])
              (by simp) e inside)
    | quant q vars body =>
      cases q with
      | exist =>
        have smaller : sizeOf body < sizeOf (Formula.quant .exist vars body) := by
          simp only [Formula.quant.sizeOf_spec]
          omega
        exact exist t vars body e inv compiled
          (below (t.within vars, body) (by simp [Task.subtasks]) smaller e compiled)
      | forAll => cases compiled

end Context

end Sql
end QueryCalculus
