import QueryCalculus.Proofs.Sql.Columns

/-!
# References to sub-queries

- `Expr.Resolved` : every variable in a condition is a column of a sub-query in sight
- `Task.Grounded` : a part takes its variables from columns that are there
- `formula_resolvedWhen` : when the references of a compiled part are resolved

At the end it is said when the references of a statement are resolved.
-/

namespace QueryCalculus
namespace Sql

/-! ## Resolved references -/

section Resolved

variable {κ μ : Type}

/-- A sub-query of this key is in sight and has a column for the variable, under its name. -/
def Offered (scopes : List (κ × List Column)) (key : κ) (x : Variable) : Prop :=
  ∃ scope ∈ scopes, scope.1 = key ∧
    ∃ c ∈ scope.2, c.carries.toIdent = x.toIdent ∧ c.name = x.name

instance [DecidableEq κ] (scopes : List (κ × List Column)) (key : κ) (x : Variable) :
    Decidable (Offered scopes key x) :=
  inferInstanceAs (Decidable (∃ scope ∈ scopes, scope.1 = key ∧
    ∃ c ∈ scope.2, c.carries.toIdent = x.toIdent ∧ c.name = x.name))

/-- Variables are referred to through sub-queries in sight, and never by their bare names. -/
def Operand.Resolved (scopes : List (κ × List Column)) : Operand κ → Prop
  | .reference key x => Offered scopes key x
  | .bare _ => False
  | .column _ | .constant _ => True

instance [DecidableEq κ] (scopes : List (κ × List Column)) :
    (o : Operand κ) → Decidable (o.Resolved scopes)
  | .reference key x => inferInstanceAs (Decidable (Offered scopes key x))
  | .bare _ => inferInstanceAs (Decidable False)
  | .column _ | .constant _ => inferInstanceAs (Decidable True)

/-- A sub-query as a source: its key and its columns. -/
def Expr.source? : Expr κ → Option (κ × List Column)
  | .derived _ query key => some (key, query.header)
  | _ => none

mutual

/-- The references of an expression are resolved if the given sub-queries are in sight. Conditions
also see the sources of their own statement; these do not see each other. -/
def Expr.Resolved : Expr κ → List (κ × List Column) → Prop
  | .compare _ left right, scopes => left.Resolved scopes ∧ right.Resolved scopes
  | .equate _ value, scopes => value.Resolved scopes
  | .any es, scopes | .group es, scopes | .unionAll es, scopes => ResolvedAll es scopes
  | .not _ e, scopes | .exist e, scopes | .derived _ e _, scopes => e.Resolved scopes
  | .select _ _ sources conditions _, scopes =>
    ResolvedAll sources scopes ∧ ResolvedAll conditions (sources.filterMap Expr.source? ++ scopes)
  | .truth _, _ | .table _ _, _ => True

def ResolvedAll : List (Expr κ) → List (κ × List Column) → Prop
  | [], _ => True
  | e :: es, scopes => e.Resolved scopes ∧ ResolvedAll es scopes

end

mutual

def Expr.decideResolved [DecidableEq κ] :
    (e : Expr κ) → (scopes : List (κ × List Column)) → Decidable (e.Resolved scopes)
  | .compare _ left right, scopes =>
    inferInstanceAs (Decidable (left.Resolved scopes ∧ right.Resolved scopes))
  | .equate _ value, scopes => inferInstanceAs (Decidable (value.Resolved scopes))
  | .any es, scopes | .group es, scopes | .unionAll es, scopes => decideResolvedAll es scopes
  | .not _ e, scopes | .exist e, scopes | .derived _ e _, scopes => e.decideResolved scopes
  | .select _ _ sources conditions _, scopes =>
    @instDecidableAnd _ _ (decideResolvedAll sources scopes)
      (decideResolvedAll conditions (sources.filterMap Expr.source? ++ scopes))
  | .truth _, _ | .table _ _, _ => inferInstanceAs (Decidable True)

def decideResolvedAll [DecidableEq κ] :
    (es : List (Expr κ)) → (scopes : List (κ × List Column)) → Decidable (ResolvedAll es scopes)
  | [], _ => inferInstanceAs (Decidable True)
  | e :: es, scopes => @instDecidableAnd _ _ (e.decideResolved scopes) (decideResolvedAll es scopes)

end

instance [DecidableEq κ] (e : Expr κ) (scopes : List (κ × List Column)) :
    Decidable (e.Resolved scopes) :=
  e.decideResolved scopes

theorem resolvedAll_iff {es : List (Expr κ)} {scopes : List (κ × List Column)} :
    ResolvedAll es scopes ↔ ∀ e ∈ es, e.Resolved scopes := by
  induction es with
  | nil => simp [ResolvedAll]
  | cons e es ih => simp [ResolvedAll, ih]

theorem offered_append_iff {new scopes : List (κ × List Column)} {key : κ} {x : Variable} :
    Offered (new ++ scopes) key x ↔ Offered new key x ∨ Offered scopes key x := by
  simp only [Offered, List.mem_append, or_and_right, exists_or]

theorem offered_congr {scopes : List (κ × List Column)} {key : κ} {x y : Variable}
    (same : x.toIdent = y.toIdent) : Offered scopes key x ↔ Offered scopes key y := by
  simp only [Offered, same]

theorem not_offered {scopes : List (κ × List Column)} {key : κ} {x : Variable}
    (absent : ∀ scope ∈ scopes, scope.1 ≠ key) : ¬ Offered scopes key x := by
  rintro ⟨scope, there, same, -⟩
  exact absent scope there same

/-! ## Other keys -/

variable {number : κ → μ} {use : String → κ → μ}

/-- Replaces the keys of the sub-queries in sight. -/
def renumber (number : κ → μ) (scopes : List (κ × List Column)) : List (μ × List Column) :=
  scopes.map fun scope => (number scope.1, scope.2)

theorem offered_renumber_iff (injective : Function.Injective number)
    {scopes : List (κ × List Column)} {key : κ} {x : Variable} :
    Offered (renumber number scopes) (number key) x ↔ Offered scopes key x := by
  constructor
  · rintro ⟨scope', there', same, found⟩
    rcases List.mem_map.1 there' with ⟨scope, there, rfl⟩
    exact ⟨scope, there, injective same, found⟩
  · rintro ⟨scope, there, rfl, found⟩
    exact ⟨_, List.mem_map_of_mem there, rfl, found⟩

theorem operand_resolved_map_iff (injective : Function.Injective number)
    {scopes : List (κ × List Column)} {o : Operand κ} :
    (o.map number).Resolved (renumber number scopes) ↔ o.Resolved scopes := by
  cases o with
  | reference key x => exact offered_renumber_iff injective
  | _ => exact Iff.rfl

theorem source?_map {e : Expr κ} :
    (e.map number use).source? = e.source?.map fun scope => (number scope.1, scope.2) := by
  cases e with
  | derived layout query key => simp [Expr.map, Expr.source?, Expr.header_map]
  | _ => rfl

theorem filterMap_source?_map {sources : List (Expr κ)} :
    (sources.map (Expr.map number use)).filterMap Expr.source? =
      renumber number (sources.filterMap Expr.source?) := by
  rw [List.filterMap_map, renumber, List.map_filterMap]
  congr 1
  funext e
  exact source?_map

/-- Whether references are resolved does not depend on the keys, as long as these differ. -/
theorem resolved_map_iff (injective : Function.Injective number) {e : Expr κ}
    {scopes : List (κ × List Column)} :
    (e.map number use).Resolved (renumber number scopes) ↔ e.Resolved scopes := by
  -- lists of expressions, given the induction hypothesis for their members
  have list : ∀ (es : List (Expr κ)) (scopes : List (κ × List Column)),
      (∀ e ∈ es, ∀ {scopes}, (e.map number use).Resolved (renumber number scopes) ↔
        e.Resolved scopes) →
      (ResolvedAll (mapAll number use es) (renumber number scopes) ↔ ResolvedAll es scopes) := by
    intro es scopes ih
    rw [resolvedAll_iff, resolvedAll_iff, mapAll_eq_map, List.forall_mem_map]
    exact forall₂_congr fun e he => ih e he
  induction e generalizing scopes with
  | truth value => exact Iff.rfl
  | compare relation left right =>
    exact and_congr (operand_resolved_map_iff injective) (operand_resolved_map_iff injective)
  | equate column value => exact operand_resolved_map_iff injective
  | any es ih => exact list es scopes ih
  | group es ih => exact list es scopes ih
  | not layout condition ih => exact ih
  | exist body ih => exact ih
  | table name key => exact Iff.rfl
  | derived layout body key ih => exact ih
  | unionAll es ih => exact list es scopes ih
  | select distinct columns sources conditions limitOne hs hc =>
    refine and_congr (list sources scopes hs) ?_
    -- conditions see the renumbered sources in front of what was in sight
    have seen : (mapAll number use sources).filterMap Expr.source? ++ renumber number scopes =
        renumber number (sources.filterMap Expr.source? ++ scopes) := by
      rw [mapAll_eq_map, filterMap_source?_map, renumber, renumber, renumber, List.map_append]
    rw [seen]
    exact list conditions _ hc

end Resolved

/-! ## Compiled statements -/

section Statements

variable {ctx : Context} {scopes : List (Position × List Column)}

theorem resolved_select_iff {outermost : Bool} {columns : List Column}
    {sources conditions : List (Expr Position)} :
    (ctx.select outermost columns sources conditions).Resolved scopes ↔
      (∀ e ∈ sources, e.Resolved scopes) ∧
        ∀ e ∈ conditions, e.Resolved (sources.filterMap Expr.source? ++ scopes) := by
  rw [← resolvedAll_iff, ← resolvedAll_iff]
  unfold Context.select
  split <;> exact Iff.rfl

theorem resolved_conditionOr_iff {outermost : Bool} {c : Expr Position} :
    (ctx.conditionOr outermost c).Resolved scopes ↔ c.Resolved scopes := by
  unfold Context.conditionOr
  split
  · simp [resolved_select_iff]
  · exact Iff.rfl

theorem resolved_amongConditions_iff {several : Bool} {f : Formula} {c : Expr Position} :
    (amongConditions several f c).Resolved scopes ↔ c.Resolved scopes := by
  unfold amongConditions
  split
  · exact and_iff_left trivial
  · exact Iff.rfl

theorem resolved_group_iff {conditions : List (Expr Position)} :
    (Expr.group conditions).Resolved scopes ↔ ∀ c ∈ conditions, c.Resolved scopes :=
  resolvedAll_iff

theorem resolved_grouped_iff {conditions : List (Expr Position)} :
    (∀ e ∈ grouped conditions, e.Resolved scopes) ↔ ∀ c ∈ conditions, c.Resolved scopes := by
  unfold grouped
  split
  · rename_i none
    have empty : conditions = [] := by simpa using none
    simp [empty]
  · simp [resolved_group_iff]

theorem resolved_disjunction_iff {t : Task} {es : List (Expr Position)} :
    (ctx.disjunction t es).Resolved scopes ↔ ∀ e ∈ es, e.Resolved scopes := by
  rw [← resolvedAll_iff]
  unfold Context.disjunction
  split
  · rw [resolved_conditionOr_iff]
    exact Iff.rfl
  · split
    · rw [resolved_select_iff]
      simp [Expr.Resolved]
    · exact Iff.rfl

/-- The joined queries in sight of the conditions of a conjunction. -/
def Task.offering (t : Task) (entries : List (Formula × Nat)) (queries : List (Expr Position)) :
    List (Position × List Column) :=
  (entries.zip queries).map fun pair => (pair.1.2 :: t.position, pair.2.header)

theorem filterMap_source?_sources {t : Task} {entries : List (Formula × Nat)}
    {queries : List (Expr Position)} :
    (t.sources entries queries).filterMap Expr.source? = t.offering entries queries := by
  induction entries generalizing queries with
  | nil => rfl
  | cons entry entries ih =>
    cases queries with
    | nil => rfl
    | cons query queries =>
      have tail := @ih queries
      simp only [Task.sources, Task.offering] at tail ⊢
      simp [Expr.source?, tail]

end Statements

/-! ## Positions of providers -/

namespace Task

/-- What is provided are named variables, by queries at positions outside of the part. -/
def Outside (t : Task) : Prop :=
  ∀ entry ∈ t.providers, entry.1.isBlank = false ∧ ¬ t.position <:+ entry.2

theorem not_suffix_cons {position other : Position} {n : Nat} (h : ¬ position <:+ other) :
    ¬ (n :: position) <:+ other :=
  fun longer => h ((List.suffix_cons n position).trans longer)

theorem not_suffix_sibling {position : Position} {n m : Nat} (apart : n ≠ m) :
    ¬ (n :: position) <:+ (m :: position) := by
  intro same
  have heads := same.eq_of_length (by simp)
  exact apart (List.cons.inj heads).1

theorem place_ne {t : Task} {parts : List Formula} {f g : Formula} {n m : Nat}
    (hf : (f, n) ∈ t.conditional parts) (hg : (g, m) ∈ t.joined parts) : n ≠ m := by
  rintro rfl
  have clash := (mem_conditional.1 hf).1.symm.trans (mem_joined.1 hg).1
  simp at clash

theorem Outside.inner {t : Task} {parts : List Formula} {f : Formula} {n : Nat}
    (outside : t.Outside) (hf : (f, n) ∈ t.conditional parts) :
    (t.condition (t.inner parts) n).Outside := by
  intro entry hentry
  rcases List.mem_append.1 hentry with old | new
  · exact ⟨(outside entry old).1, not_suffix_cons (outside entry old).2⟩
  · rcases List.mem_flatMap.1 new with ⟨other, hother, hp⟩
    rcases List.mem_map.1 hp with ⟨x, hx, rfl⟩
    exact ⟨Formula.isBlank_of_mem_free (VarSet.toIdent_mem hx),
      not_suffix_sibling (place_ne hf hother)⟩

theorem Outside.subtask {t : Task} {f : Formula} {next : Task × Formula} (outside : t.Outside)
    (h : next ∈ t.subtasks f) : next.1.Outside := by
  revert outside
  -- every position below is longer, and only conditions get more providers
  have longer : ∀ (t t' : Task) (n : Nat), t'.position = n :: t.position →
      t'.providers = t.providers → t.Outside → t'.Outside := by
    intro t t' n position providers outside entry hentry
    rw [providers] at hentry
    rw [position]
    exact ⟨(outside entry hentry).1, not_suffix_cons (outside entry hentry).2⟩
  refine subtasks_cases (P := fun t f t' f' => t.Outside → t'.Outside) ?single ?join ?condition
    ?alternative ?negNeg ?neg ?exist h
  case single => exact fun t c part => longer t _ 0 rfl rfl
  case join => exact fun t parts f n several hf => longer t _ n rfl rfl
  case condition => exact fun t parts f n several hf outside => outside.inner hf
  case alternative => exact fun t parts f n several hf => longer t _ n rfl rfl
  case negNeg =>
    exact fun t body outside => longer t.single _ 0 rfl rfl (longer t _ 0 rfl rfl outside)
  case neg => exact fun t body plain positive => longer t _ 0 rfl rfl
  case exist =>
    intro t vars body outside entry hentry
    have kept := outside entry (List.mem_filter.1 hentry).1
    exact ⟨kept.1, not_suffix_cons kept.2⟩

/-- What is provided is never provided by the part itself, and so it is compared. -/
theorem provided_of_some {t : Task} (outside : t.Outside) {x : Variable} {key : Position}
    (found : t.providers.find? x = some key) (column : String) :
    t.provided x column = [.equate column (.reference key x)] := by
  have position : key ≠ t.position := by
    rintro rfl
    rcases Providers.mem_of_find? found with ⟨z, hz, -⟩
    exact (outside _ hz).2 (List.suffix_refl _)
  simp [provided, found, position]

theorem provided_of_none {t : Task} {x : Variable} (absent : t.providers.find? x = none)
    (column : String) : t.provided x column = [] := by
  simp [provided, absent]

/-! ## Grounded parts -/

/-- The variables of a comparison are provided by queries beside it. What the conditions of a
conjunction take from its joined parts is among the columns of these. -/
def Grounded (t : Task) : Formula → Prop
  | .atom (.comparison c) | .neg (.atom (.comparison c)) =>
    ∀ x, Term.var x ∈ [c.left, c.right] → t.providers.find? x ≠ none
  | .junction .and (part :: part' :: parts) =>
    ∀ entry ∈ t.conditional (part :: part' :: parts), ∀ x : Variable, x.toIdent ∈ entry.1.free →
      t.providers.find? x = none →
      (∃ other ∈ t.joined (part :: part' :: parts), x.toIdent ∈ other.1.free) →
      x.toIdent ∈ t.wanted (part :: part' :: parts)
  | _ => True

theorem grounded_and_iff {t : Task} {parts : List Formula} (several : 1 < parts.length) :
    t.Grounded (.junction .and parts) ↔
      ∀ entry ∈ t.conditional parts, ∀ x : Variable, x.toIdent ∈ entry.1.free →
        t.providers.find? x = none → (∃ other ∈ t.joined parts, x.toIdent ∈ other.1.free) →
        x.toIdent ∈ t.wanted parts := by
  match parts, several with
  | _ :: _ :: _, _ => exact Iff.rfl

theorem grounded_or {t : Task} {parts : List Formula} : t.Grounded (.junction .or parts) := by
  cases parts <;> trivial

theorem grounded_neg {t : Task} {body : Formula} (plain : ∀ c, body ≠ .atom (.comparison c)) :
    t.Grounded (.neg body) := by
  cases body with
  | atom a =>
    cases a with
    | comparison c => exact absurd rfl (plain c)
    | truth b => trivial
    | predicate a => trivial
  | junction c parts => trivial
  | neg g => trivial
  | quant q vars g => trivial

/-- What is provided for the part is offered by the sub-queries in sight. -/
def Served (t : Task) (f : Formula) (scopes : List (Position × List Column)) : Prop :=
  ∀ x : Variable, x.toIdent ∈ f.free → ∀ key, t.providers.find? x = some key → Offered scopes key x

end Task

section Conjunctions

variable {ctx : Context} {t : Task} {parts : List Formula} {queries : List (Expr Position)}
  {scopes : List (Position × List Column)}

/-- The query of a joined part has columns for the wanted variables that are free in it. -/
theorem carries_join_iff {entry : Formula × Nat} (hentry : entry ∈ t.joined parts)
    {q : Expr Position} (answers : ctx.Answers (t.join (t.wanted parts) entry.1 entry.2) q)
    {x : Ident} :
    (∃ c ∈ q.header, c.carries.toIdent = x) ↔ x ∈ t.wanted parts ∧ x ∈ entry.1.free := by
  rw [← Task.mem_requested_join hentry, ← VarSet.mem_idents, ← answers.header.carries.mem_iff,
    List.mem_map]

/-- Inside of a statement, columns have the names of their variables. -/
theorem name_join {entry : Formula × Nat} {q : Expr Position}
    (answers : ctx.Answers (t.join (t.wanted parts) entry.1 entry.2) q) {c : Column}
    (hc : c ∈ q.header) : c.name = c.carries.name :=
  (answers.header.named c hc).trans Context.label_false

/-- The joined parts offer just the wanted variables that are free in them. -/
theorem offered_offering_iff
    (answers : List.Forall₂ (fun entry q => ctx.Answers (t.join (t.wanted parts) entry.1 entry.2) q)
      (t.joined parts) queries)
    {f : Formula} {n : Nat} (hf : (f, n) ∈ t.joined parts) {x : Variable}
    (free : x.toIdent ∈ f.free) :
    Offered (t.offering (t.joined parts) queries) (n :: t.position) x ↔
      x.toIdent ∈ t.wanted parts := by
  -- a column for the variable has its name, since labels are for the outermost statement only
  have carried : ∀ entry ∈ t.joined parts, ∀ q,
      ctx.Answers (t.join (t.wanted parts) entry.1 entry.2) q →
      ((∃ c ∈ q.header, c.carries.toIdent = x.toIdent ∧ c.name = x.name) ↔
        x.toIdent ∈ t.wanted parts ∧ x.toIdent ∈ entry.1.free) := by
    intro entry hentry q answers
    rw [← carries_join_iff hentry answers]
    constructor
    · rintro ⟨c, hc, same, -⟩
      exact ⟨c, hc, same⟩
    · rintro ⟨c, hc, same⟩
      have names : c.carries.name = x.name := congrArg Ident.name same
      exact ⟨c, hc, same, (name_join answers hc).trans names⟩
  rcases List.forall₂_iff_zip.1 answers with ⟨lengths, each⟩
  constructor
  · rintro ⟨scope, there, -, found⟩
    rcases List.mem_map.1 there with ⟨⟨entry, q⟩, hpair, rfl⟩
    have hentry : entry ∈ t.joined parts := (List.of_mem_zip hpair).1
    exact ((carried entry hentry q (each hpair)).1 found).1
  · intro wanted
    rcases Context.exists_mem_zip hf lengths.symm with ⟨q, hpair⟩
    refine ⟨_, List.mem_map_of_mem hpair, rfl, ?_⟩
    exact (carried _ hf q (each hpair)).2 ⟨wanted, free⟩

/-- What the conditions of a conjunction refer to is offered if the outer references are and if
what they take from the joined parts is wanted of these. -/
theorem served_inner_iff
    (answers : List.Forall₂ (fun entry q => ctx.Answers (t.join (t.wanted parts) entry.1 entry.2) q)
      (t.joined parts) queries)
    (outside : t.Outside) (apart : ∀ scope ∈ scopes, ¬ t.position <:+ scope.1) {f : Formula}
    {n : Nat} :
    (t.condition (t.inner parts) n).Served f (t.offering (t.joined parts) queries ++ scopes) ↔
      t.Served f scopes ∧ ∀ x : Variable, x.toIdent ∈ f.free → t.providers.find? x = none →
        (∃ other ∈ t.joined parts, x.toIdent ∈ other.1.free) → x.toIdent ∈ t.wanted parts := by
  -- the keys of the joined parts are positions inside of the conjunction, other keys are not
  have inside : ∀ scope ∈ t.offering (t.joined parts) queries, t.position <:+ scope.1 := by
    intro scope hscope
    rcases List.mem_map.1 hscope with ⟨pair, -, rfl⟩
    exact List.suffix_cons _ _
  have outer : ∀ x key, t.providers.find? x = some key →
      (Offered (t.offering (t.joined parts) queries ++ scopes) key x ↔ Offered scopes key x) := by
    intro x key found
    rcases Providers.mem_of_find? found with ⟨z, hz, -⟩
    rw [offered_append_iff, or_iff_right]
    refine not_offered fun scope hscope same => ?_
    exact (outside _ hz).2 (same ▸ inside scope hscope)
  have own : ∀ n x, Offered (t.offering (t.joined parts) queries ++ scopes) (n :: t.position) x ↔
      Offered (t.offering (t.joined parts) queries) (n :: t.position) x := by
    intro n x
    rw [offered_append_iff, or_iff_left]
    refine not_offered fun scope hscope same => ?_
    exact apart scope hscope (same ▸ List.suffix_cons _ _)
  constructor
  · intro served
    refine ⟨?_, ?_⟩
    · intro x free key found
      exact (outer x key found).1 (served x free key (Task.find?_inner_of_some parts found))
    · rintro x free absent ⟨other, hother, there⟩
      rcases Task.find?_inner_of_none parts absent with ⟨none, some⟩
      cases found : (t.inner parts).find? x with
      | none => exact absurd there (none.1 found other hother)
      | some key =>
        rcases some key found with ⟨entry, hentry, hx, rfl⟩
        have offered := (own _ x).1 (served x free _ found)
        exact (offered_offering_iff answers hentry hx).1 offered
  · rintro ⟨served, wanted⟩ x free key found
    cases absent : t.providers.find? x with
    | some key' =>
      have same := (Task.find?_inner_of_some parts absent).symm.trans found
      cases same
      exact (outer x key absent).2 (served x free key absent)
    | none =>
      rcases (Task.find?_inner_of_none parts absent).2 key found with
        ⟨entry, hentry, hx, rfl⟩
      exact (own _ x).2 ((offered_offering_iff answers hentry hx).2
        (wanted x free absent ⟨entry, hentry, hx⟩))

end Conjunctions

/-! ## Compiled parts -/

section Parts

variable {ctx : Context} {t : Task} {scopes : List (Position × List Column)}

theorem served_of_closed {f : Formula} (closed : ∀ x : Ident, x ∉ f.free) : t.Served f scopes :=
  fun _ free => absurd free (closed _)

theorem served_junction_iff {c : Connective} {parts : List Formula} :
    t.Served (.junction c parts) scopes ↔ ∀ f ∈ parts, t.Served f scopes := by
  constructor
  · intro served f hf x free
    exact served x (Formula.mem_free_junction.2 ⟨f, hf, free⟩)
  · intro each x free
    rcases Formula.mem_free_junction.1 free with ⟨f, hf, free⟩
    exact each f hf x free

theorem served_neg_iff {body : Formula} : t.Served (.neg body) scopes ↔ t.Served body scopes := by
  simp only [Task.Served, Formula.mem_free_neg]

theorem served_quant_iff {vars : VarSet} {body : Formula} :
    t.Served (.quant .exist vars body) scopes ↔ (t.within vars).Served body scopes := by
  simp only [Task.Served, Formula.mem_free_quant, Providers.find?_within]
  refine forall_congr' fun x => ?_
  by_cases bound : x.toIdent ∈ vars
  · simp [bound]
  · simp [bound]

theorem served_iff_of_same {f g : Formula} (same : f.same g = true) :
    t.Served f scopes ↔ t.Served g scopes := by
  simp only [Task.Served, Formula.mem_free_iff_of_same same]

/-- The operand for a term is resolved if some query in sight provides the variable. -/
theorem operand_resolved_iff {term : Term} :
    (operand t.providers term).Resolved scopes ↔
      ∀ x, Term.var x = term → ∃ key, t.providers.find? x = some key ∧ Offered scopes key x := by
  cases term with
  | const c => simp [operand, Operand.Resolved]
  | var x =>
    simp only [operand, Term.var.injEq, forall_eq]
    cases found : t.providers.find? x with
    | none => simp [Operand.Resolved]
    | some key => simp [Operand.Resolved]

theorem comparison_resolved_iff {c : Comparison} (outside : t.Outside) :
    (comparison t.providers c).Resolved scopes ↔
      t.Served (.atom (.comparison c)) scopes ∧
        ∀ x, Term.var x ∈ [c.left, c.right] → t.providers.find? x ≠ none := by
  have both : (comparison t.providers c).Resolved scopes ↔ ∀ x, Term.var x ∈ [c.left, c.right] →
      ∃ key, t.providers.find? x = some key ∧ Offered scopes key x := by
    simp only [List.mem_cons, List.not_mem_nil, or_false, or_imp, forall_and]
    exact and_congr operand_resolved_iff operand_resolved_iff
  rw [both]
  constructor
  · intro each
    refine ⟨?_, ?_⟩
    · intro x free key found
      rcases Formula.mem_free_atom.1 free with ⟨y, hy, -, same⟩
      rcases each y hy with ⟨key', found', offered⟩
      rw [Providers.find?_congr same, found] at found'
      cases found'
      exact (offered_congr same).1 offered
    · intro x hx
      rcases each x hx with ⟨key, found, -⟩
      simp [found]
  · rintro ⟨served, provided⟩ x hx
    cases found : t.providers.find? x with
    | none => exact absurd found (provided x hx)
    | some key =>
      -- what is provided has a name, so that it is free in the comparison
      rcases Providers.mem_of_find? found with ⟨z, hz, same⟩
      have names : z.name = x.name := congrArg Ident.name same
      have named : x.isBlank = false := by
        simpa [Variable.isBlank, names] using (outside _ hz).1
      exact ⟨key, rfl, served x (Formula.mem_free_atom.2 ⟨x, hx, named, rfl⟩) key found⟩

/-- The references of a scan are those to the providers of the variables of its atom. -/
theorem scan_resolved_iff {a : PredicateAtom} {table : Table} (outside : t.Outside)
    (lengths : table.columns.length = a.terms.length) :
    (∀ e ∈ (ctx.scan t [] (a.terms.zip table.columns)).conditions, e.Resolved scopes) ↔
      t.Served (.atom (.predicate a)) scopes := by
  rw [Context.forall_scan_conditions_iff (by simp) fun x column h => trivial]
  constructor
  · rintro ⟨-, -, provided⟩ x free key found
    rcases Context.exists_first_of_free lengths free with ⟨o, ho, same⟩
    rw [← Providers.find?_congr same] at found
    have conditions := Task.provided_of_some outside found o.2
    have resolved := provided o ho _ (conditions ▸ List.mem_cons_self)
    exact (offered_congr same).1 resolved
  · intro served
    refine ⟨fun c column h => trivial, fun x column h named o ho same => trivial, ?_⟩
    intro o ho
    cases found : t.providers.find? o.1 with
    | none => simp [Task.provided_of_none found]
    | some key =>
      rw [Task.provided_of_some outside found, List.forall_mem_singleton]
      exact served o.1 (Context.free_of_mem_firsts ho) key found

/-- The references of the expression are resolved just if what is provided for the part is offered
in sight and all parts below are grounded. -/
def ResolvedWhen (t : Task) (f : Formula) (e : Expr Position) : Prop :=
  ∀ scopes : List (Position × List Column), (∀ scope ∈ scopes, ¬ t.position <:+ scope.1) →
    (e.Resolved scopes ↔
      t.Served f scopes ∧ ∀ goal, Task.Reaches (t, f) goal → goal.1.Grounded goal.2)

/-- A part that hands over to a single part below. -/
theorem resolvedWhen_of_subtask {t t' : Task} {f f' : Formula} {e : Expr Position}
    (h : ResolvedWhen t' f' e) (only : t.subtasks f = [(t', f')]) (grounded : t.Grounded f)
    (served : ∀ scopes, t.Served f scopes ↔ t'.Served f' scopes)
    (below : ∀ other, ¬ t.position <:+ other → ¬ t'.position <:+ other) : ResolvedWhen t f e := by
  intro scopes apart
  have reached := Task.forall_reaches_iff (P := fun goal => goal.1.Grounded goal.2)
    (t := t) (f := f)
  rw [h scopes fun scope hscope => below _ (apart scope hscope), reached, only, served]
  simp [grounded]

/-- A part without parts below. -/
theorem resolvedWhen_of_leaf {f : Formula} {e : Expr Position} (none : t.subtasks f = [])
    (h : ∀ scopes, e.Resolved scopes ↔ t.Served f scopes ∧ t.Grounded f) : ResolvedWhen t f e := by
  intro scopes apart
  rw [h, Task.forall_reaches_iff, none]
  simp

theorem resolvedWhen_conditionOr_iff {f : Formula} {outermost : Bool} {c : Expr Position} :
    ResolvedWhen t f (ctx.conditionOr outermost c) ↔ ResolvedWhen t f c := by
  simp only [ResolvedWhen, resolved_conditionOr_iff]

/-- The references of the joined parts and of the conditions of a conjunction. -/
theorem conjunction_resolved_iff {parts : List Formula} {queries conditions : List (Expr Position)}
    (outside : t.Outside) (several : 1 < parts.length)
    (answers : List.Forall₂ (fun entry q => ctx.Answers (t.join (t.wanted parts) entry.1 entry.2) q)
      (t.joined parts) queries)
    (joined : List.Forall₂
      (fun entry q => ResolvedWhen (t.join (t.wanted parts) entry.1 entry.2) entry.1 q)
      (t.joined parts) queries)
    (filtered : List.Forall₂
      (fun entry c => ResolvedWhen (t.condition (t.inner parts) entry.2) entry.1 c)
      (t.conditional parts) conditions)
    (apart : ∀ scope ∈ scopes, ¬ t.position <:+ scope.1) :
    ((∀ e ∈ t.sources (t.joined parts) queries, e.Resolved scopes) ∧
        ∀ e ∈ guarded (t.several parts) (t.conditional parts) conditions,
          e.Resolved (t.offering (t.joined parts) queries ++ scopes)) ↔
      t.Served (.junction .and parts) scopes ∧
        ∀ goal, Task.Reaches (t, .junction .and parts) goal → goal.1.Grounded goal.2 := by
  -- nothing in sight is at a position inside of the conjunction
  have apart' : ∀ n, ∀ scope ∈ scopes, ¬ (n :: t.position) <:+ scope.1 :=
    fun n scope hscope => Task.not_suffix_cons (apart scope hscope)
  have sources : (∀ e ∈ t.sources (t.joined parts) queries, e.Resolved scopes) ↔
      ∀ entry ∈ t.joined parts, t.Served entry.1 scopes ∧
        ∀ goal, Task.Reaches (t.join (t.wanted parts) entry.1 entry.2, entry.1) goal →
          goal.1.Grounded goal.2 :=
    forall_mem_zipWith_iff (joined.imp fun entry q h => h scopes (apart' entry.2))
  -- the joined parts in sight of a condition are at other places than the condition
  have inside : ∀ entry ∈ t.conditional parts,
      ∀ scope ∈ t.offering (t.joined parts) queries ++ scopes,
        ¬ (entry.2 :: t.position) <:+ scope.1 := by
    intro entry hentry scope hscope
    rcases List.mem_append.1 hscope with new | old
    · rcases List.mem_map.1 new with ⟨⟨other, q⟩, hpair, rfl⟩
      exact Task.not_suffix_sibling (Task.place_ne hentry (List.of_mem_zip hpair).1)
    · exact apart' entry.2 scope old
  have filters : (∀ e ∈ guarded (t.several parts) (t.conditional parts) conditions,
        e.Resolved (t.offering (t.joined parts) queries ++ scopes)) ↔
      ∀ entry ∈ t.conditional parts,
        (t.condition (t.inner parts) entry.2).Served entry.1
            (t.offering (t.joined parts) queries ++ scopes) ∧
          ∀ goal, Task.Reaches (t.condition (t.inner parts) entry.2, entry.1) goal →
            goal.1.Grounded goal.2 := by
    refine forall_mem_zipWith_iff (forall₂_imp_mem filtered fun entry hentry c h => ?_)
    rw [resolved_amongConditions_iff]
    exact h _ (inside entry hentry)
  rw [sources, filters, Task.forall_reaches_iff, Task.subtasks_and several,
    Task.grounded_and_iff several, served_junction_iff,
    Task.forall_parts_iff (t := t) fun f g same => served_iff_of_same same]
  -- what is left is to sort the conjuncts: parts served, parts below grounded, and the conjunction
  simp only [served_inner_iff answers outside apart, List.forall_mem_append, List.forall_mem_map,
    forall_and]
  tauto

/-- When the references of a compiled part are resolved. -/
theorem formula_resolvedWhen {f : Formula} {e : Expr Position} (compiled : ctx.formula t f = .ok e)
    (fits : t.Fits f) (outside : t.Outside) : ResolvedWhen t f e := by
  have below : ∀ (position : Position) (n : Nat) (other : Position),
      ¬ position <:+ other → ¬ (n :: position) <:+ other :=
    fun position n other => Task.not_suffix_cons
  refine Context.formula_induction (I := fun t f => t.Fits f ∧ t.Outside) (motive := ResolvedWhen)
    (fun t f inv next h => ⟨inv.1.subtask h, inv.2.subtask h⟩) ?truth ?comparison ?predicate ?empty
    ?single ?filter ?join ?alternatives ?negComparison ?negNeg ?neg ?exist compiled ⟨fits, outside⟩
  case truth =>
    intro t b inv
    have closed : ∀ x : Ident, x ∉ (Formula.atom (.truth b)).free := by
      intro x
      simp [Formula.mem_free_atom, Atom.terms]
    refine resolvedWhen_of_leaf rfl fun scopes => ?_
    simp [resolved_conditionOr_iff, Expr.Resolved, served_of_closed closed, Task.Grounded]
  case comparison =>
    intro t c inv
    refine resolvedWhen_of_leaf rfl fun scopes => ?_
    rw [resolved_conditionOr_iff]
    exact comparison_resolved_iff inv.2
  case predicate =>
    intro t a table inv found
    refine resolvedWhen_of_leaf rfl fun scopes => ?_
    have unseen :
        [Expr.table table.name t.position].filterMap Expr.source? ++ scopes = scopes := rfl
    rw [resolved_select_iff, unseen, scan_resolved_iff inv.2 (Context.tableFor_ok found).2]
    simp [Expr.Resolved, Task.Grounded]
  case empty =>
    intro t c inv
    have closed : ∀ x : Ident, x ∉ (Formula.junction c []).free := by
      intro x
      simp [Formula.mem_free_junction]
    refine resolvedWhen_of_leaf rfl fun scopes => ?_
    cases c <;>
      simp [resolved_conditionOr_iff, Expr.Resolved, served_of_closed closed, Task.Grounded]
  case single =>
    intro t c part e inv ih
    refine resolvedWhen_of_subtask ih rfl (by cases c <;> trivial) (fun scopes => ?_)
      (below t.position 0)
    rw [served_junction_iff]
    exact List.forall_mem_singleton
  case filter =>
    intro t parts conditions inv several complete unjoined some ih scopes apart
    -- a conjunction of conditions is the case of no joined part
    have none : List.Forall₂
        (fun entry q => ResolvedWhen (t.join (t.wanted parts) entry.1 entry.2) entry.1 q)
        (t.joined parts) [] := unjoined ▸ .nil
    have answers : List.Forall₂
        (fun entry q => ctx.Answers (t.join (t.wanted parts) entry.1 entry.2) q)
        (t.joined parts) [] := unjoined ▸ .nil
    rw [← conjunction_resolved_iff inv.2 several answers none ih apart, resolved_conditionOr_iff,
      resolved_group_iff, unjoined]
    simp [Task.sources, Task.offering]
  case join =>
    intro t parts queries conditions inv several complete joined compiled ih ih' scopes apart
    have answers := forall₂_imp_mem compiled fun entry hentry q h =>
      Context.formula_answers h (inv.1.subtask (Task.mem_subtasks_joined several hentry))
    rw [← conjunction_resolved_iff inv.2 several answers ih ih' apart, resolved_select_iff,
      filterMap_source?_sources, resolved_grouped_iff]
  case alternatives =>
    intro t parts es inv several compiled ih scopes apart
    have each : (∀ e ∈ es, e.Resolved scopes) ↔ ∀ entry ∈ parts.zipIdx,
        t.Served entry.1 scopes ∧ ∀ goal, Task.Reaches (t.alternative entry.2, entry.1) goal →
          goal.1.Grounded goal.2 :=
      forall_mem_right_iff (ih.imp fun entry e h =>
        h scopes fun scope hscope => Task.not_suffix_cons (apart scope hscope))
    rw [resolved_disjunction_iff, each, Task.forall_reaches_iff, Task.subtasks_or several,
      served_junction_iff, ← forall_mem_zipIdx_iff (P := fun f => t.Served f scopes),
      List.forall_mem_map]
    simp only [Task.grounded_or, true_and, forall_and]
  case negComparison =>
    intro t c inv
    refine resolvedWhen_of_leaf rfl fun scopes => ?_
    rw [resolved_conditionOr_iff, served_neg_iff]
    exact comparison_resolved_iff inv.2
  case negNeg =>
    intro t body e inv ih
    rw [resolvedWhen_conditionOr_iff]
    refine resolvedWhen_of_subtask ih rfl trivial (fun scopes => ?_)
      (fun other h => below _ 0 other (below _ 0 other h))
    rw [served_neg_iff, served_neg_iff]
    exact Iff.rfl
  case neg =>
    intro t body e layout inv plain positive ih
    rw [resolvedWhen_conditionOr_iff]
    -- the references of a negation are those of the negated condition
    have negated : ResolvedWhen (t.condition t.providers 0) body (.not layout e) := ih
    exact resolvedWhen_of_subtask negated (Task.subtasks_neg plain positive)
      (Task.grounded_neg plain) (fun scopes => served_neg_iff) (below t.position 0)
  case exist =>
    intro t vars body e inv _ ih
    exact resolvedWhen_of_subtask ih rfl trivial (fun scopes => served_quant_iff)
      (below t.position 0)

end Parts

/-! ## Statements -/

/-- Every variable in a condition of a statement is a column of a sub-query in sight, just if all
parts of the formula are grounded. -/
theorem compile_resolved_iff {schema : Schema} {labels : Labels} {distinct : Bool} {f : Formula}
    {e : Expr Nat} (compiled : compile schema labels distinct f = .ok e) :
    e.Resolved [] ↔
      ∀ goal, Task.Reaches (rootTask f.prepared, f.prepared) goal → goal.1.Grounded goal.2 := by
  rcases compile_ok compiled with ⟨e', fits, inside, rfl⟩
  rcases e'.exists_numbering with ⟨number, injective, numbered⟩
  have outside : (rootTask f.prepared).Outside := fun entry hentry => absurd hentry List.not_mem_nil
  -- around the whole statement nothing is provided
  have served : (rootTask f.prepared).Served f.prepared [] := by
    intro x free key found
    simp [rootTask, Providers.find?] at found
  have resolved := formula_resolvedWhen inside fits outside [] (by simp)
  have renumbered : (e'.map number e'.useNumber).Resolved [] ↔ e'.Resolved [] :=
    @resolved_map_iff _ _ number e'.useNumber injective e' []
  rw [numbered, renumbered, resolved, and_iff_right served]

/-- `A(x) ∧ ¬ x = c` -/
def differing : Formula :=
  .junction .and [.predicate ⟨"A", [.var ⟨⟨"x", none⟩, .undefined⟩], .undefined⟩,
    .neg (.equal (.var ⟨⟨"x", none⟩, .undefined⟩) (.const (.object "c")))]

theorem differing_resolved :
    ∃ e, compile ⟨[⟨"A", ["a"]⟩], []⟩ [] false differing = .ok e ∧ e.Resolved [] ∧
      ∀ goal, Task.Reaches (rootTask differing.prepared, differing.prepared) goal →
        goal.1.Grounded goal.2 := by
  have compiled : compile ⟨[⟨"A", ["a"]⟩], []⟩ [] false differing = .ok _ := rfl
  refine ⟨_, compiled, ?_⟩
  rw [← compile_resolved_iff compiled, and_self]
  decide

/-- `∃ y (A(x) ∧ y = c)` -/
def unprovided : Formula :=
  .quant .exist (VarSet.ofList [⟨⟨"y", none⟩, .undefined⟩])
    (.junction .and [.predicate ⟨"A", [.var ⟨⟨"x", none⟩, .undefined⟩], .undefined⟩,
      .equal (.var ⟨⟨"y", none⟩, .undefined⟩) (.const (.object "c"))])

/-- No query provides `y`, which is compared by its bare name. -/
theorem unprovided_not_resolved :
    ∃ e, compile ⟨[⟨"A", ["a"]⟩], []⟩ [] false unprovided = .ok e ∧ ¬ e.Resolved [] :=
  ⟨_, rfl, by decide⟩

end Sql
end QueryCalculus
