import QueryCalculus.Proofs.Sparql.Conditions

/-!
# The answers of queries

- `Serves` : what the pattern of a formula does as an element of a group
- `pattern_serves` : it adds the solutions of the formula, or tests for them
- `mem_answers_iff` : the answers of a query

A removal has no effect if it has no variable in common with the solutions it is applied to, even if
they are compatible with all that is removed. So the answers are those of the formula if every
negated part is linked.
-/

namespace QueryCalculus

universe u

namespace Sparql

open Solution

variable {D : Type u} {G : Graph D}

/-! ## Truth on a graph -/

section Truth

variable {parts : List Formula} {v : Valuation D}

theorem holdsIn_and :
    (Formula.junction .and parts).HoldsIn G v ↔ ∀ f ∈ parts, f.HoldsIn G v :=
  Formula.allHoldBy_iff _

theorem holdsIn_or :
    (Formula.junction .or parts).HoldsIn G v ↔ ∃ f ∈ parts, f.HoldsIn G v :=
  Formula.someHoldsBy_iff _

theorem holdsIn_neg {body : Formula} : (Formula.neg body).HoldsIn G v ↔ ¬ body.HoldsIn G v :=
  Iff.rfl

theorem holdsIn_exist {vars : VarSet} {body : Formula} :
    (Formula.quant .exist vars body).HoldsIn G v ↔
      ∃ w, AgreeOutside vars v w ∧ body.HoldsIn G w :=
  Iff.rfl

end Truth

/-! ## Elements of a group -/

/-- The solution has the values of the known variables. -/
structure Carries (G : Graph D) (known : VarSet) (μ : Solution D) (v : Valuation D) : Prop where
  values : ∀ x : Ident, x ∈ known → μ x.name = some (v x)
  constant : ∀ d, μ dummy = some d → d = G.one

/-- What the pattern of a formula does in a group whose solutions carry the known variables: it adds
the solutions of the formula, unless it tests whether the formula holds. What it adds has values for
all that is selectable. -/
structure Serves (G : Graph D) (known : VarSet) (f : Formula) (s : Selection) : Prop where
  adds : Represents G s.vars (s.pattern.source G)
    fun v => s.pattern.isTest = false → f.HoldsIn G v
  tests : ∀ μ v, Carries G known μ v →
    (s.pattern.Passes G μ ↔ (s.pattern.isTest = true → f.HoldsIn G v))
  selects : ∀ x : Ident, x ∈ f.selectable → ∀ μ ∈ s.pattern.source G, ∃ d, μ x.name = some d
  links : ∀ vars, f.binds vars = true → (∀ μ, ¬ s.pattern.Passes G μ) ∨
    ∀ μ ∈ s.pattern.source G, Gives (fun x => x ∈ vars ∧ x ∈ s.vars) μ

variable {known vars : VarSet} {f : Formula} {s : Selection}

theorem carries_empty {μ : Solution D} {v : Valuation D} (within : Within G vars μ)
    (apart : Apart vars) : Carries G ∅ μ v where
  values x hx := absurd hx (VarSet.not_mem_empty x)
  constant _ := within.constant apart

/-- In a group of its own a pattern has the solutions of its formula. -/
theorem Serves.represents (h : Serves G ∅ f s) (apart : Apart s.vars) :
    Represents G s.vars (s.pattern.solutions G) fun v => f.HoldsIn G v := by
  rw [Pattern.solutions_eq]
  refine (h.adds.filter fun μ hμ v _ =>
    h.tests μ v (carries_empty (h.adds.within μ hμ) apart)).congr fun v => ?_
  cases s.pattern.isTest <;> simp

theorem Serves.gives (h : Serves G known f s) (binds : f.binds vars = true) :
    ∀ μ ∈ s.pattern.solutions G, Gives (fun x => x ∈ vars ∧ x ∈ s.vars) μ := by
  intro μ hμ
  rw [Pattern.solutions_eq] at hμ
  rcases h.links vars binds with never | linked
  · exact absurd hμ.2 (never μ)
  · exact linked μ hμ.1

theorem serves_of_represents (adds : s.pattern.isTest = false)
    (represents : Represents G s.vars (s.pattern.solutions G) fun v => f.HoldsIn G v)
    (selects : ∀ x : Ident, x ∈ f.selectable → ∀ μ ∈ s.pattern.solutions G, ∃ d, μ x.name = some d)
    (links : ∀ vars, f.binds vars = true → ∀ μ ∈ s.pattern.solutions G,
      Gives (fun x => x ∈ vars ∧ x ∈ s.vars) μ) :
    Serves G known f s := by
  have source := Pattern.source_eq G adds
  refine ⟨?_, ?_, source ▸ selects, fun vars binds => .inr (source ▸ links vars binds)⟩
  · rw [source]
    exact represents.congr fun v => (imp_iff_right adds).symm
  · intro μ v _
    exact iff_of_true (Pattern.passes_of_adds G adds μ) fun test => by simp [adds] at test

theorem serves_of_tests (test : s.pattern.isTest = true)
    (tests : ∀ μ v, Carries G known μ v → (s.pattern.Passes G μ ↔ f.HoldsIn G v))
    (selects : ∀ x : Ident, x ∉ f.selectable)
    (links : ∀ vars, f.binds vars = true → ∀ μ, ¬ s.pattern.Passes G μ) : Serves G known f s := by
  have source := Pattern.source_test G test
  refine ⟨?_, ?_, fun x hx => absurd hx (selects x), fun vars binds => .inl (links vars binds)⟩
  · rw [source]
    refine (represents_unit s.vars).congr fun v => iff_of_true trivial fun adds => ?_
    simp [adds] at test
  · intro μ v carries
    rw [tests μ v carries, imp_iff_right test]

/-! ## Atoms -/

theorem serves_truth : Serves G known .truth ⟨.empty, ∅⟩ := by
  have solutions : Pattern.empty.solutions G = {unit} := by
    simp [Pattern.solutions, Pattern.step, Pattern.Accepts, joined_unit_left]
  refine serves_of_represents rfl ?_ (fun x hx => absurd hx Formula.not_mem_selectable_truth) ?_
  · rw [solutions]
    exact (represents_unit ∅).congr fun v => iff_of_true trivial rfl
  · intro vars binds
    cases binds

theorem serves_falsity : Serves G known .falsity ⟨.never, ∅⟩ :=
  serves_of_tests rfl (fun _ _ _ => iff_of_false id nofun)
    (fun _ => Formula.not_mem_selectable_truth) fun _ _ _ => id

theorem operand_carries {μ : Solution D} {v : Valuation D} (carries : Carries G known μ v)
    {t : Term} (grounded : ∀ x, t = .var x → x.isBlank = false ∧ x.toIdent ∈ known) {d : D} :
    operand? G μ t = some d ↔ t.DenotesIn G v d := by
  cases t with
  | const c => exact Option.some_inj
  | var x =>
    rcases grounded x rfl with ⟨named, hx⟩
    have value : μ x.name = some (v x.toIdent) := carries.values _ hx
    simp only [operand?, value, Option.some.injEq, Term.DenotesIn, Graph.Denotes, named,
      Bool.false_eq_true, false_or]

theorem serves_comparison {c : Comparison}
    (grounded : (Formula.atom (.comparison c)).grounded known = true) :
    Serves G known (.atom (.comparison c)) ⟨.filter c, ∅⟩ := by
  rw [Formula.grounded_comparison] at grounded
  refine serves_of_tests rfl ?_ (fun _ => Formula.not_mem_selectable_comparison) nofun
  intro μ v carries
  have left : ∀ d, operand? G μ c.left = some d ↔ c.left.DenotesIn G v d := fun d =>
    operand_carries carries fun x same => grounded x (by simp [same])
  have right : ∀ d, operand? G μ c.right = some d ↔ c.right.DenotesIn G v d := fun d =>
    operand_carries carries fun x same => grounded x (by simp [same])
  show (∃ d e, _ ∧ _ ∧ _) ↔ ∃ d e, _ ∧ _ ∧ _
  simp only [left, right]

theorem serves_matching {a : PredicateAtom} {p : Pattern} (holds : (Term → D → Prop) → Prop)
    (adds : p.isTest = false) (solutions : p.solutions G = matching G a.terms holds)
    (holds_iff : ∀ v, a.HoldsIn G v ↔ holds (Term.DenotesIn G v))
    (congr : ∀ R S : Term → D → Prop, (∀ t ∈ a.terms, ∀ d, R t d ↔ S t d) → (holds R ↔ holds S))
    (apart : Apart (Formula.predicate a).free) :
    Serves G known (.predicate a) ⟨p, (Formula.predicate a).free⟩ := by
  refine serves_of_represents adds ?_ ?_ ?_
  · rw [solutions]
    exact (represents_matching congr apart).congr fun v => (holds_iff v).symm
  · intro x hx μ hμ
    rw [solutions] at hμ
    rcases VarSet.mem_ofList.1 hx with ⟨y, hy, rfl⟩
    exact (hμ.1 y.name).2 ⟨y, hy, rfl⟩
  · intro vars binds μ hμ
    rw [solutions] at hμ
    rcases Formula.binds_predicate.1 binds with ⟨y, hy, listed⟩
    exact ⟨y.toIdent, ⟨listed, VarSet.mem_ofList.2 ⟨y, hy, rfl⟩⟩, (hμ.1 y.name).2 ⟨y, hy, rfl⟩⟩

theorem serves_instanceOf {a : PredicateAtom} {t : Term} (terms : a.terms = [t])
    (apart : Apart (Formula.predicate a).free) :
    Serves G known (.predicate a) ⟨.instanceOf t a.predicate, (Formula.predicate a).free⟩ := by
  refine serves_matching (fun denotes => G.Instance denotes t a.predicate) rfl ?_ ?_ ?_ apart
  · rw [terms]
    simp [Pattern.solutions, Pattern.step, Pattern.Accepts, joined_unit_left]
  · intro v
    simp only [PredicateAtom.HoldsIn, terms]
  · rw [terms]
    exact fun R S => instance_congr

theorem serves_property {a : PredicateAtom} {t u : Term} (terms : a.terms = [t, u])
    (apart : Apart (Formula.predicate a).free) :
    Serves G known (.predicate a) ⟨.property t a.predicate u, (Formula.predicate a).free⟩ := by
  refine serves_matching (fun denotes => G.Related denotes t a.predicate u) rfl ?_ ?_ ?_ apart
  · rw [terms]
    simp [Pattern.solutions, Pattern.step, Pattern.Accepts, joined_unit_left]
  · intro v
    simp only [PredicateAtom.HoldsIn, terms]
  · rw [terms]
    exact fun R S => related_congr

/-! ## Removals -/

/-- A solution that carries the free variables of a negated formula stays in the group just if the
formula does not hold. -/
theorem serves_neg {body : Formula} {r : Selection} (compiled : pattern body = .ok r)
    (inside : Serves G ∅ body r) (apart : Apart body.free) (linked : body.binds body.free = true)
    (grounded : ∀ x : Ident, x ∈ body.free → x ∈ known) :
    Serves G known (.neg body) ⟨.minus r.pattern, ∅⟩ := by
  have free := mem_free_of_vars compiled
  have represents := inside.represents (apart.mono free)
  refine serves_of_tests rfl ?_ (fun _ => Formula.not_mem_selectable_neg) nofun
  intro μ v carries
  -- a removed solution has values for free variables only, where the others have one too
  have values : ∀ x : Ident, x ∈ r.vars → μ x.name = some (v x) :=
    fun x hx => carries.values x (grounded x (free x hx))
  rw [holdsIn_neg, represents.holds_iff]
  constructor
  · rintro kept ⟨ν, hν, fits⟩
    refine kept ν hν ⟨?_, ?_⟩
    · intro name d e hd he
      rcases represents.within ν hν name e he with ⟨x, hx, rfl⟩ | ⟨rfl, rfl⟩
      · rw [values x hx] at hd
        exact (Option.some.inj hd).symm.trans (fits x hx e he)
      · exact carries.constant d hd
    · -- without a value in common nothing would be removed
      rcases inside.gives linked ν hν with ⟨x, ⟨-, hx⟩, e, he⟩
      exact ⟨x.name, v x, e, values x hx, he⟩
  · rintro unfit ν hν ⟨compatible, -⟩
    exact unfit ⟨ν, hν, fun x hx e he => compatible x.name (v x) e (values x hx) he⟩

/-! ## Sub-queries -/

theorem serves_exist {vars : VarSet} {body : Formula} {r : Selection}
    (compiled : pattern body = .ok r) (inside : Serves G ∅ body r) (apart : Apart body.free) :
    Serves G known (.quant .exist vars body)
      ⟨.select (r.vars.diff vars) r.pattern, r.vars.diff vars⟩ := by
  have represents := inside.represents (apart.mono (mem_free_of_vars compiled))
  have solutions : (Pattern.select (r.vars.diff vars) r.pattern).solutions G =
      projected G (r.vars.diff vars) (r.pattern.solutions G) := by
    simp [Pattern.solutions, Pattern.step, Pattern.Accepts, joined_unit_left]
  refine serves_of_represents rfl ?_ ?_ ?_
  · rw [solutions]
    exact (represents.projected vars).congr fun v => holdsIn_exist.symm
  · intro x hx
    rw [solutions]
    rintro _ ⟨μ, hμ, rfl⟩
    rcases Formula.mem_selectable_quant.1 hx with ⟨hx, unbound⟩
    have kept := VarSet.mem_diff.2 ⟨mem_vars_of_selectable compiled x hx, unbound⟩
    rw [project_name kept]
    rw [Pattern.solutions_eq] at hμ
    exact inside.selects x hx μ hμ.1
  · intro listed binds
    rw [solutions]
    rintro _ ⟨μ, hμ, rfl⟩
    rcases inside.gives binds μ hμ with ⟨x, ⟨hx, bound⟩, value⟩
    rcases VarSet.mem_diff.1 hx with ⟨hx, unbound⟩
    have kept := VarSet.mem_diff.2 ⟨bound, unbound⟩
    exact ⟨x, ⟨hx, kept⟩, (project_name kept μ).symm ▸ value⟩

/-! ## Alternatives -/

variable {parts : List Formula} {rs : List Selection}

theorem mem_solutions_union {μ : Solution D} :
    μ ∈ (Pattern.union (rs.map Selection.pattern)).solutions G ↔
      ∃ r ∈ rs, μ ∈ r.pattern.solutions G := by
  have any : μ ∈ (Pattern.union (rs.map Selection.pattern)).solutions G ↔
      μ ∈ Pattern.solutionsAny G (rs.map Selection.pattern) := by
    simp [Pattern.solutions, Pattern.step, Pattern.Accepts, joined_unit_left]
  simp [any, Pattern.mem_solutionsAny]

/-- Alternatives have the solutions of every one of them. -/
theorem represents_union (each : List.Forall₂ (fun f r => Serves G ∅ f r) parts rs)
    (apart : Apart vars) (sub : ∀ r ∈ rs, ∀ x : Ident, x ∈ r.vars → x ∈ vars) :
    Represents G vars ((Pattern.union (rs.map Selection.pattern)).solutions G)
      fun v => (Formula.junction .or parts).HoldsIn G v where
  within μ hμ := by
    rcases mem_solutions_union.1 hμ with ⟨r, hr, hμ⟩
    rcases forall₂_exists_left each hr with ⟨f, -, inside⟩
    have represents := inside.represents (apart.mono (sub r hr))
    exact (represents.widen apart (sub r hr)).within μ hμ
  holds_iff v := by
    simp only [holdsIn_or, mem_solutions_union]
    constructor
    · rintro ⟨f, hf, holds⟩
      rcases forall₂_exists_left each.flip hf with ⟨r, hr, inside⟩
      have represents := (inside.represents (apart.mono (sub r hr))).widen apart (sub r hr)
      rcases (represents.holds_iff v).1 holds with ⟨μ, hμ, fits⟩
      exact ⟨μ, ⟨r, hr, hμ⟩, fits⟩
    · rintro ⟨μ, ⟨r, hr, hμ⟩, fits⟩
      rcases forall₂_exists_left each hr with ⟨f, hf, inside⟩
      have represents := (inside.represents (apart.mono (sub r hr))).widen apart (sub r hr)
      exact ⟨f, hf, (represents.holds_iff v).2 ⟨μ, hμ, fits⟩⟩

theorem serves_or (each : List.Forall₂ (fun f r => Serves G ∅ f r) parts rs)
    (apart : Apart (Selection.union rs).vars) :
    Serves G known (.junction .or parts) (Selection.union rs) := by
  have sub : ∀ r ∈ rs, ∀ x : Ident, x ∈ r.vars → x ∈ (Selection.union rs).vars :=
    fun r hr x hx => mem_vars_union.2 ⟨r, hr, hx⟩
  have represents := represents_union each apart sub
  cases each with
  | nil =>
    -- no alternatives are written as a filter
    refine serves_of_tests rfl (fun _ v _ => ?_) (fun _ => Formula.not_mem_selectable_empty)
      fun _ _ _ => id
    rw [holdsIn_or]
    exact iff_of_false id nofun
  | cons head tail =>
    rename_i f r parts rs
    have each : List.Forall₂ (fun f r => Serves G ∅ f r) (f :: parts) (r :: rs) := .cons head tail
    refine serves_of_represents rfl represents ?_ ?_
    · intro x hx μ hμ
      rcases mem_solutions_union.1 hμ with ⟨r, hr, hμ⟩
      rcases forall₂_exists_left each hr with ⟨f, hf, inside⟩
      rw [Pattern.solutions_eq] at hμ
      exact inside.selects x (Formula.mem_selectable_or.1 hx f hf) μ hμ.1
    · intro listed binds μ hμ
      rcases mem_solutions_union.1 hμ with ⟨r, hr, hμ⟩
      rcases forall₂_exists_left each hr with ⟨f, hf, inside⟩
      rcases inside.gives (Formula.binds_or.1 binds f hf) μ hμ with ⟨x, ⟨hx, bound⟩, value⟩
      exact ⟨x, ⟨hx, sub r hr x bound⟩, value⟩

/-! ## Conjunctions -/

theorem isPlain_of_pattern (compiled : pattern f = .ok s) :
    isNegation f = false → f.connective? ≠ some .and → s.pattern.isPlain = true := by
  refine pattern_induction (motive := fun f s => isNegation f = false →
    f.connective? ≠ some .and → s.pattern.isPlain = true)
    ?truth ?falsity ?comparison ?instanceOf ?property ?and ?or ?neg ?exist compiled
  case truth | falsity => exact fun _ _ => rfl
  case comparison => exact fun c _ _ => rfl
  case instanceOf => exact fun a t _ _ _ => rfl
  case property => exact fun a t u _ _ _ => rfl
  case and => exact fun parts rs _ _ other => absurd rfl other
  case or => exact fun parts rs _ _ _ => by cases rs <;> rfl
  case neg => exact fun body r _ _ positive => by cases positive
  case exist => exact fun vars body r _ _ _ _ => rfl

theorem isMinus_of_pattern (compiled : pattern f = .ok s) (negative : isNegation f = true) :
    s.pattern.isMinus = true := by
  cases f with
  | neg body =>
    rcases pattern_neg_eq_ok_iff.1 compiled with ⟨r, -, rfl⟩
    rfl
  | _ => cases negative

theorem solutions_selection_join :
    (Selection.join rs).pattern.solutions G =
      (Pattern.join (rs.map Selection.pattern)).solutions G := by
  cases rs with
  | nil =>
    simp [Selection.join, Pattern.solutions, Pattern.step, Pattern.stepAll, Pattern.Accepts,
      Pattern.AcceptsAll, joined_unit_left]
  | cons r rs => rfl

/-- The solutions of a flat conjunction, from what its parts add and test. -/
theorem solutions_conjunction
    (each : List.Forall₂ (fun f r => pattern f = .ok r) (arranged parts) rs)
    (flat : ∀ f ∈ parts, f.connective? ≠ some .and) :
    (Selection.join rs).pattern.solutions G =
      {μ ∈ Pattern.sources G (rs.map Selection.pattern) {unit} |
        ∀ r ∈ rs, r.pattern.Passes G μ} := by
  rcases forall₂_append_left each with ⟨front, back, rfl, positive, negative⟩
  rw [solutions_selection_join, List.map_append, Pattern.solutions_join G]
  · simp only [← List.map_append, List.forall_mem_map]
  · refine List.forall_mem_map.2 fun r hr => ?_
    rcases forall₂_exists_left positive hr with ⟨f, hf, compiled⟩
    rcases List.mem_filter.1 hf with ⟨hf, kind⟩
    exact isPlain_of_pattern compiled (by simpa using kind) (flat f hf)
  · refine List.forall_mem_map.2 fun r hr => ?_
    rcases forall₂_exists_left negative hr with ⟨f, hf, compiled⟩
    exact isMinus_of_pattern compiled (List.mem_filter.1 hf).2

/-- The formula holds if its pattern is a test, or if it is none. -/
def HoldsWhen (G : Graph D) (test : Bool) (f : Formula) (v : Valuation D) : Prop :=
  ∀ r, pattern f = .ok r → r.pattern.isTest = test → f.HoldsIn G v

theorem holdsWhen_iff (compiled : pattern f = .ok s) {test : Bool} {v : Valuation D} :
    HoldsWhen G test f v ↔ (s.pattern.isTest = test → f.HoldsIn G v) := by
  constructor
  · exact fun h => h s compiled
  · intro h r compiled'
    cases compiled.symm.trans compiled'
    exact h

section Conjunction

variable (each : List.Forall₂
  (fun f r => pattern f = .ok r ∧ Serves G (Formula.junction .and parts).selectable f r)
  (arranged parts) rs)
include each

theorem sources_select {x : Ident} (hx : x ∈ (Formula.junction .and parts).selectable) :
    ∀ μ ∈ Pattern.sources G (rs.map Selection.pattern) {unit}, ∃ d, μ x.name = some d := by
  rcases Formula.mem_selectable_and.1 hx with ⟨f, hf, hx⟩
  rcases forall₂_exists_left each.flip (mem_arranged.2 hf) with ⟨r, hr, -, inside⟩
  have added : ∀ μ ∈ r.pattern.source G, Gives (· = x) μ :=
    fun μ hμ => ⟨x, rfl, inside.selects x hx μ hμ⟩
  intro μ hμ
  rcases gives_sources (.inr ⟨r.pattern, List.mem_map_of_mem hr, added⟩) μ hμ with ⟨_, rfl, value⟩
  exact value

theorem represents_added (apart : Apart (Selection.join rs).vars) :
    Represents G (Selection.join rs).vars
      (Pattern.sources G (rs.map Selection.pattern) {unit})
      fun v => ∀ f ∈ parts, HoldsWhen G false f v := by
  have added : List.Forall₂ (fun P p => Represents G (Selection.join rs).vars (p.source G) P)
      ((arranged parts).map (HoldsWhen G false)) (rs.map Selection.pattern) := by
    rw [List.forall₂_map_left_iff, List.forall₂_map_right_iff]
    refine (Sql.forall₂_imp_mem each.flip fun r hr f both => ?_).flip
    have inside := both.2.adds.congr fun v => (holdsWhen_iff both.1).symm
    exact inside.widen apart fun x hx => mem_vars_join.2 ⟨r, hr, hx⟩
  refine (represents_sources added apart (represents_unit _)).congr fun v => ?_
  rw [true_and, List.forall_mem_map]
  exact forall_congr' fun f => imp_congr_left mem_arranged

theorem passes_iff {μ : Solution D} {v : Valuation D}
    (carries : Carries G (Formula.junction .and parts).selectable μ v) :
    (∀ r ∈ rs, r.pattern.Passes G μ) ↔ ∀ f ∈ parts, HoldsWhen G true f v := by
  constructor
  · intro passed f hf
    rcases forall₂_exists_left each.flip (mem_arranged.2 hf) with ⟨r, hr, compiled, inside⟩
    exact (holdsWhen_iff compiled).2 ((inside.tests μ v carries).1 (passed r hr))
  · intro holds r hr
    rcases forall₂_exists_left each hr with ⟨f, hf, compiled, inside⟩
    exact (inside.tests μ v carries).2 ((holdsWhen_iff compiled).1 (holds f (mem_arranged.1 hf)))

/-- A conjunction has the solutions that its parts add and that pass all tests. -/
theorem represents_and (flat : ∀ f ∈ parts, f.connective? ≠ some .and)
    (apart : Apart (Selection.join rs).vars) :
    Represents G (Selection.join rs).vars ((Selection.join rs).pattern.solutions G)
      fun v => (Formula.junction .and parts).HoldsIn G v := by
  have compiled := each.imp fun f r both => both.1
  have added := represents_added each apart
  have known : ∀ x : Ident, x ∈ (Formula.junction .and parts).selectable →
      x ∈ (Selection.join rs).vars :=
    mem_vars_of_selectable (pattern_and_eq_ok_iff.2 ⟨rs, compiled, rfl⟩)
  rw [solutions_conjunction compiled flat]
  refine (added.filter (Q := fun v => ∀ f ∈ parts, HoldsWhen G true f v) ?_).congr fun v => ?_
  · intro μ hμ v fits
    -- the tests see what all parts have added, wherever they stand
    refine passes_iff each ⟨fun x hx => ?_, fun d => (added.within μ hμ).constant apart⟩
    rcases sources_select each hx μ hμ with ⟨d, value⟩
    rw [value, fits x (known x hx) d value]
  · rw [holdsIn_and]
    constructor
    · rintro ⟨untested, tested⟩ f hf
      rcases forall₂_exists_left each.flip (mem_arranged.2 hf) with ⟨r, -, compiled, -⟩
      cases kind : r.pattern.isTest with
      | false => exact untested f hf r compiled kind
      | true => exact tested f hf r compiled kind
    · intro holds
      exact ⟨fun f hf _ _ _ => holds f hf, fun f hf _ _ _ => holds f hf⟩

theorem serves_and (flat : ∀ f ∈ parts, f.connective? ≠ some .and)
    (apart : Apart (Selection.join rs).vars) :
    Serves G known (.junction .and parts) (Selection.join rs) := by
  have adds : (Selection.join rs).pattern.isTest = false := by cases rs <;> rfl
  have solutions : (Selection.join rs).pattern.solutions G = _ :=
    solutions_conjunction (each.imp fun f r both => both.1) flat
  refine serves_of_represents adds (represents_and each flat apart) ?_ ?_
  · intro x hx μ hμ
    rw [solutions] at hμ
    exact sources_select each hx μ hμ.1
  · intro listed binds μ hμ
    rw [solutions] at hμ
    rcases Formula.binds_and.1 binds with ⟨f, hf, binds⟩
    rcases forall₂_exists_left each.flip (mem_arranged.2 hf) with ⟨r, hr, -, inside⟩
    rcases inside.links listed binds with never | linked
    · exact absurd (hμ.2 r hr) (never μ)
    · rcases gives_sources (.inr ⟨r.pattern, List.mem_map_of_mem hr, linked⟩) μ hμ.1 with
        ⟨x, ⟨hx, bound⟩, value⟩
      exact ⟨x, ⟨hx, mem_vars_join.2 ⟨r, hr, bound⟩⟩, value⟩

end Conjunction

/-! ## All formulas -/

theorem apart_vars (compiled : pattern f = .ok s) (named : f.namedAt = true) : Apart s.vars :=
  (Formula.apart_of_namedAt named).mono (mem_free_of_vars compiled)

/-- The pattern of a grounded formula adds its solutions to a group, or tests for them. -/
theorem pattern_serves (compiled : pattern f = .ok s) :
    (∀ h ∈ f.nodes, h.FlatAt ∧ h.namedAt = true ∧ h.linkedAt = true) →
      ∀ known, f.grounded known = true → Serves G known f s := by
  refine pattern_induction (motive := fun f s =>
    (∀ h ∈ f.nodes, h.FlatAt ∧ h.namedAt = true ∧ h.linkedAt = true) →
      ∀ known, f.grounded known = true → Serves G known f s)
    ?truth ?falsity ?comparison ?instanceOf ?property ?and ?or ?neg ?exist compiled
  case truth => exact fun _ _ _ => serves_truth
  case falsity => exact fun _ _ _ => serves_falsity
  case comparison => exact fun c _ _ grounded => serves_comparison grounded
  case instanceOf =>
    intro a t terms clear _ _
    exact serves_instanceOf terms (Formula.apart_of_namedAt (Formula.forall_nodes_atom.1 clear).2.1)
  case property =>
    intro a t u terms clear _ _
    exact serves_property terms (Formula.apart_of_namedAt (Formula.forall_nodes_atom.1 clear).2.1)
  case and =>
    intro parts rs each clear known grounded
    rcases Formula.forall_nodes_junction.1 clear with ⟨⟨flat, named, -⟩, below⟩
    have whole : pattern (.junction .and parts) = .ok _ :=
      pattern_and_eq_ok_iff.2 ⟨rs, each.imp fun f r both => both.1, rfl⟩
    refine serves_and (Sql.forall₂_imp_mem each fun f hf r both => ⟨both.1, ?_⟩) flat.2
      (apart_vars whole named)
    -- a part may use what the whole conjunction selects
    have hf := mem_arranged.1 hf
    exact both.2 (below f hf) _ (Formula.grounded_and.1 grounded f hf)
  case or =>
    intro parts rs each clear known grounded
    rcases Formula.forall_nodes_junction.1 clear with ⟨⟨-, named, -⟩, below⟩
    have whole : pattern (.junction .or parts) = .ok _ :=
      pattern_or_eq_ok_iff.2 ⟨rs, each.imp fun f r both => both.1, rfl⟩
    refine serves_or (Sql.forall₂_imp_mem each fun f hf r both => ?_) (apart_vars whole named)
    exact both.2 (below f hf) _ (Formula.grounded_or.1 grounded f hf)
  case neg =>
    intro body r compiled inside clear known grounded
    rcases Formula.forall_nodes_neg.1 clear with ⟨⟨-, named, linked⟩, below⟩
    rcases Formula.grounded_neg.1 grounded with ⟨free, grounded⟩
    -- the group that is removed sees nothing of the group around it
    exact serves_neg compiled (inside below ∅ grounded) (Formula.apart_of_namedAt named) linked free
  case exist =>
    intro vars body r compiled inside clear known grounded
    have below := (Formula.forall_nodes_quant.1 clear).2
    have named := (below body body.self_mem_nodes).2.1
    exact serves_exist compiled (inside below ∅ grounded) (Formula.apart_of_namedAt named)

/-! ## Queries -/

theorem project_congr {μ ν : Solution D} (same : ∀ x : Ident, x ∈ vars → μ x.name = ν x.name) :
    μ.project G vars = ν.project G vars := by
  have restricted : μ.restrict vars = ν.restrict vars := by
    funext name
    unfold restrict
    split
    · rename_i listed
      rcases mem_names.1 listed with ⟨x, hx, rfl⟩
      exact same x hx
    · rfl
  unfold project
  rw [restricted]

theorem project_eq_of_idents {vars vars' : VarSet} (same : vars.idents = vars'.idents)
    (μ : Solution D) : μ.project G vars = μ.project G vars' := by
  unfold project restrict VarSet.names
  rw [VarSet.isEmpty_eq same, same]

/-- The answers of a query for a formula all of whose free variables are selectable are the values
of its free variables where it holds. -/
theorem mem_answers_iff (compiled : pattern f = .ok s) (serves : Serves G ∅ f s)
    (apart : Apart f.free) (grounded : f.grounded ∅ = true)
    (safe : ∀ x : Ident, x ∈ f.free → x ∈ f.selectable) {μ : Solution D} :
    μ ∈ answers G s.vars s.pattern ↔
      ∃ v, f.HoldsIn G v ∧ μ = (ofValuation f.free v).project G f.free := by
  have represents := serves.represents (apart.mono (mem_free_of_vars compiled))
  have bound : ∀ ν ∈ s.pattern.solutions G, ∀ x : Ident, x ∈ f.free → ∃ d, ν x.name = some d := by
    intro ν hν x hx
    rw [Pattern.solutions_eq] at hν
    exact serves.selects x (safe x hx) ν hν.1
  -- a valuation that fits a solution has the same projection
  have same : ∀ ν ∈ s.pattern.solutions G, ∀ v, Fits s.vars ν v →
      ν.project G s.vars = (ofValuation f.free v).project G f.free := by
    intro ν hν v fits
    rw [project_eq_of_idents (vars_of_grounded compiled grounded)]
    refine project_congr fun x hx => ?_
    rcases bound ν hν x hx with ⟨d, value⟩
    have selected := mem_vars_of_selectable compiled x (safe x hx)
    rw [ofValuation_name apart hx, value, fits x selected d value]
  constructor
  · rintro ⟨ν, hν, rfl⟩
    -- variables without value may take any, since the formula holds wherever a valuation fits
    have fits : Fits s.vars ν fun x => (ν x.name).getD G.one := by
      intro x _ d value
      simp [value]
    exact ⟨_, (represents.holds_iff _).2 ⟨ν, hν, fits⟩, same ν hν _ fits⟩
  · rintro ⟨v, holds, rfl⟩
    rcases (represents.holds_iff v).1 holds with ⟨ν, hν, fits⟩
    exact ⟨ν, hν, (same ν hν v fits).symm⟩

/-- There is a query for every answerable formula. If names tell the free variables apart and every
negated part has a value for one of its free variables in each of its solutions, the answers on any
graph are the values of the free variables where the formula holds. The query is legal unless a
sub-query without variables is in sight of another one. -/
theorem compile_answers (f : Formula) (answerable : f.prepared.Answerable)
    (named : ∀ h ∈ f.prepared.nodes, h.namedAt = true)
    (linked : ∀ h ∈ f.prepared.nodes, h.linkedAt = true) :
    ∃ s, select f = .ok s ∧ compileText f = .ok (queryText s.vars s.pattern) ∧
      ((Pattern.select s.vars s.pattern).legal = true ↔
        (∀ h ∈ f.prepared.nodes, h.legalAt = true) ∧
          (f.prepared.free.isEmpty = true → f.prepared.probes = false)) ∧
      ∀ {D : Type u} (G : Graph D) (μ : Solution D), μ ∈ answers G s.vars s.pattern ↔
        ∃ v, f.prepared.HoldsIn G v ∧
          μ = (ofValuation f.prepared.free v).project G f.prepared.free := by
  rcases answerable with ⟨arities, safe, grounded⟩
  rcases exists_pattern_iff.2 ⟨f.existential_prepared, arities⟩ with ⟨s, compiled⟩
  have selected : select f = .ok s := compiled
  refine ⟨s, selected, ?text, ?legal, ?answers⟩
  case text =>
    rw [compileText, selected]
    rfl
  case legal =>
    have shows := pattern_shows compiled named ∅ grounded
    have empty := VarSet.isEmpty_eq (vars_of_grounded compiled grounded)
    rw [Pattern.legal, Bool.and_eq_true, shows.legal_iff, empty, shows.contains_eq, and_comm]
    refine and_congr_right fun _ => ?_
    cases f.prepared.free.isEmpty <;> simp
  case answers =>
    intro D G μ
    have clear : ∀ h ∈ f.prepared.nodes, h.FlatAt ∧ h.namedAt = true ∧ h.linkedAt = true :=
      fun h hh => ⟨f.flat_prepared h hh, named h hh, linked h hh⟩
    have apart := Formula.apart_of_namedAt (named _ f.prepared.self_mem_nodes)
    exact mem_answers_iff compiled (pattern_serves compiled clear ∅ grounded) apart grounded safe

/-- `(A(x) ∨ ∃ z R(z, x)) ∧ x ≠ c ∧ ∀ y ¬ (R(x, y) ∧ ¬ B(y))` -/
def restrained : Formula :=
  .junction .and [
    .junction .or [
      .predicate ⟨"A", [.var ⟨⟨"x", none⟩, .undefined⟩], .undefined⟩,
      .quant .exist (VarSet.ofList [⟨⟨"z", none⟩, .undefined⟩])
        (.predicate
          ⟨"R", [.var ⟨⟨"z", none⟩, .undefined⟩, .var ⟨⟨"x", none⟩, .undefined⟩], .undefined⟩)],
    .atom (.comparison ⟨.different, .var ⟨⟨"x", none⟩, .undefined⟩, .const (.object "c")⟩),
    .quant .forAll (VarSet.ofList [⟨⟨"y", none⟩, .undefined⟩])
      (.neg (.junction .and [
        .predicate
          ⟨"R", [.var ⟨⟨"x", none⟩, .undefined⟩, .var ⟨⟨"y", none⟩, .undefined⟩], .undefined⟩,
        .neg (.predicate ⟨"B", [.var ⟨⟨"y", none⟩, .undefined⟩], .undefined⟩)]))]

theorem restrained_answers :
    restrained.prepared.Answerable ∧
    ∃ s, select restrained = .ok s ∧ s.vars.idents = [⟨"x", none⟩] ∧
      (Pattern.select s.vars s.pattern).legal = true ∧
      ∀ (D : Type) (G : Graph D) (μ : Solution D), μ ∈ answers G s.vars s.pattern ↔
        ∃ v, restrained.prepared.HoldsIn G v ∧
          μ = (ofValuation restrained.prepared.free v).project G restrained.prepared.free := by
  have answerable : restrained.prepared.Answerable :=
    Formula.answerable_of_checks (by decide) (by decide) (by decide)
  have named : restrained.prepared.nodes.all Formula.namedAt = true := by decide
  have linked : restrained.prepared.nodes.all Formula.linkedAt = true := by decide
  have legalAt : restrained.prepared.nodes.all Formula.legalAt = true := by decide
  rcases compile_answers restrained answerable (List.all_eq_true.1 named)
    (List.all_eq_true.1 linked) with ⟨s, selected, -, legal, answers⟩
  refine ⟨answerable, s, selected, ?_, legal.2 ⟨List.all_eq_true.1 legalAt, nofun⟩,
    fun D G μ => answers G μ⟩
  cases selected
  rfl

/-! ## Queries with other answers -/

/-- `A(x) ∧ ¬ ∃ y B(y)` -/
def closedRemoval : Formula :=
  .junction .and [
    .predicate ⟨"A", [.var ⟨⟨"x", none⟩, .undefined⟩], .undefined⟩,
    .neg (.quant .exist (VarSet.ofList [⟨⟨"y", none⟩, .undefined⟩])
      (.predicate ⟨"B", [.var ⟨⟨"y", none⟩, .undefined⟩], .undefined⟩))]

/-- `A(dummy) ∧ ∃ y B(y)` -/
def constantName : Formula :=
  .junction .and [
    .predicate ⟨"A", [.var ⟨⟨"dummy", none⟩, .undefined⟩], .undefined⟩,
    .quant .exist (VarSet.ofList [⟨⟨"y", none⟩, .undefined⟩])
      (.predicate ⟨"B", [.var ⟨⟨"y", none⟩, .undefined⟩], .undefined⟩)]

/-- `R(x, x')`, where the variables have the same name in different scopes -/
def sameName : Formula :=
  .predicate
    ⟨"R", [.var ⟨⟨"x", some 0⟩, .undefined⟩, .var ⟨⟨"x", some 1⟩, .undefined⟩], .undefined⟩

/-- One node, with all triples. -/
def oneNode : Graph Unit where
  triple _ _ _ := True
  type := ()
  object _ := ()
  data _ _ := ()
  equal _ _ := some true

/-- Two nodes, with all triples from the first one to the second one. -/
def twoNodes : Graph Bool where
  triple d _ e := d = false ∧ e = true
  type := true
  object _ := true
  data _ _ := true
  equal d e := some (d == e)

/-- A removal without variables leaves solutions that are no answers, a variable with the name of
the constant is joined with it, and so are variables of the same name with each other. -/
theorem unlinked_answers :
    (closedRemoval.prepared.Answerable ∧ (∀ h ∈ closedRemoval.prepared.nodes, h.namedAt = true) ∧
      ∃ s, select closedRemoval = .ok s ∧ (Pattern.select s.vars s.pattern).legal = true ∧
        ∃ μ ∈ answers oneNode s.vars s.pattern,
          ∀ v, ¬ closedRemoval.prepared.HoldsIn oneNode v) ∧
    (constantName.prepared.Answerable ∧ (∀ h ∈ constantName.prepared.nodes, h.linkedAt = true) ∧
      ∃ s, select constantName = .ok s ∧ answers twoNodes s.vars s.pattern = ∅ ∧
        ∃ v, constantName.prepared.HoldsIn twoNodes v) ∧
    (sameName.prepared.Answerable ∧ (∀ h ∈ sameName.prepared.nodes, h.linkedAt = true) ∧
      ∃ s, select sameName = .ok s ∧ answers twoNodes s.vars s.pattern = ∅ ∧
        ∃ v, sameName.prepared.HoldsIn twoNodes v) := by
  refine ⟨?removal, ?constant, ?names⟩
  case removal =>
    refine ⟨Formula.answerable_of_checks (by decide) (by decide) (by decide),
      List.all_eq_true.1 (by decide), _, rfl, by decide, ?_⟩
    have solution : (fun name => if name = "x" then some () else none) ∈
        matching oneNode [.var ⟨⟨"x", none⟩, .undefined⟩] fun denotes =>
          oneNode.Instance denotes (.var ⟨⟨"x", none⟩, .undefined⟩) "A" := by
      refine ⟨fun name => ?_, (), .inr rfl, trivial⟩
      simp [Formula.namedVariables, variablesOf, Term.var?, Variable.isBlank, Variable.blankName,
        eq_comm]
    refine ⟨_, ⟨_, ⟨⟨⟨unit, rfl, _, solution, compatible_unit_left _, rfl⟩, ?_⟩, trivial, trivial,
      trivial⟩, rfl⟩, ?_⟩
    · -- what is removed has a value for the constant only
      rintro _ ⟨⟨_, rfl, _, ⟨ν, -, rfl⟩, -, rfl⟩, -⟩ ⟨-, name, d, e, here, there⟩
      by_cases same : name = "x"
      · subst same
        cases there
      · simp [merge, unit, same] at here
    · rintro v ⟨-, none, -⟩
      exact none ⟨v, fun x hx => rfl, (), .inr rfl, trivial⟩
  case constant =>
    refine ⟨Formula.answerable_of_checks (by decide) (by decide) (by decide),
      List.all_eq_true.1 (by decide), _, rfl, Set.eq_empty_iff_forall_notMem.2 ?_,
      fun _ => false, ?_⟩
    · rintro _ ⟨_, ⟨⟨_, ⟨_, rfl, ξ, ⟨-, d, value, triple⟩, -, rfl⟩, _, ⟨_, -, rfl⟩, compatible,
        rfl⟩, -⟩, rfl⟩
      have value : ξ "dummy" = some d := value.resolve_left (by decide)
      -- the constant is the second node, but only the first one is an instance
      have same : d = true := compatible "dummy" d true value rfl
      rw [triple.1] at same
      cases same
    · exact ⟨⟨false, .inr rfl, rfl, rfl⟩,
        ⟨fun _ => false, fun _ _ => rfl, false, .inr rfl, rfl, rfl⟩, trivial⟩
  case names =>
    refine ⟨Formula.answerable_of_checks (by decide) (by decide) (by decide),
      List.all_eq_true.1 (by decide), _, rfl, Set.eq_empty_iff_forall_notMem.2 ?_,
      fun x => x.scope == some 1, ?_⟩
    · rintro _ ⟨_, ⟨⟨_, rfl, ξ, ⟨-, d, e, first, second, triple⟩, -, rfl⟩, -⟩, rfl⟩
      have first : ξ "x" = some d := first.resolve_left (by decide)
      have second : ξ "x" = some e := second.resolve_left (by decide)
      rw [first, triple.1, triple.2] at second
      cases second
    · exact ⟨false, true, .inr rfl, .inr rfl, rfl, rfl⟩

end Sparql
end QueryCalculus
