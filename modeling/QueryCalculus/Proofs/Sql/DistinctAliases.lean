import QueryCalculus.Proofs.Sql.Aliases

/-!
# The aliases of compiled statements

- `Placed` : the aliases in a compiled part are different and belong to positions inside of it
- `formula_placed` : every compiled part is of this kind
- `compile_counted` : compiled statements are numbered without gaps

At the end it is said when all aliases of a compiled statement have different texts.
-/

namespace QueryCalculus
namespace Sql

/-! ## Positions -/

section Positions

variable {ctx : Context} {t : Task}

theorem aliases_select {outermost : Bool} {columns : List Column}
    {sources conditions : List (Expr Position)} :
    (ctx.select outermost columns sources conditions).aliases =
      aliasesAll (sources ++ conditions) := by
  unfold Context.select
  split <;> exact (aliasesAll_append _ _).symm

theorem mentions_select {outermost : Bool} {columns : List Column}
    {sources conditions : List (Expr Position)} :
    (ctx.select outermost columns sources conditions).mentions =
      (sources ++ conditions).flatMap Expr.mentions := by
  unfold Context.select
  split <;> simp [Expr.mentions, mentionsAll_eq_flatMap]

theorem aliases_conditionOr {outermost : Bool} {c : Expr Position} :
    (ctx.conditionOr outermost c).aliases = c.aliases := by
  unfold Context.conditionOr
  split
  · rw [aliases_select]
    simp [aliasesAll]
  · rfl

theorem mentions_conditionOr {outermost : Bool} {c : Expr Position} :
    (ctx.conditionOr outermost c).mentions = c.mentions := by
  unfold Context.conditionOr
  split
  · rw [mentions_select]
    simp
  · rfl

theorem aliases_amongConditions {several : Bool} {f : Formula} {c : Expr Position} :
    (amongConditions several f c).aliases = c.aliases := by
  unfold amongConditions
  split
  · simp [Expr.aliases, aliasesAll]
  · rfl

theorem mentions_amongConditions {several : Bool} {f : Formula} {c : Expr Position} :
    (amongConditions several f c).mentions = c.mentions := by
  unfold amongConditions
  split
  · simp [Expr.mentions, mentionsAll]
  · rfl

theorem aliasesAll_grouped {conditions : List (Expr Position)} :
    aliasesAll (grouped conditions) = aliasesAll conditions := by
  cases conditions with
  | nil => rfl
  | cons c cs => simp [grouped, aliasesAll, Expr.aliases]

theorem mentions_grouped {conditions : List (Expr Position)} :
    (grouped conditions).flatMap Expr.mentions = conditions.flatMap Expr.mentions := by
  cases conditions with
  | nil => rfl
  | cons c cs => simp [grouped, Expr.mentions, mentionsAll_eq_flatMap]

/-- Parts at different places have no position in common. -/
theorem eq_of_suffix {position key : Position} {n m : Nat} (hn : (n :: position) <:+ key)
    (hm : (m :: position) <:+ key) : n = m := by
  have inside : (n :: position) <:+ (m :: position) :=
    List.suffix_of_suffix_length_le hn hm (by simp)
  by_contra apart
  exact Task.not_suffix_sibling apart inside

theorem not_suffix_self {position : Position} {n : Nat} : ¬ (n :: position) <:+ position := by
  intro longer
  have lengths := longer.length_le
  rw [List.length_cons] at lengths
  omega

/-- The part at a place of a junction has different aliases, all of them inside of it. -/
def PlacedAt (position : Position) (n : Nat) (e : Expr Position) : Prop :=
  e.aliases.Nodup ∧ ∀ a ∈ e.aliases, (n :: position) <:+ a.key

/-- The aliases of parts at different places differ. -/
theorem nodup_aliasesAll {position : Position} {entries : List (Formula × Nat)}
    {es : List (Expr Position)} (apart : entries.Pairwise fun a b => a.2 ≠ b.2)
    (each : List.Forall₂ (fun entry e => PlacedAt position entry.2 e) entries es) :
    (aliasesAll es).Nodup ∧
      ∀ a ∈ aliasesAll es, ∃ entry ∈ entries, (entry.2 :: position) <:+ a.key := by
  induction each with
  | nil => simp [aliasesAll]
  | @cons entry e entries es head tail ih =>
    rcases List.pairwise_cons.1 apart with ⟨others, rest⟩
    rcases ih rest with ⟨nodup, placed⟩
    constructor
    · refine List.nodup_append.2 ⟨head.1, nodup, ?_⟩
      -- the key of an alias ends with the place of the part that it is from
      rintro a ha b hb rfl
      rcases placed a hb with ⟨other, hother, inside⟩
      exact others other hother (eq_of_suffix (head.2 a ha) inside)
    · intro a ha
      rcases List.mem_append.1 ha with here | there
      · exact ⟨entry, List.mem_cons_self, head.2 a here⟩
      · rcases placed a there with ⟨other, hother, inside⟩
        exact ⟨other, List.mem_cons_of_mem entry hother, inside⟩

/-- The aliases of a compiled part are different. They belong to positions inside of the part, and
only an outermost part is itself a sub-query. References are to sub-queries of the part or to
queries beside it. -/
structure Placed (t : Task) (e : Expr Position) : Prop where
  nodup : e.aliases.Nodup
  inside : ∀ a ∈ e.aliases, t.position <:+ a.key
  own : .query t.position ∈ e.aliases → t.outermost = true
  mentioned : ∀ key ∈ e.mentions, .query key ∈ e.aliases ∨ ∃ entry ∈ t.providers, entry.2 = key

/-- What is built from parts at different places and mentions only their sub-queries. -/
theorem placed_of_parts {entries : List (Formula × Nat)} {es : List (Expr Position)}
    {e : Expr Position} (apart : entries.Pairwise fun a b => a.2 ≠ b.2)
    (each : List.Forall₂ (fun entry e => PlacedAt t.position entry.2 e) entries es)
    (aliases : e.aliases = aliasesAll es)
    (mentioned : ∀ key ∈ e.mentions, .query key ∈ aliasesAll es ∨
      ∃ entry ∈ t.providers, entry.2 = key) : Placed t e := by
  rcases nodup_aliasesAll apart each with ⟨nodup, placed⟩
  constructor
  case nodup => exact aliases ▸ nodup
  case inside =>
    intro a ha
    rcases placed a (aliases ▸ ha) with ⟨entry, -, below⟩
    exact (List.suffix_cons _ _).trans below
  case own =>
    intro ha
    rcases placed _ (aliases ▸ ha) with ⟨entry, -, below⟩
    exact absurd below not_suffix_self
  case mentioned => exact aliases ▸ mentioned

/-- The only part below a part. -/
theorem Placed.of_below {t' : Task} {e : Expr Position} {n : Nat} (h : Placed t' e)
    (position : t'.position = n :: t.position)
    (providers : ∀ entry ∈ t'.providers, entry ∈ t.providers) : Placed t e := by
  have below : ∀ a ∈ e.aliases, (n :: t.position) <:+ a.key := position ▸ h.inside
  constructor
  case nodup => exact h.nodup
  case inside => exact fun a ha => (List.suffix_cons n t.position).trans (below a ha)
  case own => exact fun ha => absurd (below _ ha) not_suffix_self
  case mentioned =>
    intro key hkey
    rcases h.mentioned key hkey with here | ⟨entry, hentry, same⟩
    · exact .inl here
    · exact .inr ⟨entry, providers entry hentry, same⟩

theorem Placed.of_eq {e e' : Expr Position} (h : Placed t e') (aliases : e.aliases = e'.aliases)
    (mentions : e.mentions = e'.mentions) : Placed t e := by
  constructor
  case nodup => exact aliases ▸ h.nodup
  case inside => exact aliases ▸ h.inside
  case own => exact aliases ▸ h.own
  case mentioned =>
    rw [aliases, mentions]
    exact h.mentioned

theorem Placed.conditionOr {c : Expr Position} (h : Placed t c) :
    Placed t (ctx.conditionOr t.outermost c) :=
  h.of_eq aliases_conditionOr mentions_conditionOr

theorem placed_leaf {c : Expr Position} (aliases : c.aliases = [])
    (mentioned : ∀ key ∈ c.mentions, ∃ entry ∈ t.providers, entry.2 = key) : Placed t c :=
  have none : List.Forall₂ (fun entry e => PlacedAt t.position entry.2 e)
      ([] : List (Formula × Nat)) [] := .nil
  placed_of_parts .nil none aliases fun key hkey => .inr (mentioned key hkey)

theorem mentions_operand {providers : Providers} {term : Term} :
    ∀ key ∈ (operand providers term).mentions, ∃ entry ∈ providers, entry.2 = key := by
  intro key hkey
  unfold operand at hkey
  split at hkey
  · split at hkey
    · rename_i found
      rcases Providers.mem_of_find? found with ⟨y, hy, -⟩
      exact ⟨_, hy, (List.mem_singleton.1 hkey).symm⟩
    · cases hkey
  · cases hkey

theorem placed_comparison {c : Comparison} : Placed t (comparison t.providers c) := by
  refine placed_leaf rfl ?_
  intro key hkey
  rcases List.mem_append.1 hkey with left | right
  · exact mentions_operand key left
  · exact mentions_operand key right

/-- The conditions of an atom introduce no aliases and refer to queries beside it. -/
theorem scan_conditions_placed {pairs : List (Term × String)} :
    ∀ c ∈ (ctx.scan t [] pairs).conditions, c.aliases = [] ∧
      ∀ key ∈ c.mentions, ∃ entry ∈ t.providers, entry.2 = key := by
  -- constants and columns of the table itself mention no query
  have plain : ∀ (column : String) (value : Operand Position), value.mentions = [] →
      (Expr.equate column value).aliases = [] ∧
        ∀ key ∈ (Expr.equate column value).mentions, ∃ entry ∈ t.providers, entry.2 = key := by
    intro column value none
    refine ⟨rfl, fun key hkey => ?_⟩
    rw [Expr.mentions, none] at hkey
    cases hkey
  rw [Context.forall_scan_conditions_iff (by simp) fun x column h => plain column _ rfl]
  refine ⟨fun c column h => plain column _ rfl,
    fun x column h named o ho same => plain column _ rfl, ?_⟩
  intro o ho c hc
  unfold Task.provided at hc
  split at hc
  · rename_i found
    split at hc
    · cases hc
    · rw [List.mem_singleton.1 hc]
      refine ⟨rfl, fun key hkey => ?_⟩
      rcases Providers.mem_of_find? found with ⟨y, hy, -⟩
      exact ⟨_, hy, (List.mem_singleton.1 hkey).symm⟩
  · cases hc

theorem placed_scan {columns : List Column} {name : String} {pairs : List (Term × String)} :
    Placed t (ctx.select t.outermost columns [.table name t.position]
      (ctx.scan t [] pairs).conditions) := by
  have conditions : ∀ c ∈ (ctx.scan t [] pairs).conditions, c.aliases = [] ∧
      ∀ key ∈ c.mentions, ∃ entry ∈ t.providers, entry.2 = key := scan_conditions_placed
  have aliases : aliasesAll ([.table name t.position] ++ (ctx.scan t [] pairs).conditions) =
      [.table name t.position] := by
    have none : (ctx.scan t [] pairs).conditions.flatMap Expr.aliases = [] :=
      List.flatMap_eq_nil_iff.2 fun c hc => (conditions c hc).1
    rw [aliasesAll_eq_flatMap, List.flatMap_append, none]
    rfl
  constructor
  case nodup =>
    rw [aliases_select, aliases]
    exact List.nodup_singleton _
  case inside =>
    rw [aliases_select, aliases]
    exact List.forall_mem_singleton.2 (List.suffix_refl _)
  case own =>
    rw [aliases_select, aliases]
    intro h
    cases List.mem_singleton.1 h
  case mentioned =>
    intro key hkey
    rw [mentions_select] at hkey
    rcases List.mem_flatMap.1 hkey with ⟨c, hc, hkey⟩
    rcases List.mem_append.1 hc with source | condition
    · rw [List.mem_singleton.1 source] at hkey
      cases hkey
    · exact .inr ((conditions c condition).2 key hkey)

/-! ### Conjunctions -/

section Conjunctions

variable {parts : List Formula} {queries conditions : List (Expr Position)}

theorem forall₂_zipWith {α β γ : Type} {R : α → γ → Prop} {g : α → β → γ} {as : List α}
    {bs : List β} (h : List.Forall₂ (fun a b => R a (g a b)) as bs) :
    List.Forall₂ R as (List.zipWith g as bs) := by
  induction h with
  | nil => exact .nil
  | cons head tail ih => exact .cons head ih

theorem placedAt_sources
    (joined : List.Forall₂ (fun entry q => Placed (t.join (t.wanted parts) entry.1 entry.2) q)
      (t.joined parts) queries) :
    List.Forall₂ (fun entry e => PlacedAt t.position entry.2 e) (t.joined parts)
      (t.sources (t.joined parts) queries) := by
  refine forall₂_zipWith (joined.imp fun entry q h => ⟨?_, ?_⟩)
  · refine List.nodup_append.2 ⟨h.nodup, List.nodup_singleton _, ?_⟩
    rintro a ha b hb rfl
    -- the joined query is not outermost, so its own alias is only given here
    rw [List.mem_singleton.1 hb] at ha
    cases h.own ha
  · intro a ha
    rcases List.mem_append.1 ha with inside | here
    · exact h.inside a inside
    · rw [List.mem_singleton.1 here]
      exact List.suffix_refl _

theorem placedAt_guarded {providers : Providers}
    (filtered : List.Forall₂ (fun entry c => Placed (t.condition providers entry.2) c)
      (t.conditional parts) conditions) :
    List.Forall₂ (fun entry e => PlacedAt t.position entry.2 e) (t.conditional parts)
      (guarded (t.several parts) (t.conditional parts) conditions) := by
  refine forall₂_zipWith (filtered.imp fun entry c h => ?_)
  rw [PlacedAt, aliases_amongConditions]
  exact ⟨h.nodup, h.inside⟩

theorem pairwise_joined : (t.joined parts).Pairwise fun a b => a.2 ≠ b.2 :=
  pairwise_partsWith.imp Nat.ne_of_lt

theorem pairwise_conditional : (t.conditional parts).Pairwise fun a b => a.2 ≠ b.2 :=
  pairwise_partsWith.imp Nat.ne_of_lt

/-- Every joined part has an alias. -/
theorem mem_aliases_sources {entries : List (Formula × Nat)}
    (lengths : entries.length = queries.length) {entry : Formula × Nat} (h : entry ∈ entries) :
    .query (entry.2 :: t.position) ∈ aliasesAll (t.sources entries queries) := by
  induction entries generalizing queries with
  | nil => cases h
  | cons first entries ih =>
    cases queries with
    | nil => cases lengths
    | cons q queries =>
      have rest : entries.length = queries.length := by simpa using lengths
      rcases List.mem_cons.1 h with rfl | h
      · exact List.mem_append_left _ (List.mem_append_right _ (List.mem_singleton_self _))
      · exact List.mem_append_right _ (ih rest h)

theorem mentioned_sources
    (joined : List.Forall₂ (fun entry q => Placed (t.join (t.wanted parts) entry.1 entry.2) q)
      (t.joined parts) queries) :
    ∀ e ∈ t.sources (t.joined parts) queries, ∀ key ∈ e.mentions,
      .query key ∈ e.aliases ∨ ∃ entry ∈ t.providers, entry.2 = key := by
  have each : List.Forall₂ (fun (entry : Formula × Nat) q => (∀ key ∈ (Expr.derived
      (layoutOf entry.1) q (entry.2 :: t.position)).mentions,
      .query key ∈ (Expr.derived (layoutOf entry.1) q (entry.2 :: t.position)).aliases ∨
        ∃ entry ∈ t.providers, entry.2 = key) ↔ True) (t.joined parts) queries := by
    refine joined.imp fun entry q h => iff_true_intro fun key hkey => ?_
    rcases List.mem_append.1 hkey with inside | here
    · exact (h.mentioned key inside).imp_left (List.mem_append_left _)
    · rw [List.mem_singleton.1 here]
      exact .inl (List.mem_append_right _ (List.mem_singleton_self _))
  exact (forall_mem_zipWith_iff each).2 fun _ _ => trivial

/-- Conditions refer to joined parts as well. -/
theorem mentioned_guarded {providers : Providers}
    (filtered : List.Forall₂ (fun entry c => Placed (t.condition providers entry.2) c)
      (t.conditional parts) conditions) :
    ∀ e ∈ guarded (t.several parts) (t.conditional parts) conditions, ∀ key ∈ e.mentions,
      .query key ∈ e.aliases ∨ ∃ entry ∈ providers, entry.2 = key := by
  have each : List.Forall₂ (fun (entry : Formula × Nat) c =>
      (∀ key ∈ (amongConditions (t.several parts) entry.1 c).mentions,
        .query key ∈ (amongConditions (t.several parts) entry.1 c).aliases ∨
          ∃ entry ∈ providers, entry.2 = key) ↔ True) (t.conditional parts) conditions := by
    refine filtered.imp fun entry c h => iff_true_intro ?_
    rw [aliases_amongConditions, mentions_amongConditions]
    exact h.mentioned
  exact (forall_mem_zipWith_iff each).2 fun _ _ => trivial

theorem mem_aliasesAll {κ : Type} {a : Alias κ} {e : Expr κ} {es : List (Expr κ)} (he : e ∈ es)
    (ha : a ∈ e.aliases) : a ∈ aliasesAll es := by
  rw [aliasesAll_eq_flatMap]
  exact List.mem_flatMap.2 ⟨e, he, ha⟩

theorem placed_join {columns : List Column}
    (joined : List.Forall₂ (fun entry q => Placed (t.join (t.wanted parts) entry.1 entry.2) q)
      (t.joined parts) queries)
    (filtered : List.Forall₂ (fun entry c => Placed (t.condition (t.inner parts) entry.2) c)
      (t.conditional parts) conditions) :
    Placed t (ctx.select t.outermost columns (t.sources (t.joined parts) queries)
      (grouped (guarded (t.several parts) (t.conditional parts) conditions))) := by
  have apart : (t.joined parts ++ t.conditional parts).Pairwise fun a b => a.2 ≠ b.2 :=
    List.pairwise_append.2 ⟨pairwise_joined, pairwise_conditional,
      fun a ha b hb => (Task.place_ne hb ha).symm⟩
  refine placed_of_parts apart
    (List.rel_append (placedAt_sources joined) (placedAt_guarded filtered)) ?aliases ?mentioned
  case aliases =>
    rw [aliases_select, aliasesAll_append, aliasesAll_append, aliasesAll_grouped]
  case mentioned =>
    intro key hkey
    rw [mentions_select, List.flatMap_append, mentions_grouped] at hkey
    rw [aliasesAll_append]
    rcases List.mem_append.1 hkey with source | condition
    · rcases List.mem_flatMap.1 source with ⟨e, he, hkey⟩
      refine (mentioned_sources joined e he key hkey).imp_left fun ha => ?_
      exact List.mem_append_left _ (mem_aliasesAll he ha)
    · rcases List.mem_flatMap.1 condition with ⟨e, he, hkey⟩
      rcases mentioned_guarded filtered e he key hkey with ha | ⟨entry, hentry, rfl⟩
      · exact .inl (List.mem_append_right _ (mem_aliasesAll he ha))
      · -- it is provided from outside, or by a joined part
        rcases List.mem_append.1 hentry with old | new
        · exact .inr ⟨entry, old, rfl⟩
        · rcases List.mem_flatMap.1 new with ⟨other, hother, hp⟩
          rcases List.mem_map.1 hp with ⟨x, -, rfl⟩
          exact .inl (List.mem_append_left _ (mem_aliases_sources joined.length_eq hother))

theorem placed_filter (unjoined : t.joined parts = [])
    (filtered : List.Forall₂ (fun entry c => Placed (t.condition (t.inner parts) entry.2) c)
      (t.conditional parts) conditions) :
    Placed t (.group (guarded (t.several parts) (t.conditional parts) conditions)) := by
  refine placed_of_parts pairwise_conditional (placedAt_guarded filtered) rfl ?_
  intro key hkey
  rw [Expr.mentions, mentionsAll_eq_flatMap] at hkey
  rcases List.mem_flatMap.1 hkey with ⟨e, he, hkey⟩
  rcases mentioned_guarded filtered e he key hkey with ha | provided
  · exact .inl (mem_aliasesAll he ha)
  · rw [Task.inner, unjoined, List.flatMap_nil, List.append_nil] at provided
    exact .inr provided

end Conjunctions

/-! ### Disjunctions -/

theorem placed_alternatives {parts : List Formula} {es : List (Expr Position)} {e : Expr Position}
    (each : List.Forall₂ (fun entry e => Placed (t.alternative entry.2) e) parts.zipIdx es)
    (aliases : e.aliases = aliasesAll es) (mentions : e.mentions = mentionsAll es) :
    Placed t e := by
  have apart : parts.zipIdx.Pairwise fun a b => a.2 ≠ b.2 := by
    rw [← List.pairwise_map (f := Prod.snd) (R := fun a b => a ≠ b), List.zipIdx_map_snd]
    exact List.nodup_range'
  refine placed_of_parts apart (each.imp fun entry e h => ⟨h.nodup, h.inside⟩) aliases ?_
  intro key hkey
  rw [mentions, mentionsAll_eq_flatMap] at hkey
  rcases List.mem_flatMap.1 hkey with ⟨e, he, hkey⟩
  rcases forall₂_exists_left each he with ⟨entry, -, h⟩
  exact (h.mentioned key hkey).imp_left (mem_aliasesAll he)

/-- The union under an alias is the only sub-query at the position of its formula. -/
theorem placed_disjunction {parts : List Formula} {es : List (Expr Position)}
    (each : List.Forall₂ (fun entry e => Placed (t.alternative entry.2) e) parts.zipIdx es) :
    Placed t (ctx.disjunction t es) := by
  unfold Context.disjunction
  split
  · exact (placed_alternatives each rfl rfl).conditionOr
  · have union : Placed t (.unionAll es) := placed_alternatives each rfl rfl
    split
    · rename_i outermost
      -- the alternatives do not know whether the disjunction is outermost
      have inner : Placed { t with outermost := false } (.unionAll es) :=
        placed_alternatives each rfl rfl
      have aliases : (ctx.select true (t.requested.toList.map (ctx.passedOn true))
          [.derived .block (.unionAll es) t.position] []).aliases =
            (Expr.unionAll es).aliases ++ [.query t.position] := by
        rw [aliases_select]
        simp [aliasesAll, Expr.aliases]
      have mentions : (ctx.select true (t.requested.toList.map (ctx.passedOn true))
          [.derived .block (.unionAll es) t.position] []).mentions =
            (Expr.unionAll es).mentions ++ [t.position] := by
        rw [mentions_select]
        simp [Expr.mentions]
      constructor
      case nodup =>
        rw [aliases]
        refine List.nodup_append.2 ⟨union.nodup, List.nodup_singleton _, ?_⟩
        rintro a ha b hb rfl
        rw [List.mem_singleton.1 hb] at ha
        cases inner.own ha
      case inside =>
        rw [aliases]
        refine List.forall_mem_append.2 ⟨union.inside, ?_⟩
        exact List.forall_mem_singleton.2 (List.suffix_refl _)
      case own => exact fun _ => outermost
      case mentioned =>
        rw [aliases, mentions]
        intro key hkey
        rcases List.mem_append.1 hkey with inside | here
        · exact (union.mentioned key inside).imp_left (List.mem_append_left _)
        · rw [List.mem_singleton.1 here]
          exact .inl (List.mem_append_right _ (List.mem_singleton_self _))
    · exact union

/-! ### Formulas -/

theorem formula_placed {f : Formula} {e : Expr Position} (compiled : ctx.formula t f = .ok e) :
    Placed t e := by
  refine Context.formula_induction (motive := fun t f e => Placed t e) (I := fun _ _ => True)
    (fun _ _ _ _ _ => trivial) ?truth ?comparison ?predicate ?empty ?single ?filter ?join
    ?alternatives ?negComparison ?negNeg ?neg ?exist compiled trivial
  case truth => exact fun t b _ => (placed_leaf rfl (by simp [Expr.mentions])).conditionOr
  case comparison => exact fun t c _ => placed_comparison.conditionOr
  case predicate => exact fun t a table _ _ => placed_scan
  case empty => exact fun t c _ => (placed_leaf rfl (by simp [Expr.mentions])).conditionOr
  case single => exact fun t c part e _ ih => ih.of_below rfl fun _ h => h
  case filter =>
    exact fun t parts conditions _ _ _ unjoined _ ih => (placed_filter unjoined ih).conditionOr
  case join => exact fun t parts queries conditions _ _ _ _ _ ih ih' => placed_join ih ih'
  case alternatives => exact fun t parts es _ _ _ ih => placed_disjunction ih
  case negComparison => exact fun t c _ => placed_comparison.conditionOr
  case negNeg =>
    intro t body e _ ih
    have inner : Placed (t.condition t.providers 0) e := ih.of_below rfl fun _ h => h
    exact Placed.conditionOr (inner.of_below rfl fun _ h => h)
  case neg =>
    intro t body e layout _ _ _ ih
    have inner : Placed t e := ih.of_below rfl fun _ h => h
    exact Placed.conditionOr (inner.of_eq rfl rfl)
  case exist =>
    exact fun t vars body e _ _ ih => ih.of_below rfl fun _ h => (List.mem_filter.1 h).1

end Positions

theorem compile_counted {schema : Schema} {labels : Labels} {distinct : Bool} {f : Formula}
    {e : Expr Nat} (compiled : compile schema labels distinct f = .ok e) : e.Counted := by
  rcases compile_ok compiled with ⟨e', -, inside, rfl⟩
  have placed := formula_placed inside
  refine numbered_counted placed.nodup fun key hkey => ?_
  rcases placed.mentioned key hkey with here | ⟨entry, none, -⟩
  · exact here
  · cases none

/-- The aliases of a compiled statement are different just if no table is used so often, and there
are not so many sub-queries, that a number reaches the name of another table. No reference to a
sub-query is to a table just if this holds for the sub-queries. -/
theorem compile_aliases_iff {schema : Schema} {labels : Labels} {distinct : Bool} {f : Formula}
    {e : Expr Nat} (compiled : compile schema labels distinct f = .ok e) :
    ((e.aliases.map Alias.text).Nodup ↔ e.TablesApart ∧ e.QueriesApart) ∧
      (e.AliasesApart ↔ e.QueriesApart) :=
  have counted := compile_counted compiled
  ⟨counted.nodup_texts_iff, counted.aliasesApart_iff⟩

theorem allSuccessors_aliases :
    ∃ e, compile graphSchema [] false allSuccessors = .ok e ∧ (e.aliases.map Alias.text).Nodup ∧
      e.TablesApart ∧ e.QueriesApart := by
  have compiled : compile graphSchema [] false allSuccessors = .ok _ := rfl
  refine ⟨_, compiled, ?nodup, (compile_aliases_iff compiled).1.1 ?nodup⟩
  case nodup => decide

/-- Tables `A(a)`, `R(from, to)` and `q(y)`. -/
def shadowingSchema : Schema :=
  { tables := [⟨"A", ["a"]⟩, ⟨"R", ["from", "to"]⟩, ⟨"q", ["y"]⟩] }

/-- `A(x) ∧ R(x, y) ∧ ¬ q(y)` -/
def shadowed : Formula :=
  .junction .and [.predicate ⟨"A", [.var ⟨⟨"x", none⟩, .undefined⟩], .undefined⟩,
    .predicate ⟨"R", [.var ⟨⟨"x", none⟩, .undefined⟩, .var ⟨⟨"y", none⟩, .undefined⟩], .undefined⟩,
    .neg (.predicate ⟨"q", [.var ⟨⟨"y", none⟩, .undefined⟩], .undefined⟩)]

/-- The table `q` is used under the alias of the second sub-query, to which its statement refers. -/
theorem shadowed_aliases :
    ∃ e, compile shadowingSchema [] false shadowed = .ok e ∧ ¬ (e.aliases.map Alias.text).Nodup ∧
      ¬ e.AliasesApart :=
  ⟨_, rfl, by decide, by decide⟩

end Sql
end QueryCalculus
