import Mathlib.Data.List.Pairwise
import QueryCalculus.Proofs.Sql.Statements

/-!
# Natural joins of compiled parts

- `Task.scopeOf` : the rows of the joined parts of a conjunction
- `mem_scopes_sources_iff` : the natural join has the rows of the solutions that are alike
- `correct_join` : the statement of a conjunction with joined parts is correct
-/

namespace QueryCalculus
namespace Sql

/-! ## Joined parts -/

/-- One choice for each element of a list gives a function on the keys of the elements. -/
theorem exists_choice {α β γ ω : Type} [DecidableEq β] [Nonempty ω] {key : α → β} {Q : α → ω → Prop}
    {result : α → ω → γ} {as : List α} {cs : List γ} (distinct : (as.map key).Nodup)
    (h : List.Forall₂ (fun a c => ∃ w, Q a w ∧ c = result a w) as cs) :
    ∃ pick : β → ω,
      (∀ a ∈ as, Q a (pick (key a))) ∧ cs = as.map fun a => result a (pick (key a)) := by
  induction h with
  | nil => exact ⟨fun _ => Classical.arbitrary ω, by simp, rfl⟩
  | cons head tail ih =>
    rename_i a c as cs
    rcases List.nodup_cons.1 distinct with ⟨new, distinct⟩
    rcases head with ⟨w, hw, rfl⟩
    rcases ih distinct with ⟨pick, each, rfl⟩
    -- the key is new, so that the choices for the others stay
    have other : ∀ b ∈ as, Function.update pick (key a) w (key b) = pick (key b) := by
      intro b hb
      refine Function.update_of_ne ?_ _ _
      intro same
      exact new (same ▸ List.mem_map_of_mem hb)
    refine ⟨Function.update pick (key a) w, ?_, ?_⟩
    · intro b hb
      rcases List.mem_cons.1 hb with rfl | hb
      · rwa [Function.update_self]
      · rw [other b hb]
        exact each b hb
    · rw [List.map_cons, Function.update_self]
      congr 1
      exact List.map_congr_left fun b hb => by rw [other b hb]

/-- The joined parts of a conjunction stand at different places. -/
theorem nodup_places {t : Task} {parts : List Formula} {queries : List (Expr Position)}
    (lengths : (t.joined parts).length = queries.length) :
    (((t.joined parts).zip queries).map fun pair => pair.1.2).Nodup := by
  have firsts : ((t.joined parts).zip queries).map Prod.fst = t.joined parts :=
    List.map_fst_zip (by omega)
  have places : ((t.joined parts).map Prod.snd).Nodup :=
    List.pairwise_map.2 (pairwise_partsWith.imp Nat.ne_of_lt)
  rw [← firsts, List.map_map] at places
  exact places

section Join

variable {ctx : Context} {D : Type} {number : Position → Nat} {t : Task} {parts : List Formula}
  {queries : List (Expr Position)} {pick : Nat → Valuation D} {env : Env D}

/-- The rows of the joined parts for the valuations picked for them. -/
def Task.scopeOf (number : Position → Nat) (t : Task) (pick : Nat → Valuation D)
    (pairs : List ((Formula × Nat) × Expr Position)) : Scope D :=
  pairs.map fun pair =>
    (queryAlias (number (pair.1.2 :: t.position)), rowOf (pick pair.1.2) pair.2.header)

variable (settled : t.Settled (.junction .and parts))
  (answers : List.Forall₂ (fun entry q => ctx.Answers (t.join (t.wanted parts) entry.1 entry.2) q)
    (t.joined parts) queries)
include settled answers

/-- A wanted variable is found under its name in the rows of the parts in which it is free. -/
theorem lookup_header_iff {pair : (Formula × Nat) × Expr Position}
    (hpair : pair ∈ (t.joined parts).zip queries) {v : Valuation D} {x : Variable}
    (wanted : x.toIdent ∈ t.wanted parts) {d : D} :
    (rowOf v pair.2.header).lookup (fold x.name) = some d ↔
      x.toIdent ∈ pair.1.1.free ∧ d = v x.toIdent := by
  have hentry : pair.1 ∈ t.joined parts := (List.of_mem_zip hpair).1
  have own := (List.forall₂_iff_zip.1 answers).2 hpair
  have carried : ∀ {x}, (∃ c ∈ pair.2.header, c.carries.toIdent = x) ↔ _ :=
    carries_join_iff hentry own
  -- columns of the same name carry the same variable
  have unique : ∀ c ∈ pair.2.header, fold c.name = fold x.name →
      c.carries.toIdent = x.toIdent := by
    intro c hc name
    rw [name_join own hc] at name
    exact settled.eq_of_wanted (carried.1 ⟨c, hc, rfl⟩).1 wanted name
  constructor
  · intro found
    rcases List.mem_map.1 (mem_of_lookup found) with ⟨c, hc, pairs⟩
    cases Prod.mk.inj pairs with
    | intro name value =>
      have same := unique c hc name
      exact ⟨(carried.1 ⟨c, hc, same⟩).2, by rw [← value, same]⟩
  · rintro ⟨free, rfl⟩
    rcases carried.2 ⟨wanted, free⟩ with ⟨c, hc, same⟩
    have name : c.name = x.name := (name_join own hc).trans (congrArg Ident.name same)
    rw [← name, ← same]
    refine lookup_rowOf hc fun c' hc' name' => ?_
    rw [name] at name'
    rw [unique c' hc' name', same]

/-- The rows of two joined parts agree if the valuations do on what is wanted. -/
theorem agree_header_iff {a b : (Formula × Nat) × Expr Position}
    (ha : a ∈ (t.joined parts).zip queries) (hb : b ∈ (t.joined parts).zip queries)
    {v w : Valuation D} [DecidableEq D] :
    agree (rowOf v a.2.header) (rowOf w b.2.header) = true ↔
      ∀ x ∈ t.wanted parts, x ∈ a.1.1.free → x ∈ b.1.1.free → v x = w x := by
  have carried : ∀ {x}, (∃ c ∈ a.2.header, c.carries.toIdent = x) ↔ _ :=
    carries_join_iff (List.of_mem_zip ha).1 ((List.forall₂_iff_zip.1 answers).2 ha)
  have named : ∀ c ∈ a.2.header, c.name = c.carries.name :=
    fun c hc => name_join ((List.forall₂_iff_zip.1 answers).2 ha) hc
  rw [agree_iff]
  constructor
  · intro each x wanted hxa hxb
    rcases carried.2 ⟨wanted, hxa⟩ with ⟨c, hc, rfl⟩
    refine (each (fold c.name) _ (List.mem_map.2 ⟨c, hc, rfl⟩) _ ?_).symm
    rw [named c hc]
    exact (lookup_header_iff settled answers hb wanted).2 ⟨hxb, rfl⟩
  · intro same name d there d' found
    rcases List.mem_map.1 there with ⟨c, hc, pairs⟩
    cases pairs
    rcases carried.1 ⟨c, hc, rfl⟩ with ⟨wanted, hxa⟩
    rw [named c hc] at found
    rcases (lookup_header_iff settled answers hb wanted).1 found with ⟨hxb, rfl⟩
    exact (same _ wanted hxa hxb).symm

/-- Conditions see the joined rows, and behind them what is around the conjunction. -/
theorem around_scopeOf (injective : Function.Injective number) :
    Task.Around number t parts env
      (t.scopeOf number pick ((t.joined parts).zip queries) :: env) pick := by
  have lengths := answers.length_eq
  constructor
  · intro x key found
    -- the aliases of the joined parts hide nothing that is provided around the conjunction
    refine Env.reference?_cons_of_absent fun source hsource same => ?_
    rcases List.mem_map.1 hsource with ⟨pair, -, rfl⟩
    rcases Providers.mem_of_find? found with ⟨z, hz, -⟩
    have inside : pair.1.2 :: t.position = key := injective (queryAlias_injective same)
    exact (settled.outside _ hz).2 (inside ▸ List.suffix_cons _ _)
  · intro entry hentry x free wanted
    rcases Context.exists_mem_zip hentry lengths.symm with ⟨q, hpair⟩
    -- no two joined parts have the same alias, since they have different places
    have found : (t.scopeOf number pick ((t.joined parts).zip queries)).lookup
        (queryAlias (number (entry.2 :: t.position))) = some (rowOf (pick entry.2) q.header) := by
      refine lookup_eq_some (List.mem_map.2 ⟨(entry, q), hpair, rfl⟩) ?_
      intro row there
      rcases List.mem_map.1 there with ⟨other, hother, same⟩
      cases Prod.mk.inj same with
      | intro sources rows =>
        have heads := List.cons.inj (injective (queryAlias_injective sources))
        have pairs := List.inj_on_of_nodup_map (nodup_places lengths) hother hpair heads.1
        rw [← rows, pairs]
    rw [Env.reference?_cons_of_some found]
    exact (lookup_header_iff settled answers hpair wanted).2 ⟨free, rfl⟩

/-- A wanted variable is a column of the joined rows. -/
theorem column?_scopeOf (complete : (t.missing parts).isEmpty = true) {w : Valuation D}
    (picked : ∀ entry ∈ t.joined parts, ∀ x ∈ entry.1.free, w x = pick entry.2 x) {x : Variable}
    (wanted : x.toIdent ∈ t.wanted parts) :
    Env.column? (t.scopeOf number pick ((t.joined parts).zip queries) :: env) (fold x.name) =
      some (w x.toIdent) := by
  refine Env.column?_cons (Scope.column?_eq_some ?_ ?_)
  · rcases Task.exists_joined_of_wanted complete wanted with ⟨entry, hentry, free⟩
    rcases Context.exists_mem_zip hentry answers.length_eq.symm with ⟨q, hpair⟩
    refine ⟨_, List.mem_map.2 ⟨(entry, q), hpair, rfl⟩, ?_⟩
    exact (lookup_header_iff settled answers hpair wanted).2 ⟨free, picked entry hentry _ free⟩
  · intro source hsource d found
    rcases List.mem_map.1 hsource with ⟨pair, hpair, rfl⟩
    rcases (lookup_header_iff settled answers hpair wanted).1 found with ⟨free, rfl⟩
    exact (picked _ (List.of_mem_zip hpair).1 _ free).symm

variable [DecidableEq D] {db : Database ctx.schema D} {M : Interpretation D}
  {use : String → Position → Nat}
  (correct : List.Forall₂
    (fun entry q => Correct db M number use (t.join (t.wanted parts) entry.1 entry.2) entry.1 q)
    (t.joined parts) queries)

omit [DecidableEq D] settled answers in
theorem sources_eq_map :
    (t.sources (t.joined parts) queries).map (fun e => (e.map number use).source) =
      ((t.joined parts).zip queries).map fun pair =>
        .derived (pair.2.map number use).statement
          (queryAlias (number (pair.1.2 :: t.position))) := by
  rw [Task.sources, List.map_zipWith, ← List.map_uncurry_zip_eq_zipWith]
  refine List.map_congr_left fun pair _ => ?_
  simp [Function.uncurry, Expr.map, Expr.source]

omit settled answers in
include correct in
/-- A joined part is a query, since something is requested of it. -/
theorem mem_rows_joined_iff (supplied : t.Supplied number (.junction .and parts) env)
    {pair : (Formula × Nat) × Expr Position} (hpair : pair ∈ (t.joined parts).zip queries)
    {row : Row D} :
    row ∈ (pair.2.map number use).statement.rows db env ↔
      ∃ w, t.Solves M number pair.1.1 env w ∧ row = rowOf w pair.2.header := by
  have hentry : pair.1 ∈ t.joined parts := (List.of_mem_zip hpair).1
  have providers : (t.join (t.wanted parts) pair.1.1 pair.1.2).providers = t.providers := rfl
  simp only [← Task.solves_iff_of_providers providers]
  refine ((List.forall₂_iff_zip.1 correct).2 hpair).rows ?_ env ?_ row
  · intro none
    rw [Task.requested_join_nonempty hentry] at none
    cases none
  · intro x hx
    exact supplied x (Formula.mem_free_junction.2 ⟨_, Task.mem_of_joined hentry, hx⟩)

include correct in
/-- The natural join of the joined parts has the rows of their solutions that are alike. -/
theorem mem_scopes_sources_iff (supplied : t.Supplied number (.junction .and parts) env)
    {scope : Scope D} :
    scope ∈ (Source.joined ((t.sources (t.joined parts) queries).map fun e =>
        (e.map number use).source)).scopes db env ↔
      ∃ pick, (∀ entry ∈ t.joined parts,
          t.Solves M number entry.1 env (pick entry.2)) ∧
        t.Alike parts pick ∧ scope = t.scopeOf number pick ((t.joined parts).zip queries) := by
  have nonempty := db.nonempty
  have single : ∀ s ∈ ((t.joined parts).zip queries).map fun pair => Source.derived
        (pair.2.map number use).statement (queryAlias (number (pair.1.2 :: t.position))),
      ∀ scope ∈ s.scopes db env, ∃ entry, scope = [entry] := by
    intro s hs scope there
    rcases List.mem_map.1 hs with ⟨pair, -, rfl⟩
    rcases mem_scopes_derived_iff.1 there with ⟨row, -, rfl⟩
    exact ⟨_, rfl⟩
  rw [sources_eq_map, mem_scopes_joined_iff single, List.forall₂_map_left_iff]
  constructor
  · rintro ⟨each, pairwise⟩
    -- each of the joined rows is that of a solution, and these are picked by their places
    have chosen : List.Forall₂ (fun pair source =>
        ∃ w, t.Solves M number pair.1.1 env w ∧
          source = (queryAlias (number (pair.1.2 :: t.position)), rowOf w pair.2.header))
        ((t.joined parts).zip queries) scope := by
      refine forall₂_imp_mem each fun pair hpair source here => ?_
      rcases mem_scopes_derived_iff.1 here with ⟨row, hrow, same⟩
      rcases (mem_rows_joined_iff correct supplied hpair).1 hrow with ⟨w, solves, rfl⟩
      exact ⟨w, solves, (List.cons.inj same).1⟩
    rcases exists_choice (nodup_places answers.length_eq) chosen with
      ⟨pick, solves, rfl⟩
    refine ⟨pick, ?_, ?_, rfl⟩
    · intro entry hentry
      rcases Context.exists_mem_zip hentry answers.length_eq.symm with ⟨q, hpair⟩
      exact solves _ hpair
    · intro a ha b hb
      rcases Context.exists_mem_zip ha answers.length_eq.symm with ⟨p, hp⟩
      rcases Context.exists_mem_zip hb answers.length_eq.symm with ⟨q, hq⟩
      have same : ((t.joined parts).zip queries).Pairwise fun a b => ∀ x ∈ t.wanted parts,
          x ∈ a.1.1.free → x ∈ b.1.1.free → pick a.1.2 x = pick b.1.2 x := by
        refine (List.pairwise_map.1 pairwise).imp_of_mem fun hp hq same => ?_
        exact (agree_header_iff settled answers hp hq).1 same
      have symm : Std.Symm fun a b : (Formula × Nat) × Expr Position => ∀ x ∈ t.wanted parts,
          x ∈ a.1.1.free → x ∈ b.1.1.free → pick a.1.2 x = pick b.1.2 x :=
        ⟨fun a b same x wanted hb ha => (same x wanted ha hb).symm⟩
      exact same.forall_of_forall (fun _ _ _ _ _ _ => rfl) hp hq
  · rintro ⟨pick, solves, alike, rfl⟩
    refine ⟨List.forall₂_map_right_iff.2 (List.forall₂_same.2 fun pair hpair => ?_), ?_⟩
    · refine mem_scopes_derived_iff.2 ⟨_, ?_, rfl⟩
      exact (mem_rows_joined_iff correct supplied hpair).2
        ⟨_, solves _ (List.of_mem_zip hpair).1, rfl⟩
    · refine List.pairwise_map.2 (List.pairwise_of_forall_mem_list fun a ha b hb => ?_)
      exact (agree_header_iff settled answers ha hb).2
        (alike _ (List.of_mem_zip ha).1 _ (List.of_mem_zip hb).1)

include correct in
/-- A conjunction with joined parts. -/
theorem correct_join {conditions : List (Expr Position)} {several : Bool}
    (injective : Function.Injective number) (complete : (t.missing parts).isEmpty = true)
    (filtered : List.Forall₂
      (fun entry c => Correct db M number use (t.condition (t.inner parts) entry.2) entry.1 c)
      (t.conditional parts) conditions) :
    Correct db M number use t (.junction .and parts) (ctx.select t.outermost
      (t.requested.toList.map (ctx.passedOn t.outermost)) (t.sources (t.joined parts) queries)
      (grouped (guarded several (t.conditional parts) conditions))) := by
  refine correct_select (by simp [VarSet.isEmpty]) fun env supplied row => ?_
  have nonempty := db.nonempty
  have around : ∀ pick : Nat → Valuation D, Task.Around number t parts env
      (t.scopeOf number pick ((t.joined parts).zip queries) :: env) pick :=
    fun pick => around_scopeOf settled answers injective
  -- the conditions, among the rows that belong to the valuations picked
  have held : ∀ pick : Nat → Valuation D,
      (∀ c ∈ grouped (guarded several (t.conditional parts) conditions),
        (c.map number use).condition.holds db
          (t.scopeOf number pick ((t.joined parts).zip queries) :: env) = true) ↔
        ∀ entry ∈ t.conditional parts, ∃ u, (t.condition (t.inner parts) entry.2).Solves
          M number entry.1
          (t.scopeOf number pick ((t.joined parts).zip queries) :: env) u := by
    intro pick
    rw [holds_grouped_iff, holds_guarded_iff filtered fun entry hentry =>
      (around pick).supplied_condition settled supplied hentry]
  -- the columns of the statement, for a valuation that continues those picked
  have projected : ∀ (pick : Nat → Valuation D) (w : Valuation D),
      (∀ entry ∈ t.joined parts, ∀ x ∈ entry.1.free, w x = pick entry.2 x) →
      project db (t.scopeOf number pick ((t.joined parts).zip queries) :: env)
          (outputsOf (Column.sort (t.requested.toList.map (ctx.passedOn t.outermost)))) =
        rowOf w (Column.sort (t.requested.toList.map (ctx.passedOn t.outermost))) := by
    intro pick w picked
    refine project_eq_rowOf fun c hc => ?_
    rcases List.mem_map.1 ((Column.sort_perm _).mem_iff.1 hc) with ⟨x, hx, rfl⟩
    have wanted : x.toIdent ∈ t.wanted parts := VarSet.mem_union.2 (.inl (VarSet.toIdent_mem hx))
    exact column?_scopeOf settled answers complete picked wanted
  simp only [mem_scopes_sources_iff settled answers correct supplied]
  constructor
  · rintro ⟨scope, ⟨pick, solves, alike, rfl⟩, conditions, rfl⟩
    rcases (Task.exists_solves_and_iff settled complete (around pick)).2
      ⟨solves, alike, (held pick).1 conditions⟩ with ⟨w, solves, picked⟩
    exact ⟨w, solves, projected pick w picked⟩
  · rintro ⟨w, solves, rfl⟩
    -- a solution of the conjunction is picked for all joined parts alike
    have picked : ∀ entry ∈ t.joined parts, ∀ x ∈ entry.1.free, w x = (fun _ => w) entry.2 x :=
      fun _ _ _ _ => rfl
    rcases (Task.exists_solves_and_iff settled complete (around fun _ => w)).1
      ⟨w, solves, picked⟩ with ⟨joined, alike, conditions⟩
    exact ⟨_, ⟨fun _ => w, joined, alike, rfl⟩, (held fun _ => w).2 conditions,
      (projected (fun _ => w) w picked).symm⟩

end Join

end Sql
end QueryCalculus
