import QueryCalculus.Proofs.Formula.Agreement
import QueryCalculus.Proofs.Sql.Coverage
import QueryCalculus.Proofs.Sql.Evaluation

/-!
# Solutions of parts

- `Task.Solves` : a valuation makes a part true and has the provided values
- `Task.Around` : the environment of the conditions of a conjunction
- `Task.exists_solves_and_iff` : solutions of the joined parts and of the conditions that fit
  together are a solution of the conjunction

The parts of a conjunction share their variables only through the columns of the joined parts and
through the queries around the conjunction. All other variables are local to one part.
-/

namespace QueryCalculus
namespace Sql

/-- Values that are fixed at most once are those of a valuation. -/
theorem exists_valuation {D : Type} [Nonempty D] {C : Ident → D → Prop}
    (unique : ∀ x d d', C x d → C x d' → d = d') : ∃ v : Valuation D, ∀ x d, C x d → v x = d := by
  classical
  refine ⟨fun x => if h : ∃ d, C x d then h.choose else Classical.arbitrary D, ?_⟩
  intro x d hd
  have some : ∃ d, C x d := ⟨d, hd⟩
  simp only [dif_pos some]
  exact unique x _ _ some.choose_spec hd

namespace Task

/-! ## Provided values -/

section Solves

variable {D : Type} {M : Interpretation D} {number : Position → Nat} {t : Task} {f g : Formula}
  {parts : List Formula} {env : Env D} {v w : Valuation D}

/-- The valuation has the values that the queries in sight provide. -/
def Sees (number : Position → Nat) (t : Task) (f : Formula) (env : Env D) (v : Valuation D) :
    Prop :=
  ∀ x : Variable, x.toIdent ∈ f.free → ∀ key, t.providers.find? x = some key →
    env.reference? (queryAlias (number key)) (fold x.name) = some (v x.toIdent)

/-- There are values for all that is provided. -/
def Supplied (number : Position → Nat) (t : Task) (f : Formula) (env : Env D) : Prop :=
  ∀ x : Variable, x.toIdent ∈ f.free → ∀ key, t.providers.find? x = some key →
    (env.reference? (queryAlias (number key)) (fold x.name)).isSome = true

/-- The valuation makes the part true and has the values that the queries in sight provide. -/
structure Solves (M : Interpretation D) (number : Position → Nat) (t : Task) (f : Formula)
    (env : Env D) (v : Valuation D) : Prop where
  sees : t.Sees number f env v
  holds : f.HoldsApart M v

theorem Supplied.exists_sees [Nonempty D] (supplied : t.Supplied number f env) :
    ∃ v, t.Sees number f env v := by
  let value : Ident → Option D := fun x =>
    (t.providers.find? ⟨x, .undefined⟩).bind fun key =>
      env.reference? (queryAlias (number key)) (fold x.name)
  refine ⟨fun x => (value x).getD (Classical.arbitrary D), ?_⟩
  intro x hx key found
  have found' : t.providers.find? ⟨x.toIdent, .undefined⟩ = some key := found
  rcases Option.isSome_iff_exists.1 (supplied x hx key found) with ⟨d, hd⟩
  simp [value, found', hd]

theorem Sees.supplied (sees : t.Sees number f env v) : t.Supplied number f env := by
  intro x hx key found
  rw [sees x hx key found]
  rfl

/-- Provided values are the same for all parts. -/
theorem Sees.eq (hv : t.Sees number f env v) (hw : t.Sees number g env w) {x : Variable}
    (hf : x.toIdent ∈ f.free) (hg : x.toIdent ∈ g.free) (provided : t.providers.find? x ≠ none) :
    v x.toIdent = w x.toIdent := by
  rcases Option.ne_none_iff_exists'.1 provided with ⟨key, found⟩
  exact Option.some.inj ((hv x hf key found).symm.trans (hw x hg key found))

/-- Only the providers of a task matter. -/
theorem solves_iff_of_providers {t' : Task} (same : t'.providers = t.providers) :
    t'.Solves M number f env v ↔ t.Solves M number f env v := by
  have sees : t'.Sees number f env v ↔ t.Sees number f env v := by simp only [Sees, same]
  constructor
  · rintro ⟨hs, hh⟩
    exact ⟨sees.1 hs, hh⟩
  · rintro ⟨hs, hh⟩
    exact ⟨sees.2 hs, hh⟩

theorem sees_congr (same : ∀ x ∈ f.free, v x = w x) :
    t.Sees number f env v ↔ t.Sees number f env w := by
  refine forall_congr' fun x => forall_congr' fun hx => ?_
  rw [same _ hx]

theorem solves_congr (same : ∀ x ∈ f.free, v x = w x) :
    t.Solves M number f env v ↔ t.Solves M number f env w := by
  constructor
  · rintro ⟨sees, holds⟩
    exact ⟨(sees_congr same).1 sees, (Formula.holdsApart_congr same).1 holds⟩
  · rintro ⟨sees, holds⟩
    exact ⟨(sees_congr same).2 sees, (Formula.holdsApart_congr same).2 holds⟩

/-- If all variables of a part are provided, its truth is that under the provided values. -/
theorem exists_solves_iff (sees : t.Sees number f env v)
    (provided : ∀ x : Variable, x.toIdent ∈ f.free → t.providers.find? x ≠ none) :
    (∃ w, t.Solves M number f env w) ↔ f.HoldsApart M v := by
  constructor
  · rintro ⟨w, solves⟩
    have same : ∀ x ∈ f.free, w x = v x := by
      intro x hx
      exact Sees.eq (x := ⟨x, .undefined⟩) solves.sees sees hx hx (provided ⟨x, .undefined⟩ hx)
    exact (Formula.holdsApart_congr same).1 solves.holds
  · intro holds
    exact ⟨v, sees, holds⟩

/-! ## The parts of a conjunction -/

theorem solves_and_iff :
    t.Solves M number (.junction .and parts) env v ↔ ∀ f ∈ parts, t.Solves M number f env v := by
  have holds : (Formula.junction .and parts).HoldsApart M v ↔ ∀ f ∈ parts, f.HoldsApart M v := by
    simp only [Formula.HoldsApart, Formula.HoldsBy]
    exact Formula.allHoldBy_iff _
  constructor
  · intro solves f hf
    exact ⟨fun x hx => solves.sees x (Formula.mem_free_junction.2 ⟨f, hf, hx⟩),
      holds.1 solves.holds f hf⟩
  · intro each
    refine ⟨?_, holds.2 fun f hf => (each f hf).holds⟩
    intro x hx
    rcases Formula.mem_free_junction.1 hx with ⟨f, hf, hx⟩
    exact (each f hf).sees x hx

theorem solves_iff_of_same (same : f.same g = true) :
    t.Solves M number f env v ↔ t.Solves M number g env v := by
  have sees : t.Sees number f env v ↔ t.Sees number g env v := by
    simp only [Sees, Formula.mem_free_iff_of_same same]
  constructor
  · rintro ⟨hs, hh⟩
    exact ⟨sees.1 hs, (Formula.holdsApart_iff_of_same same).1 hh⟩
  · rintro ⟨hs, hh⟩
    exact ⟨sees.2 hs, (Formula.holdsApart_iff_of_same same).2 hh⟩

theorem solves_entries_iff :
    t.Solves M number (.junction .and parts) env v ↔
      (∀ entry ∈ t.joined parts, t.Solves M number entry.1 env v) ∧
        ∀ entry ∈ t.conditional parts, t.Solves M number entry.1 env v := by
  rw [solves_and_iff]
  exact forall_parts_iff fun f g same => solves_iff_of_same same

end Solves

/-! ## Solutions that fit together -/

section Conjunctions

variable {D : Type} {M : Interpretation D} {number : Position → Nat} {t : Task}
  {parts : List Formula} {env inner : Env D} {pick : Nat → Valuation D}

/-- The valuations for the joined parts, given by their places, have the same values for what is
wanted. -/
def Alike (t : Task) (parts : List Formula) (pick : Nat → Valuation D) : Prop :=
  ∀ a ∈ t.joined parts, ∀ b ∈ t.joined parts, ∀ x ∈ t.wanted parts, x ∈ a.1.free → x ∈ b.1.free →
    pick a.2 x = pick b.2 x

/-- Around the conditions of a conjunction there are the queries around the conjunction and, in
addition, its joined parts with the values that have been picked for them. -/
structure Around (number : Position → Nat) (t : Task) (parts : List Formula) (env inner : Env D)
    (pick : Nat → Valuation D) : Prop where
  outer : ∀ (x : Variable) key, t.providers.find? x = some key →
    inner.reference? (queryAlias (number key)) (fold x.name) =
      env.reference? (queryAlias (number key)) (fold x.name)
  joined : ∀ entry ∈ t.joined parts, ∀ x : Variable, x.toIdent ∈ entry.1.free →
    x.toIdent ∈ t.wanted parts →
    inner.reference? (queryAlias (number (entry.2 :: t.position))) (fold x.name) =
      some (pick entry.2 x.toIdent)

namespace Around

variable (settled : t.Settled (.junction .and parts))
variable (around : Around number t parts env inner pick)
include settled around

/-- The joined part that provides a variable of a condition has a column for it. -/
theorem reference {g : Formula} {n : Nat} (hg : (g, n) ∈ t.conditional parts) {x : Variable}
    (hx : x.toIdent ∈ g.free) {key : Position} (absent : t.providers.find? x = none)
    (found : (t.inner parts).find? x = some key) :
    ∃ entry ∈ t.joined parts, x.toIdent ∈ entry.1.free ∧ x.toIdent ∈ t.wanted parts ∧
      inner.reference? (queryAlias (number key)) (fold x.name) = some (pick entry.2 x.toIdent) := by
  rcases (find?_inner_of_none parts absent).2 key found with ⟨entry, hentry, there, rfl⟩
  have wanted : x.toIdent ∈ t.wanted parts :=
    settled.mem_wanted (place_ne hg hentry) (mem_conditional.1 hg).2 (mem_joined.1 hentry).2 hx
      there absent
  exact ⟨entry, hentry, there, wanted, around.joined entry hentry x there wanted⟩

theorem supplied_condition (supplied : t.Supplied number (.junction .and parts) env) {g : Formula}
    {n : Nat} (hg : (g, n) ∈ t.conditional parts) :
    (t.condition (t.inner parts) n).Supplied number g inner := by
  intro x hx key found
  have free : x.toIdent ∈ (Formula.junction .and parts).free :=
    Formula.mem_free_junction.2 ⟨g, mem_of_conditional hg, hx⟩
  cases absent : t.providers.find? x with
  | some key' =>
    -- provided around the conjunction, or by a joined part
    cases (find?_inner_of_some parts absent).symm.trans found
    rw [around.outer x key absent]
    exact supplied x free key absent
  | none =>
    rcases around.reference settled hg hx absent found with ⟨entry, -, -, -, value⟩
    rw [value]
    rfl

/-- A condition sees the values from around the conjunction and those of the joined parts. -/
theorem sees_condition_iff (alike : t.Alike parts pick) {g : Formula} {n : Nat}
    (hg : (g, n) ∈ t.conditional parts) {u : Valuation D} :
    (t.condition (t.inner parts) n).Sees number g inner u ↔
      t.Sees number g env u ∧
        ∀ entry ∈ t.joined parts, ∀ x : Variable, x.toIdent ∈ g.free → x.toIdent ∈ entry.1.free →
          t.providers.find? x = none → pick entry.2 x.toIdent = u x.toIdent := by
  constructor
  · intro sees
    refine ⟨?_, ?_⟩
    · intro x hx key found
      rw [← around.outer x key found]
      exact sees x hx key (find?_inner_of_some parts found)
    · intro entry hentry x hx there absent
      cases found : (t.inner parts).find? x with
      | none => exact absurd there ((find?_inner_of_none parts absent).1.1 found entry hentry)
      | some key =>
        rcases around.reference settled hg hx absent found with
          ⟨other, hother, there', wanted, value⟩
        -- the value may come from another part, and the parts agree on what is wanted
        calc
          pick entry.2 x.toIdent = pick other.2 x.toIdent :=
            alike entry hentry other hother _ wanted there there'
          _ = u x.toIdent := Option.some.inj (value.symm.trans (sees x hx key found))
  · rintro ⟨sees, same⟩ x hx key found
    cases absent : t.providers.find? x with
    | some key' =>
      cases (find?_inner_of_some parts absent).symm.trans found
      rw [around.outer x key absent]
      exact sees x hx key absent
    | none =>
      rcases around.reference settled hg hx absent found with ⟨entry, hentry, there, -, value⟩
      rw [value, same entry hentry x hx there absent]

end Around

/-! The parts have the same values for what they share: what is provided around the conjunction is
seen by all of them, and anything else is a column of a joined part. -/

theorem pick_eq_pick (settled : t.Settled (.junction .and parts)) (alike : t.Alike parts pick)
    (sees : ∀ entry ∈ t.joined parts, t.Sees number entry.1 env (pick entry.2))
    {a b : Formula × Nat} (ha : a ∈ t.joined parts) (hb : b ∈ t.joined parts) {x : Variable}
    (hxa : x.toIdent ∈ a.1.free) (hxb : x.toIdent ∈ b.1.free) :
    pick a.2 x.toIdent = pick b.2 x.toIdent := by
  by_cases absent : t.providers.find? x = none
  · by_cases same : a.2 = b.2
    · rw [same]
    · have wanted : x.toIdent ∈ t.wanted parts :=
        settled.mem_wanted same (mem_joined.1 ha).2 (mem_joined.1 hb).2 hxa hxb absent
      exact alike a ha b hb _ wanted hxa hxb
  · exact (sees a ha).eq (sees b hb) hxa hxb absent

section Conditions

variable {u : Formula × Nat → Valuation D}

/-- Valuations for the conditions see what is around the conjunction, and have the values that have
been picked for the joined parts. -/
def Matches (number : Position → Nat) (t : Task) (parts : List Formula) (env : Env D)
    (pick : Nat → Valuation D) (u : Formula × Nat → Valuation D) : Prop :=
  ∀ entry ∈ t.conditional parts, t.Sees number entry.1 env (u entry) ∧
    ∀ other ∈ t.joined parts, ∀ x : Variable, x.toIdent ∈ entry.1.free →
      x.toIdent ∈ other.1.free → t.providers.find? x = none →
      pick other.2 x.toIdent = u entry x.toIdent

theorem pick_eq_condition
    (sees : ∀ entry ∈ t.joined parts, t.Sees number entry.1 env (pick entry.2))
    (matching : t.Matches number parts env pick u) {a b : Formula × Nat} (ha : a ∈ t.joined parts)
    (hb : b ∈ t.conditional parts) {x : Variable} (hxa : x.toIdent ∈ a.1.free)
    (hxb : x.toIdent ∈ b.1.free) : pick a.2 x.toIdent = u b x.toIdent := by
  by_cases absent : t.providers.find? x = none
  · exact (matching b hb).2 a ha x hxb hxa absent
  · exact (sees a ha).eq (matching b hb).1 hxa hxb absent

theorem condition_eq_condition (settled : t.Settled (.junction .and parts))
    (complete : (t.missing parts).isEmpty = true)
    (sees : ∀ entry ∈ t.joined parts, t.Sees number entry.1 env (pick entry.2))
    (matching : t.Matches number parts env pick u) {a b : Formula × Nat}
    (ha : a ∈ t.conditional parts) (hb : b ∈ t.conditional parts) {x : Variable}
    (hxa : x.toIdent ∈ a.1.free) (hxb : x.toIdent ∈ b.1.free) :
    u a x.toIdent = u b x.toIdent := by
  have fa := (mem_conditional.1 ha).2
  have fb := (mem_conditional.1 hb).2
  by_cases absent : t.providers.find? x = none
  · by_cases same : a.2 = b.2
    · have formulas : a.1 = b.1 := Option.some.inj (by rw [← fa, same, fb])
      rw [Prod.ext formulas same]
    · -- two conditions share it, so some joined part has to provide it
      have wanted : x.toIdent ∈ t.wanted parts := settled.mem_wanted same fa fb hxa hxb absent
      rcases exists_joined_of_wanted complete wanted with ⟨entry, hentry, there⟩
      calc
        u a x.toIdent = pick entry.2 x.toIdent :=
          (pick_eq_condition sees matching hentry ha there hxa).symm
        _ = u b x.toIdent := pick_eq_condition sees matching hentry hb there hxb
  · exact (matching a ha).1.eq (matching b hb).1 hxa hxb absent

/-- So there is one valuation for all of them. -/
theorem exists_common [Nonempty D] (settled : t.Settled (.junction .and parts))
    (complete : (t.missing parts).isEmpty = true) (alike : t.Alike parts pick)
    (sees : ∀ entry ∈ t.joined parts, t.Sees number entry.1 env (pick entry.2))
    (matching : t.Matches number parts env pick u) :
    ∃ w : Valuation D, (∀ entry ∈ t.joined parts, ∀ x ∈ entry.1.free, w x = pick entry.2 x) ∧
      ∀ entry ∈ t.conditional parts, ∀ x ∈ entry.1.free, w x = u entry x := by
  have unique : ∀ (x : Ident) (d d' : D),
      ((∃ a ∈ t.joined parts, x ∈ a.1.free ∧ pick a.2 x = d) ∨
        ∃ a ∈ t.conditional parts, x ∈ a.1.free ∧ u a x = d) →
      ((∃ a ∈ t.joined parts, x ∈ a.1.free ∧ pick a.2 x = d') ∨
        ∃ a ∈ t.conditional parts, x ∈ a.1.free ∧ u a x = d') → d = d' := by
    intro x d d'
    -- the type of a variable does not matter
    let y : Variable := ⟨x, .undefined⟩
    rintro (⟨a, ha, hxa, rfl⟩ | ⟨a, ha, hxa, rfl⟩) (⟨b, hb, hxb, rfl⟩ | ⟨b, hb, hxb, rfl⟩)
    · exact pick_eq_pick (x := y) settled alike sees ha hb hxa hxb
    · exact pick_eq_condition (x := y) sees matching ha hb hxa hxb
    · exact (pick_eq_condition (x := y) sees matching hb ha hxb hxa).symm
    · exact condition_eq_condition (x := y) settled complete sees matching ha hb hxa hxb
  rcases exists_valuation unique with ⟨w, hw⟩
  refine ⟨w, ?_, ?_⟩
  · intro entry hentry x hx
    exact hw x _ (.inl ⟨entry, hentry, hx, rfl⟩)
  · intro entry hentry x hx
    exact hw x _ (.inr ⟨entry, hentry, hx, rfl⟩)

end Conditions

/-- Solutions of the joined parts that are alike, and solutions of the conditions among the rows
picked for them, make up a solution of the conjunction. -/
theorem exists_solves_and_iff [Nonempty D] (settled : t.Settled (.junction .and parts))
    (complete : (t.missing parts).isEmpty = true) (around : Around number t parts env inner pick) :
    (∃ w, t.Solves M number (.junction .and parts) env w ∧
        ∀ entry ∈ t.joined parts, ∀ x ∈ entry.1.free, w x = pick entry.2 x) ↔
      (∀ entry ∈ t.joined parts, t.Solves M number entry.1 env (pick entry.2)) ∧
        t.Alike parts pick ∧
        ∀ entry ∈ t.conditional parts,
          ∃ u, (t.condition (t.inner parts) entry.2).Solves M number entry.1 inner u := by
  constructor
  · rintro ⟨w, solves, picked⟩
    rcases solves_entries_iff.1 solves with ⟨joined, conditional⟩
    have alike : t.Alike parts pick := by
      intro a ha b hb x hx hxa hxb
      rw [← picked a ha x hxa, ← picked b hb x hxb]
    refine ⟨?_, alike, ?_⟩
    · intro entry hentry
      exact (solves_congr (picked entry hentry)).1 (joined entry hentry)
    · intro entry hentry
      refine ⟨w, (around.sees_condition_iff settled alike hentry).2
        ⟨(conditional entry hentry).sees, ?_⟩, (conditional entry hentry).holds⟩
      intro other hother x _ there _
      exact (picked other hother _ there).symm
  · rintro ⟨joined, alike, conditional⟩
    -- each condition has a solution of its own; these fit together with the rows picked
    choose! u hu using conditional
    have matching : t.Matches number parts env pick u := fun entry hentry =>
      (around.sees_condition_iff settled alike hentry).1 (hu entry hentry).sees
    rcases exists_common settled complete alike (fun entry hentry => (joined entry hentry).sees)
      matching with ⟨w, picked, chosen⟩
    refine ⟨w, solves_entries_iff.2 ⟨?_, ?_⟩, picked⟩
    · intro entry hentry
      exact (solves_congr (picked entry hentry)).2 (joined entry hentry)
    · intro entry hentry
      exact (solves_congr (chosen entry hentry)).2
        ⟨(matching entry hentry).1, (hu entry hentry).holds⟩

end Conjunctions

end Task

end Sql
end QueryCalculus
