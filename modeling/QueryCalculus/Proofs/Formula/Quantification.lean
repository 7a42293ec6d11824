import Mathlib.Data.Set.Piecewise
import Mathlib.Logic.Function.DependsOn
import QueryCalculus.Semantics

/-!
# Connectives and quantifiers of statements about valuations

- `Connective.Joins` : all or some members of a list have a property
- `Quantifier.Over` : all or some valuations that differ on a set of variables have a property
- `not_joins`, `not_over` : negation turns both into their duals
- `over_over`, `over_congr_set` : quantifiers of one kind merge, and only the variables that a
  property depends on matter
- `over_rename` : quantified variables can be renamed
- `over_joins` : a quantifier moves in front of a connective, if no variable that it binds for one
  member occurs in another one

The laws are those of formulas, said for arbitrary properties, so that they hold for whole blocks of
quantifiers at once.
-/

namespace QueryCalculus

universe u

variable {α β : Type*} {D : Type u}

/-! ## Connectives -/

namespace Connective

/-- All members for a conjunction, some member for a disjunction. -/
def Joins (c : Connective) (as : List α) (p : α → Prop) : Prop :=
  match c with
  | .and => ∀ a ∈ as, p a
  | .or => ∃ a ∈ as, p a

variable {c : Connective} {as : List α} {p q : α → Prop}

theorem joins_congr (same : ∀ a ∈ as, (p a ↔ q a)) : c.Joins as p ↔ c.Joins as q := by
  cases c with
  | and => exact forall₂_congr same
  | or => exact exists_congr fun a => and_congr_right (same a)

theorem joins_map {h : β → α} {bs : List β} :
    c.Joins (bs.map h) p ↔ c.Joins bs fun b => p (h b) := by
  cases c with
  | and => exact List.forall_mem_map
  | or => simp [Joins]

theorem not_joins : ¬ c.Joins as p ↔ c.dual.Joins as fun a => ¬ p a := by
  cases c with
  | and => simp [Joins, dual]
  | or => simp [Joins, dual]

end Connective

/-! ## Quantifiers -/

namespace Quantifier

/-- Some or all of the valuations that differ from `v` at most on the set `s`. -/
def Over (q : Quantifier) (s : Set Ident) (p : Valuation D → Prop) (v : Valuation D) : Prop :=
  match q with
  | .exist => ∃ w, (∀ x ∉ s, w x = v x) ∧ p w
  | .forAll => ∀ w, (∀ x ∉ s, w x = v x) → p w

variable {q : Quantifier} {s t : Set Ident} {p r : Valuation D → Prop} {v : Valuation D}

@[simp] theorem dual_dual (q : Quantifier) : q.dual.dual = q := by
  cases q <;> rfl

theorem over_congr (same : ∀ w, p w ↔ r w) : q.Over s p v ↔ q.Over s r v := by
  cases q with
  | exist => exact exists_congr fun w => and_congr_right fun _ => same w
  | forAll => exact forall₂_congr fun w _ => same w

theorem not_over : ¬ q.Over s p v ↔ q.dual.Over s (fun w => ¬ p w) v := by
  cases q with
  | exist => simp [Over, dual]
  | forAll => simp [Over, dual]

/-- Quantified properties agree if every choice on one side has a counterpart on the other. -/
theorem over_transfer {w : Valuation D}
    (there : ∀ v', (∀ x ∉ s, v' x = v x) → ∃ w', (∀ x ∉ t, w' x = w x) ∧ (p v' ↔ r w'))
    (back : ∀ w', (∀ x ∉ t, w' x = w x) → ∃ v', (∀ x ∉ s, v' x = v x) ∧ (p v' ↔ r w')) :
    q.Over s p v ↔ q.Over t r w := by
  cases q with
  | exist =>
    constructor
    · rintro ⟨v', hv, holds⟩
      rcases there v' hv with ⟨w', hw, same⟩
      exact ⟨w', hw, same.1 holds⟩
    · rintro ⟨w', hw, holds⟩
      rcases back w' hw with ⟨v', hv, same⟩
      exact ⟨v', hv, same.2 holds⟩
  | forAll =>
    constructor
    · intro all w' hw
      rcases back w' hw with ⟨v', hv, same⟩
      exact same.1 (all v' hv)
    · intro all v' hv
      rcases there v' hv with ⟨w', hw, same⟩
      exact same.2 (all w' hw)

theorem over_of_empty (empty : ∀ x, x ∉ s) : q.Over s p v ↔ p v := by
  have only : ∀ w : Valuation D, (∀ x ∉ s, w x = v x) ↔ w = v := fun w =>
    ⟨fun same => funext fun x => same x (empty x), fun same x _ => congrFun same x⟩
  cases q with
  | exist => simp [Over, only]
  | forAll => simp [Over, only]

section Classical

open scoped Classical in
/-- Two steps that change variables of `s` and then of `t` are one step, and the other way round. -/
theorem over_over : q.Over s (q.Over t p) v ↔ q.Over (s ∪ t) p v := by
  -- a valuation that differs on the union is reached by way of its values on the first set
  have between : ∀ w : Valuation D, (∀ x ∉ s ∪ t, w x = v x) →
      (∀ x ∉ s, s.piecewise w v x = v x) ∧ ∀ x ∉ t, w x = s.piecewise w v x := by
    intro w hw
    refine ⟨fun x hx => Set.piecewise_eq_of_notMem s w v hx, fun x hx => ?_⟩
    by_cases inside : x ∈ s
    · exact (Set.piecewise_eq_of_mem s w v inside).symm
    · exact (hw x (by simp [inside, hx])).trans (Set.piecewise_eq_of_notMem s w v inside).symm
  have joined : ∀ u w : Valuation D, (∀ x ∉ s, u x = v x) → (∀ x ∉ t, w x = u x) →
      ∀ x ∉ s ∪ t, w x = v x := by
    intro u w hu hw x hx
    rw [Set.mem_union, not_or] at hx
    exact (hw x hx.2).trans (hu x hx.1)
  cases q with
  | exist =>
    constructor
    · rintro ⟨u, hu, w, hw, holds⟩
      exact ⟨w, joined u w hu hw, holds⟩
    · rintro ⟨w, hw, holds⟩
      exact ⟨s.piecewise w v, (between w hw).1, w, (between w hw).2, holds⟩
  | forAll =>
    constructor
    · intro all w hw
      exact all (s.piecewise w v) (between w hw).1 w (between w hw).2
    · intro all u hu w hw
      exact all w (joined u w hu hw)

open scoped Classical in
/-- Of the variables that are quantified, only those matter that the property depends on. -/
theorem over_congr_set (depends : DependsOn p t) {s' : Set Ident}
    (same : ∀ x ∈ t, (x ∈ s ↔ x ∈ s')) : q.Over s p v ↔ q.Over s' p v := by
  -- a change on one set is repeated on the other as far as it can be seen
  have repeated : ∀ s₁ s₂ : Set Ident, (∀ x ∈ t, (x ∈ s₁ ↔ x ∈ s₂)) →
      ∀ w : Valuation D, (∀ x ∉ s₁, w x = v x) → ∃ u, (∀ x ∉ s₂, u x = v x) ∧ p w = p u := by
    intro s₁ s₂ same w hw
    refine ⟨s₂.piecewise w v, fun x hx => Set.piecewise_eq_of_notMem s₂ w v hx, depends ?_⟩
    intro x hx
    by_cases inside : x ∈ s₂
    · exact (Set.piecewise_eq_of_mem s₂ w v inside).symm
    · have outside : x ∉ s₁ := fun h => inside ((same x hx).1 h)
      exact (hw x outside).trans (Set.piecewise_eq_of_notMem s₂ w v inside).symm
  apply over_transfer
  · intro w hw
    rcases repeated s s' same w hw with ⟨u, hu, equal⟩
    exact ⟨u, hu, iff_of_eq equal⟩
  · intro u hu
    rcases repeated s' s (fun x hx => (same x hx).symm) u hu with ⟨w, hw, equal⟩
    exact ⟨w, hw, iff_of_eq equal.symm⟩

open scoped Classical in
/-- A quantified property does not depend on the variables that are quantified. -/
theorem dependsOn_over (depends : DependsOn p t) : DependsOn (q.Over s p) (t \ s) := by
  -- a change of one valuation is made to the other one as well
  have carried : ∀ v w : Valuation D, (∀ x ∈ t \ s, v x = w x) →
      ∀ u, (∀ x ∉ s, u x = v x) → ∃ u', (∀ x ∉ s, u' x = w x) ∧ p u = p u' := by
    intro v w same u hu
    refine ⟨s.piecewise u w, fun x hx => Set.piecewise_eq_of_notMem s u w hx, depends ?_⟩
    intro x hx
    by_cases inside : x ∈ s
    · exact (Set.piecewise_eq_of_mem s u w inside).symm
    · calc
        u x = v x := hu x inside
        _ = w x := same x ⟨hx, inside⟩
        _ = s.piecewise u w x := (Set.piecewise_eq_of_notMem s u w inside).symm
  intro v w same
  apply propext
  apply over_transfer
  · intro u hu
    rcases carried v w same u hu with ⟨u', hu', equal⟩
    exact ⟨u', hu', iff_of_eq equal⟩
  · intro u' hu'
    rcases carried w v (fun x hx => (same x hx).symm) u' hu' with ⟨u, hu, equal⟩
    exact ⟨u, hu, iff_of_eq equal.symm⟩

open scoped Classical in
/-- Quantified variables may be renamed, if no two variables that can be seen become one and the
others keep the name that they have outside. -/
theorem over_rename {ρ σ : Ident → Ident} (depends : DependsOn p t)
    (apart : ∀ x ∈ t, ∀ y ∈ s, σ x = σ y → x = y) (outside : ∀ x ∈ t, x ∉ s → σ x = ρ x) :
    q.Over (σ '' s) (fun w => p fun x => w (σ x)) v ↔ q.Over s p fun x => v (ρ x) := by
  have unseen : ∀ x ∈ t, x ∉ s → σ x ∉ σ '' s := by
    rintro x hx hs ⟨y, hy, same⟩
    exact hs (apart x hx y hy same.symm ▸ hy)
  apply over_transfer
  · intro w hw
    refine ⟨s.piecewise (w ∘ σ) (v ∘ ρ), fun x hx => Set.piecewise_eq_of_notMem s _ _ hx,
      iff_of_eq (depends fun x hx => ?_)⟩
    by_cases inside : x ∈ s
    · exact (Set.piecewise_eq_of_mem s (w ∘ σ) (v ∘ ρ) inside).symm
    · calc
        w (σ x) = v (σ x) := hw _ (unseen x hx inside)
        _ = v (ρ x) := congrArg v (outside x hx inside)
        _ = _ := (Set.piecewise_eq_of_notMem s (w ∘ σ) (v ∘ ρ) inside).symm
  · intro u hu
    -- a renamed variable gets the value of the variable that it stands for
    refine ⟨fun y => if h : y ∈ σ '' s then u h.choose else v y, fun y hy => dif_neg hy,
      iff_of_eq (depends fun x hx => ?_)⟩
    by_cases inside : x ∈ s
    · have image : σ x ∈ σ '' s := ⟨x, inside, rfl⟩
      have source := apart x hx image.choose image.choose_spec.1 image.choose_spec.2.symm
      exact (dif_pos image).trans (congrArg u source.symm)
    · calc
        _ = v (σ x) := dif_neg (unseen x hx inside)
        _ = v (ρ x) := congrArg v (outside x hx inside)
        _ = u x := (hu x inside).symm

end Classical

end Quantifier

/-! ## Quantifiers in front of connectives -/

section Pooling

variable {as : List α} {p : α → Valuation D → Prop} {s t : α → Set Ident} {U : Set Ident}
  {v : Valuation D}

open scoped Classical in
theorem exist_over_joins {c : Connective} (depends : ∀ a ∈ as, DependsOn (p a) (t a))
    (union : ∀ x, x ∈ U ↔ ∃ a ∈ as, x ∈ s a)
    (apart : ∀ a ∈ as, ∀ b ∈ as, ∀ x ∈ s b, x ∈ t a → a = b) :
    Quantifier.Over .exist U (fun w => c.Joins as fun a => p a w) v ↔
      c.Joins as fun a => Quantifier.Over .exist (s a) (p a) v := by
  -- what is quantified for the other members does not matter for this one
  have own : ∀ a ∈ as, (Quantifier.Over .exist U (p a) v ↔
      Quantifier.Over .exist (s a) (p a) v) := by
    intro a ha
    refine Quantifier.over_congr_set (depends a ha) fun x hx => ⟨fun h => ?_, fun h => ?_⟩
    · rcases (union x).1 h with ⟨b, hb, hxb⟩
      exact apart a ha b hb x hxb hx ▸ hxb
    · exact (union x).2 ⟨a, ha, h⟩
  cases c with
  | or =>
    calc
      _ ↔ ∃ a ∈ as, Quantifier.Over .exist U (p a) v := by
        constructor
        · rintro ⟨w, hw, a, ha, holds⟩
          exact ⟨a, ha, w, hw, holds⟩
        · rintro ⟨a, ha, w, hw, holds⟩
          exact ⟨w, hw, a, ha, holds⟩
      _ ↔ _ := exists_congr fun a => and_congr_right (own a)
  | and =>
    constructor
    · rintro ⟨w, hw, holds⟩ a ha
      exact (own a ha).1 ⟨w, hw, holds a ha⟩
    · intro each
      have inhabited : Nonempty (Valuation D) := ⟨v⟩
      choose! w hw holds using each
      -- every variable takes its value from the one member that binds it
      let joint : Valuation D := fun x =>
        if h : ∃ a ∈ as, x ∈ s a ∧ x ∈ t a then w h.choose x else v x
      refine ⟨joint, ?_, fun a ha => ?_⟩
      · intro x hx
        have unbound : ¬ ∃ a ∈ as, x ∈ s a ∧ x ∈ t a := fun ⟨a, ha, h, _⟩ =>
          hx ((union x).2 ⟨a, ha, h⟩)
        exact dif_neg unbound
      · have seen : p a (w a) = p a joint := by
          refine depends a ha fun x hx => ?_
          by_cases bound : ∃ b ∈ as, x ∈ s b ∧ x ∈ t b
          · have found := bound.choose_spec
            have same : a = bound.choose := apart a ha _ found.1 x found.2.1 hx
            calc
              w a x = w bound.choose x := congrArg (w · x) same
              _ = joint x := by simp only [joint, dif_pos bound]
          · have outside : x ∉ s a := fun h => bound ⟨a, ha, h, hx⟩
            calc
              w a x = v x := hw a ha x outside
              _ = joint x := by simp only [joint, dif_neg bound]
        exact seen.mp (holds a ha)

/-- A quantifier over the variables of all members stands for one quantifier at each member, if no
variable of a member is one that the property of another member depends on. -/
theorem over_joins {q : Quantifier} {c : Connective} (depends : ∀ a ∈ as, DependsOn (p a) (t a))
    (union : ∀ x, x ∈ U ↔ ∃ a ∈ as, x ∈ s a)
    (apart : ∀ a ∈ as, ∀ b ∈ as, ∀ x ∈ s b, x ∈ t a → a = b) :
    q.Over U (fun w => c.Joins as fun a => p a w) v ↔
      c.Joins as fun a => q.Over (s a) (p a) v := by
  cases q with
  | exist => exact exist_over_joins depends union apart
  | forAll =>
    -- the negations of both sides are quantified existentially
    have depends' : ∀ a ∈ as, DependsOn (fun w => ¬ p a w) (t a) := fun a ha v w same =>
      congrArg Not (depends a ha same)
    have negated := exist_over_joins (v := v) (c := c.dual) depends' union apart
    rw [← not_iff_not, Quantifier.not_over, Connective.not_joins]
    calc
      _ ↔ Quantifier.Over .exist U (fun w => c.dual.Joins as fun a => ¬ p a w) v :=
        Quantifier.over_congr fun w => Connective.not_joins
      _ ↔ c.dual.Joins as fun a => Quantifier.Over .exist (s a) (fun w => ¬ p a w) v := negated
      _ ↔ c.dual.Joins as fun a => ¬ Quantifier.Over .forAll (s a) (p a) v :=
        Connective.joins_congr fun a _ => (Quantifier.not_over (q := .forAll)).symm

end Pooling

end QueryCalculus
