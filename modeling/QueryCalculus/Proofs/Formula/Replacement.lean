import QueryCalculus.Formula.Substitution
import QueryCalculus.Proofs.Substitution

/-!
# Substitution in formulas

- `VarSet.mem_replace` : what a quantifier binds after a substitution
- `Substitution.Avoids` : none of the listed variables is replaced or brought in
- `Formula.holdsBy_replace_iff` : if the quantifiers are avoided, truth after a substitution is
  truth under the values of the new terms, whatever the atoms mean
- `Formula.unbound_replace_iff`, `Formula.mem_free_replace_iff` : the unbound and the free variables
  after a substitution
- `Formula.replace_holds_iff` : all this for both readings of blanks

A substitution enters quantifiers and is applied to their variables as well. So a variable may be
captured, two bound variables may become one, and one that a constant replaces is not bound any
more. Nothing of this happens where the quantifiers are avoided.
-/

namespace QueryCalculus

universe u

/-! ## Bound variables -/

/-- A variable is bound in place of another one as it would be replaced in an atom. -/
theorem Substitution.applyBound?_eq (σ : Substitution) (x : Variable) :
    σ.applyBound? x = (σ.apply (.var x)).var? := by
  unfold Substitution.applyBound?
  cases found : σ.find? x with
  | none => rw [Substitution.apply_var_of_none found, Term.var?]
  | some t => rw [Substitution.apply_var_of_some found]

namespace VarSet

variable {σ : Substitution} {vars : VarSet} {z : Ident}

theorem mem_replace :
    z ∈ vars.replace σ ↔ ∃ x : Variable, x.toIdent ∈ vars ∧ (σ.apply (.var x)).key = .var z := by
  rw [replace, mem_ofList]
  constructor
  · rintro ⟨y, listed, rfl⟩
    rcases List.mem_filterMap.1 listed with ⟨x, hx, applied⟩
    rw [Substitution.applyBound?_eq, Term.var?_eq_some_iff] at applied
    exact ⟨x, toIdent_mem hx, congrArg Term.key applied⟩
  · rintro ⟨x, hx, image⟩
    -- the set keeps some occurrence of the variable, which is replaced by an equal term
    rcases mem_iff.1 hx with ⟨x', hx', same⟩
    have keys : (Term.var x').key = (Term.var x).key := congrArg Term.Key.var same
    have image' : (σ.apply (.var x')).key = .var z :=
      (Substitution.key_apply_congr keys).trans image
    rcases Term.exists_var_of_key image' with ⟨y, applied, name⟩
    refine ⟨y, List.mem_filterMap.2 ⟨x', hx', ?_⟩, name⟩
    rw [Substitution.applyBound?_eq, Term.var?_eq_some_iff]
    exact applied

end VarSet

/-! ## Quantifiers that are avoided -/

namespace Substitution

/-- None of the variables is replaced, and none is brought in. -/
structure Avoids (σ : Substitution) (xs : List Ident) : Prop where
  replaced : ∀ x t, σ.find? x = some t → x.toIdent ∉ xs
  brought : ∀ x y, σ.find? x = some (.var y) → y.toIdent ∉ xs

variable {D : Type u} {M : Interpretation D} {v w : Valuation D} {σ : Substitution}
  {xs ys : List Ident} {x : Variable} {z : Ident}

theorem Avoids.of_mem
    (each : ∀ p ∈ σ, p.1.toIdent ∉ xs ∧ ∀ y ∈ p.2.var?, y.toIdent ∉ xs) : σ.Avoids xs where
  replaced x t found := by
    rcases mem_of_find? found with ⟨y, listed, same⟩
    exact same ▸ (each _ listed).1
  brought x z found := by
    rcases mem_of_find? found with ⟨y, listed, -⟩
    exact (each _ listed).2 z rfl

theorem Avoids.mono (avoids : σ.Avoids xs) (fewer : ys ⊆ xs) : σ.Avoids ys where
  replaced x t found listed := avoids.replaced x t found (fewer listed)
  brought x y found listed := avoids.brought x y found (fewer listed)

theorem Avoids.find?_eq_none (avoids : σ.Avoids xs) (listed : x.toIdent ∈ xs) :
    σ.find? x = none := by
  cases found : σ.find? x with
  | none => rfl
  | some t => exact absurd listed (avoids.replaced x t found)

/-- A variable is replaced by one that is avoided only if it is this variable itself. -/
theorem Avoids.mem_iff_of_key (avoids : σ.Avoids xs) (image : (σ.apply (.var x)).key = .var z) :
    z ∈ xs ↔ x.toIdent ∈ xs := by
  cases found : σ.find? x with
  | none =>
    rw [apply_var_of_none found] at image
    cases image
    exact Iff.rfl
  | some t =>
    rw [apply_var_of_some found] at image
    rcases Term.exists_var_of_key image with ⟨y, rfl, rfl⟩
    exact iff_of_false (avoids.brought x y found) (avoids.replaced x _ found)

theorem Avoids.mem_replace {vars : VarSet} (avoids : σ.Avoids vars.idents) :
    z ∈ vars.replace σ ↔ z ∈ vars := by
  rw [VarSet.mem_replace]
  constructor
  · rintro ⟨x, hx, image⟩
    exact (avoids.mem_iff_of_key image).2 hx
  · intro hz
    rcases VarSet.mem_iff.1 hz with ⟨x, hx, rfl⟩
    have listed : x.toIdent ∈ vars := VarSet.toIdent_mem hx
    have kept := apply_var_of_none (avoids.find?_eq_none listed)
    exact ⟨x, listed, congrArg Term.key kept⟩

/-- A change of variables that are not brought in cannot be seen elsewhere. -/
theorem Avoids.valuation_eq (avoids : σ.Avoids xs) (same : ∀ z ∉ xs, w z = v z) :
    ∀ z ∉ xs, σ.valuation M w z = σ.valuation M v z := by
  intro z outside
  rcases Variable.exists_toIdent z with ⟨x, rfl⟩
  cases found : σ.find? x with
  | none =>
    calc
      σ.valuation M w x.toIdent = w x.toIdent := valuation_of_none found
      _ = v x.toIdent := same _ outside
      _ = σ.valuation M v x.toIdent := (valuation_of_none found).symm
  | some t =>
    have values : t.value M w = t.value M v :=
      Formula.value_congr fun y var => same _ (avoids.brought x y (var ▸ found))
    calc
      σ.valuation M w x.toIdent = t.value M w := valuation_of_some found
      _ = t.value M v := values
      _ = σ.valuation M v x.toIdent := (valuation_of_some found).symm

open scoped Classical in
/-- Changing the avoided variables and taking the values of the new terms can be done in any
order. -/
theorem Avoids.over_valuation (avoids : σ.Avoids xs) {q : Quantifier} {p : Valuation D → Prop} :
    q.Over {z | z ∈ xs} (fun w => p (σ.valuation M w)) v ↔
      q.Over {z | z ∈ xs} p (σ.valuation M v) := by
  apply Quantifier.over_transfer
  · intro w same
    exact ⟨σ.valuation M w, avoids.valuation_eq same, Iff.rfl⟩
  · intro w' same
    -- the avoided variables take their values from `w'`, and no other values change
    let w : Valuation D := fun z => if z ∈ xs then w' z else v z
    have outside : ∀ z ∉ xs, w z = v z := fun z hz => if_neg hz
    have values : σ.valuation M w = w' := by
      funext z
      by_cases listed : z ∈ xs
      · rcases Variable.exists_toIdent z with ⟨x, rfl⟩
        calc
          σ.valuation M w x.toIdent = w x.toIdent := valuation_of_none (avoids.find?_eq_none listed)
          _ = w' x.toIdent := if_pos listed
      · calc
          σ.valuation M w z = σ.valuation M v z := avoids.valuation_eq outside z listed
          _ = w' z := (same z listed).symm
    refine ⟨w, outside, ?_⟩
    rw [values]

end Substitution

namespace Formula

variable {D : Type u} {M : Interpretation D} {v : Valuation D} {σ : Substitution}

theorem replace_junction (σ : Substitution) (c : Connective) (parts : List Formula) :
    (junction c parts).replace σ = .junction c (parts.map (replace σ)) := by
  rw [replace, replaceAll_eq_map]

/-! ## Truth -/

/-- The meaning of atoms is a parameter: all that matters is that it goes along with the
substitution. -/
theorem holdsBy_replace_iff {sat : Atom → Valuation D → Prop}
    (atoms : ∀ a w, sat (a.mapTerms σ.apply) w ↔ sat a (σ.valuation M w)) {f : Formula}
    (avoids : σ.Avoids f.binders) :
    (f.replace σ).HoldsBy sat v ↔ f.HoldsBy sat (σ.valuation M v) := by
  induction f generalizing v with
  | atom a => exact atoms a v
  | junction c parts ih =>
    have each : ∀ f ∈ parts,
        ((f.replace σ).HoldsBy sat v ↔ f.HoldsBy sat (σ.valuation M v)) := by
      intro f hf
      exact ih f hf (avoids.mono fun x hx => mem_binders_junction.2 ⟨f, hf, hx⟩)
    calc
      ((junction c parts).replace σ).HoldsBy sat v
        ↔ c.Joins (parts.map (replace σ)) fun g => g.HoldsBy sat v :=
          replace_junction σ c parts ▸ holdsBy_junction
      _ ↔ c.Joins parts fun f => (f.replace σ).HoldsBy sat v := Connective.joins_map
      _ ↔ c.Joins parts fun f => f.HoldsBy sat (σ.valuation M v) := Connective.joins_congr each
      _ ↔ (junction c parts).HoldsBy sat (σ.valuation M v) := holdsBy_junction.symm
  | neg body ih => exact not_congr (ih avoids)
  | quant q vars body ih =>
    -- no bound variable is replaced or brought in, so that the quantifier is over the same
    -- variables
    have outer : σ.Avoids vars.idents := avoids.mono (List.subset_append_left _ _)
    have inner : σ.Avoids body.binders := avoids.mono (List.subset_append_right _ _)
    have bound : {z | z ∈ vars.replace σ} = {z | z ∈ vars.idents} :=
      Set.ext fun z => outer.mem_replace
    calc
      ((quant q vars body).replace σ).HoldsBy sat v
        ↔ q.Over {z | z ∈ vars.replace σ} ((body.replace σ).HoldsBy sat) v := holdsBy_quant
      _ ↔ q.Over {z | z ∈ vars.idents} (fun w => body.HoldsBy sat (σ.valuation M w)) v :=
        bound ▸ Quantifier.over_congr fun w => ih inner
      _ ↔ q.Over {z | z ∈ vars.idents} (body.HoldsBy sat) (σ.valuation M v) :=
        outer.over_valuation
      _ ↔ (quant q vars body).HoldsBy sat (σ.valuation M v) := holdsBy_quant.symm

/-! ## Unbound variables -/

theorem unbound_replace_iff {f : Formula} (avoids : σ.Avoids f.binders) {z : Ident} :
    Unbound z (f.replace σ) ↔
      ∃ x : Variable, Unbound x.toIdent f ∧ (σ.apply (.var x)).key = .var z := by
  induction f with
  | atom a =>
    have terms : (a.mapTerms σ.apply).terms = a.terms.map σ.apply := a.terms_mapTerms σ.apply
    constructor
    · intro unbound
      rcases unbound_atom.1 unbound with ⟨y, hy, rfl⟩
      rw [terms] at hy
      rcases List.mem_map.1 hy with ⟨t, ht, applied⟩
      cases t with
      | var x => exact ⟨x, .atom ht rfl, congrArg Term.key applied⟩
      | const c => cases applied
    · rintro ⟨x, unbound, image⟩
      rcases unbound_atom.1 unbound with ⟨x', hx', same⟩
      have keys : (Term.var x').key = (Term.var x).key := congrArg Term.Key.var same
      rcases Term.exists_var_of_key ((Substitution.key_apply_congr keys).trans image)
        with ⟨y, applied, name⟩
      refine .atom ?_ name
      rw [terms]
      exact List.mem_map.2 ⟨.var x', hx', applied⟩
  | junction c parts ih =>
    have each : ∀ f ∈ parts, (Unbound z (f.replace σ) ↔
        ∃ x : Variable, Unbound x.toIdent f ∧ (σ.apply (.var x)).key = .var z) := by
      intro f hf
      exact ih f hf (avoids.mono fun x hx => mem_binders_junction.2 ⟨f, hf, hx⟩)
    rw [replace_junction, unbound_junction]
    constructor
    · rintro ⟨g, hg, unbound⟩
      rcases List.mem_map.1 hg with ⟨f, hf, rfl⟩
      rcases (each f hf).1 unbound with ⟨x, hx, image⟩
      exact ⟨x, .part hf hx, image⟩
    · rintro ⟨x, unbound, image⟩
      rcases unbound_junction.1 unbound with ⟨f, hf, hx⟩
      exact ⟨f.replace σ, List.mem_map_of_mem hf, (each f hf).2 ⟨x, hx, image⟩⟩
  | neg body ih =>
    have inner := ih avoids
    constructor
    · intro unbound
      rcases inner.1 (unbound_neg.1 unbound) with ⟨x, hx, image⟩
      exact ⟨x, .neg hx, image⟩
    · rintro ⟨x, unbound, image⟩
      exact .neg (inner.2 ⟨x, unbound_neg.1 unbound, image⟩)
  | quant q vars body ih =>
    have outer : σ.Avoids vars.idents := avoids.mono (List.subset_append_left _ _)
    have inner := ih (avoids.mono (List.subset_append_right _ _))
    -- a variable is bound here exactly if the one that takes its place is
    constructor
    · intro unbound
      rcases unbound_quant.1 unbound with ⟨unbound, free⟩
      rcases inner.1 unbound with ⟨x, hx, image⟩
      have outside : x.toIdent ∉ vars := fun bound =>
        free (outer.mem_replace.2 ((outer.mem_iff_of_key image).2 bound))
      exact ⟨x, .quant outside hx, image⟩
    · rintro ⟨x, unbound, image⟩
      rcases unbound_quant.1 unbound with ⟨hx, outside⟩
      refine .quant (fun bound => outside ?_) (inner.2 ⟨x, hx, image⟩)
      exact (outer.mem_iff_of_key image).1 (outer.mem_replace.1 bound)

/-- Blanks are never free, so it is asked that no blank is replaced or brought in. -/
theorem mem_free_replace_iff {f : Formula} (avoids : σ.Avoids f.binders) (named : σ.Named)
    {z : Variable} :
    z.toIdent ∈ (f.replace σ).free ↔
      z.toIdent ∈ f.free ∧ σ.find? z = none ∨
        ∃ x t, x.toIdent ∈ f.free ∧ σ.find? x = some t ∧ t.key = .var z.toIdent := by
  rw [mem_free_iff, unbound_replace_iff avoids]
  constructor
  · rintro ⟨⟨x, unbound, image⟩, visible⟩
    cases found : σ.find? x with
    | none =>
      rw [Substitution.apply_var_of_none found] at image
      have same : x.toIdent = z.toIdent := Term.Key.var.inj image
      exact .inl ⟨mem_free_iff.2 ⟨same ▸ unbound, visible⟩, Substitution.find?_congr same ▸ found⟩
    | some t =>
      rw [Substitution.apply_var_of_some found] at image
      have shown : x.name ≠ Variable.blankName := by
        simpa [Variable.isBlank] using named.replaced x t found
      exact .inr ⟨x, t, mem_free_iff.2 ⟨unbound, shown⟩, found, image⟩
  · rintro (⟨free, found⟩ | ⟨x, t, free, found, image⟩)
    · have kept := Substitution.apply_var_of_none found
      exact ⟨⟨z, (mem_free_iff.1 free).1, congrArg Term.key kept⟩, (mem_free_iff.1 free).2⟩
    · rcases Term.exists_var_of_key image with ⟨y, rfl, same⟩
      have shown : y.name ≠ Variable.blankName := by
        simpa [Variable.isBlank] using named.brought x y found
      have applied := Substitution.apply_var_of_some found
      refine ⟨⟨x, (mem_free_iff.1 free).1, (congrArg Term.key applied).trans image⟩, ?_⟩
      rwa [← congrArg Ident.name same]

/-- If no quantifier binds a variable that is replaced or brought in, then a formula after a
substitution is true exactly where the formula is true under the values of the new terms. If in
addition no blank is replaced or brought in, this is so for independent blanks as well, and the free
variables are those that are not replaced and the variables of the terms that replace the others. -/
theorem replace_holds_iff {f : Formula} {σ : Substitution} (avoids : σ.Avoids f.bound.idents) :
    (∀ (D : Type u) (M : Interpretation D) (v : Valuation D),
      (f.replace σ).Holds M v ↔ f.Holds M (σ.valuation M v)) ∧
    (σ.Named →
      (∀ (D : Type u) (M : Interpretation D) (v : Valuation D),
        (f.replace σ).HoldsApart M v ↔ f.HoldsApart M (σ.valuation M v)) ∧
      ∀ z : Variable, z.toIdent ∈ (f.replace σ).free ↔
        z.toIdent ∈ f.free ∧ σ.find? z = none ∨
          ∃ x t, x.toIdent ∈ f.free ∧ σ.find? x = some t ∧ t.key = .var z.toIdent) := by
  have avoids' : σ.Avoids f.binders := avoids.mono fun x hx => mem_bound.2 hx
  constructor
  · intro D M v
    exact holdsBy_replace_iff (fun a w => Substitution.holds_mapTerms_apply_iff) avoids'
  · intro named
    constructor
    · intro D M v
      apply holdsBy_replace_iff _ avoids'
      intro a w
      exact Substitution.holdsApart_mapTerms_apply_iff named
    · intro z
      exact mem_free_replace_iff avoids' named

/-- `∃ z (R(x, z) ∧ x = y)` -/
def linked : Formula :=
  .quant .exist (.ofList [{ name := "z" }]) (.junction .and [
    .predicate ⟨"R", [.var { name := "x" }, .var { name := "z" }], .undefined⟩,
    .equal (.var { name := "x" }) (.var { name := "y" })])

/-- `x` is replaced by `y`, and `y` by a constant. -/
def shifting : Substitution :=
  [({ name := "x" }, .var { name := "y" }), ({ name := "y" }, .const (.object "c"))]

theorem linked_replace_holds_iff :
    shifting.Avoids linked.bound.idents ∧ shifting.Named ∧
      (∀ (D : Type) (M : Interpretation D) (v : Valuation D),
        (linked.replace shifting).Holds M v ↔ linked.Holds M (shifting.valuation M v)) ∧
      ∃ z : Variable, z.name = "y" ∧ z.toIdent ∈ (linked.replace shifting).free := by
  have avoids : shifting.Avoids linked.bound.idents := .of_mem (by decide)
  have named : shifting.Named := .of_mem (by decide)
  have all := replace_holds_iff avoids
  refine ⟨avoids, named, all.1, { name := "y" }, rfl, ?_⟩
  exact ((all.2 named).2 _).2 (.inr ⟨{ name := "x" }, .var { name := "y" }, by decide, rfl, rfl⟩)

end Formula
end QueryCalculus
