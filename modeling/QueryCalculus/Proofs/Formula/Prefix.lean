import QueryCalculus.Proofs.Formula.RenamingApart

/-!
# Quantifiers in front of a formula

- `boundAs` : the variables that are bound existentially or universally, with regard to negations
- `matrix` : a formula without its quantifiers
- `ordered` : no quantifier of one kind stands inside of one of the other kind
- `Prefixed` : the matrix with all quantifiers of one kind in front of those of the other kind
- `prefixed_below` : existential quantifiers in front make a formula stronger, universal ones make
  it weaker, and the meaning stays the same if they are ordered that way already
-/

namespace QueryCalculus

universe u

variable {α : Type*} {D : Type u}

/-! ## Stronger and weaker statements -/

namespace Quantifier

/-- Existential quantifiers in front make a statement stronger, universal ones make it weaker. -/
def Below (q : Quantifier) (a b : Prop) : Prop :=
  match q with
  | .exist => a → b
  | .forAll => b → a

variable {q r : Quantifier} {a b c : Prop}

theorem below_of_iff (h : a ↔ b) : q.Below a b := by
  cases q with
  | exist => exact h.1
  | forAll => exact h.2

theorem below_congr {a' b' : Prop} (ha : a ↔ a') (hb : b ↔ b') : q.Below a b ↔ q.Below a' b' := by
  cases q with
  | exist => exact imp_congr ha hb
  | forAll => exact imp_congr hb ha

theorem Below.trans (hab : q.Below a b) (hbc : q.Below b c) : q.Below a c := by
  cases q with
  | exist => exact fun h => hbc (hab h)
  | forAll => exact fun h => hab (hbc h)

theorem Below.not (h : q.dual.Below a b) : q.Below (¬ a) (¬ b) := by
  cases q with
  | exist => exact fun ha hb => ha (h hb)
  | forAll => exact fun hb ha => hb (h ha)

theorem below_joins {k : Connective} {as : List α} {p p' : α → Prop}
    (each : ∀ a ∈ as, q.Below (p a) (p' a)) : q.Below (k.Joins as p) (k.Joins as p') := by
  cases q <;> cases k
  · exact fun all a ha => each a ha (all a ha)
  · exact fun ⟨a, ha, h⟩ => ⟨a, ha, each a ha h⟩
  · exact fun all a ha => each a ha (all a ha)
  · exact fun ⟨a, ha, h⟩ => ⟨a, ha, each a ha h⟩

variable {s t : Set Ident} {p p' : Valuation D → Prop} {v : Valuation D}

theorem below_over (each : ∀ w, q.Below (p w) (p' w)) : q.Below (r.Over s p v) (r.Over s p' v) := by
  cases q <;> cases r
  · exact fun ⟨w, hw, h⟩ => ⟨w, hw, each w h⟩
  · exact fun all w hw => each w (all w hw)
  · exact fun ⟨w, hw, h⟩ => ⟨w, hw, each w h⟩
  · exact fun all w hw => each w (all w hw)

open scoped Classical in
/-- A choice that is made for all values at once can be made for each of them. -/
theorem exist_over_forAll (h : Over .exist s (Over .forAll t p) v) :
    Over .forAll t (Over .exist s p) v := by
  rcases h with ⟨w, hw, all⟩
  intro u hu
  refine ⟨s.piecewise w u, fun x hx => Set.piecewise_eq_of_notMem s w u hx, all _ fun x hx => ?_⟩
  by_cases inside : x ∈ s
  · exact Set.piecewise_eq_of_mem s w u inside
  · calc
      s.piecewise w u x = u x := Set.piecewise_eq_of_notMem s w u inside
      _ = v x := hu x hx
      _ = w x := (hw x inside).symm

theorem below_swap : q.Below (q.Over s (q.dual.Over t p) v) (q.dual.Over t (q.Over s p) v) := by
  cases q with
  | exist => exact exist_over_forAll
  | forAll => exact exist_over_forAll

theorem not_over_over :
    ¬ q.Over s (q.dual.Over t p) v ↔ q.dual.Over s (q.Over t fun w => ¬ p w) v := by
  calc
    _ ↔ q.dual.Over s (fun w => ¬ q.dual.Over t p w) v := not_over
    _ ↔ q.dual.Over s (q.dual.dual.Over t fun w => ¬ p w) v := over_congr fun w => not_over
    _ ↔ _ := by rw [dual_dual]

theorem dual_ne (q : Quantifier) : q.dual ≠ q := by
  cases q <;> exact Quantifier.noConfusion

theorem eq_or_eq_dual (r q : Quantifier) : r = q ∨ r = q.dual := by
  cases r <;> cases q <;> simp [dual]

end Quantifier

namespace Formula

/-! ## Quantifiers and matrix -/

mutual

/-- The variables that are bound by `q`, or by its dual under an odd number of negations. -/
def boundAs : Formula → Quantifier → List Ident
  | .atom _, _ => []
  | .junction _ parts, q => boundAsAll parts q
  | .neg body, q => body.boundAs q.dual
  | .quant r vars body, q => (if r = q then vars.idents else []) ++ body.boundAs q

def boundAsAll : List Formula → Quantifier → List Ident
  | [], _ => []
  | f :: fs, q => f.boundAs q ++ boundAsAll fs q

end

theorem boundAsAll_eq_flatMap (fs : List Formula) (q : Quantifier) :
    boundAsAll fs q = fs.flatMap (boundAs · q) := by
  induction fs with
  | nil => rfl
  | cons f fs ih => simp [boundAsAll, ih]

mutual

/-- The formula without its quantifiers. -/
def matrix : Formula → Formula
  | .atom a => .atom a
  | .junction c parts => .junction c (matrixAll parts)
  | .neg body => .neg body.matrix
  | .quant _ _ body => body.matrix

def matrixAll : List Formula → List Formula
  | [] => []
  | f :: fs => f.matrix :: matrixAll fs

end

theorem matrixAll_eq_map (fs : List Formula) : matrixAll fs = fs.map matrix := by
  induction fs with
  | nil => rfl
  | cons f fs ih => simp [matrixAll, ih]

mutual

/-- No quantifier that acts as `q` stands inside of one that acts as its dual. Quantifiers without
variables do not count. -/
def ordered : Formula → Quantifier → Bool
  | .atom _, _ => true
  | .junction _ parts, q => orderedAll parts q
  | .neg body, q => body.ordered q.dual
  | .quant r vars body, q =>
    body.ordered q && (r == q || vars.isEmpty || (body.boundAs q).isEmpty)

def orderedAll : List Formula → Quantifier → Bool
  | [], _ => true
  | f :: fs, q => f.ordered q && orderedAll fs q

end

theorem orderedAll_eq_all (fs : List Formula) (q : Quantifier) :
    orderedAll fs q = fs.all (ordered · q) := by
  induction fs with
  | nil => rfl
  | cons f fs ih => simp [orderedAll, ih]

variable {f : Formula} {q : Quantifier} {x : Ident}

theorem mem_boundAs_junction {c : Connective} {parts : List Formula} :
    x ∈ (junction c parts).boundAs q ↔ ∃ f ∈ parts, x ∈ f.boundAs q := by
  rw [boundAs, boundAsAll_eq_flatMap, List.mem_flatMap]

theorem mem_boundAs_quant {r : Quantifier} {vars : VarSet} {body : Formula} :
    x ∈ (quant r vars body).boundAs q ↔ r = q ∧ x ∈ vars ∨ x ∈ body.boundAs q := by
  rw [boundAs, List.mem_append]
  by_cases same : r = q
  · simp [same, VarSet.mem_idents]
  · simp [same]

theorem boundAs_quant_of_ne {r : Quantifier} {vars : VarSet} {body : Formula} (different : r ≠ q) :
    (quant r vars body).boundAs q = body.boundAs q := by
  rw [boundAs, if_neg different, List.nil_append]

theorem setOf_boundAs_quant {vars : VarSet} {body : Formula} :
    {x | x ∈ (quant q vars body).boundAs q} = {x | x ∈ vars} ∪ {x | x ∈ body.boundAs q} := by
  ext x
  exact mem_boundAs_quant.trans (or_congr_left (and_iff_right rfl))

theorem mem_binders_of_boundAs (h : x ∈ f.boundAs q) : x ∈ f.binders := by
  induction f generalizing q with
  | atom a => exact h
  | junction c parts ih =>
    rcases mem_boundAs_junction.1 h with ⟨f, hf, hx⟩
    exact mem_binders_junction.2 ⟨f, hf, ih f hf hx⟩
  | neg body ih => exact ih h
  | quant r vars body ih =>
    exact mem_binders_quant.2 ((mem_boundAs_quant.1 h).imp (fun bound => bound.2) ih)

/-- Without quantifiers the bound variables become unbound. -/
theorem unbound_of_matrix (h : Unbound x f.matrix) : x ∈ f.binders ∨ Unbound x f := by
  induction f with
  | atom a => exact .inr h
  | junction c parts ih =>
    rw [matrix, matrixAll_eq_map, unbound_junction] at h
    rcases h with ⟨_, hg, hx⟩
    rcases List.mem_map.1 hg with ⟨f, hf, rfl⟩
    exact (ih f hf hx).imp (fun hx => mem_binders_junction.2 ⟨f, hf, hx⟩) (.part hf)
  | neg body ih => exact (ih (unbound_neg.1 h)).imp_right .neg
  | quant r vars body ih =>
    by_cases bound : x ∈ vars
    · exact .inl (mem_binders_quant.2 (.inl bound))
    · exact (ih h).imp (fun hx => mem_binders_quant.2 (.inr hx)) (.quant bound)

/-! ## All quantifiers in front -/

/-- The matrix, with the quantifiers that act as `q` in front of those that act as its dual. -/
def Prefixed (q : Quantifier) (M : Interpretation D) (f : Formula) (v : Valuation D) : Prop :=
  q.Over {x | x ∈ f.boundAs q} (q.dual.Over {x | x ∈ f.boundAs q.dual} (f.matrix.Holds M)) v

variable {M : Interpretation D} {v : Valuation D}

theorem prefixed_atom (a : Atom) : Prefixed q M (.atom a) v ↔ (Formula.atom a).Holds M v :=
  (Quantifier.over_of_empty fun _ => List.not_mem_nil).trans
    (Quantifier.over_of_empty fun _ => List.not_mem_nil)

/-- No part of a junction binds a variable that occurs in another part, so all quantifiers can be
taken out of the parts, one kind after the other. -/
theorem prefixed_junction {c : Connective} {parts : List Formula}
    (apart : (junction c parts).BoundApart) :
    Prefixed q M (.junction c parts) v ↔ c.Joins parts fun f => Prefixed q M f v := by
  have depends : ∀ f ∈ parts, DependsOn (f.matrix.Holds M) {x | Unbound x f.matrix} :=
    fun f _ => dependsOn_holds f.matrix
  -- a variable that one part binds does not occur in another one
  have own : ∀ r, ∀ f ∈ parts, ∀ g ∈ parts, ∀ x ∈ {x | x ∈ g.boundAs r},
      x ∈ {x | Unbound x f.matrix} → f = g := by
    intro r f hf g hg x bound occurs
    have hx : x ∈ g.binders := mem_binders_of_boundAs bound
    rcases unbound_of_matrix occurs with here | unbound
    · exact apart.eq_of_mem hf hg here hx
    · exact absurd (Unbound.part hf unbound) (apart.disjoint x (mem_binders_junction.2 ⟨g, hg, hx⟩))
  have inner : ∀ w, q.dual.Over {x | x ∈ (junction c parts).boundAs q.dual}
      ((junction c parts).matrix.Holds M) w ↔ c.Joins parts fun f =>
        q.dual.Over {x | x ∈ f.boundAs q.dual} (f.matrix.Holds M) w := by
    intro w
    have parted : ∀ w, (junction c parts).matrix.Holds M w ↔
        c.Joins parts fun f => f.matrix.Holds M w := by
      intro w
      rw [matrix, matrixAll_eq_map, holds_junction, Connective.joins_map]
    calc
      _ ↔ q.dual.Over {x | x ∈ (junction c parts).boundAs q.dual}
            (fun w => c.Joins parts fun f => f.matrix.Holds M w) w := Quantifier.over_congr parted
      _ ↔ _ := over_joins depends (fun _ => mem_boundAs_junction) (own q.dual)
  calc
    _ ↔ q.Over {x | x ∈ (junction c parts).boundAs q} (fun w => c.Joins parts fun f =>
          q.dual.Over {x | x ∈ f.boundAs q.dual} (f.matrix.Holds M) w) v :=
      Quantifier.over_congr inner
    _ ↔ _ := by
      refine over_joins (t := fun f => {x | Unbound x f.matrix}) (fun f hf => ?_)
        (fun _ => mem_boundAs_junction) (own q)
      have quantified := Quantifier.dependsOn_over (q := q.dual) (s := {x | x ∈ f.boundAs q.dual})
        (depends f hf)
      exact fun v w same => quantified fun x hx => same x hx.1

theorem prefixed_neg {body : Formula} :
    Prefixed q M (.neg body) v ↔ ¬ Prefixed q.dual M body v := by
  cases q with
  | exist => exact (Quantifier.not_over_over (q := .forAll)).symm
  | forAll => exact (Quantifier.not_over_over (q := .exist)).symm

/-- A quantifier of the kind that comes first is in front already. -/
theorem prefixed_quant {vars : VarSet} {body : Formula} :
    Prefixed q M (.quant q vars body) v ↔ q.Over {x | x ∈ vars} (Prefixed q M body) v := by
  rw [Prefixed, setOf_boundAs_quant, boundAs_quant_of_ne (q.dual_ne.symm)]
  exact Quantifier.over_over.symm

/-- A quantifier of the other kind is passed by those that come first. -/
theorem prefixed_quant_dual {vars : VarSet} {body : Formula} :
    Prefixed q M (.quant q.dual vars body) v ↔
      q.Over {x | x ∈ body.boundAs q} (q.dual.Over {x | x ∈ vars}
        (q.dual.Over {x | x ∈ body.boundAs q.dual} (body.matrix.Holds M))) v := by
  rw [Prefixed, setOf_boundAs_quant, boundAs_quant_of_ne q.dual_ne]
  exact Quantifier.over_congr fun w => Quantifier.over_over.symm

/-- It stays where it is, if there is nothing to pass it or nothing to be passed. -/
theorem prefixed_quant_dual_iff {vars : VarSet} {body : Formula}
    (vacuous : (vars.isEmpty || (body.boundAs q).isEmpty) = true) :
    Prefixed q M (.quant q.dual vars body) v ↔
      q.dual.Over {x | x ∈ vars} (Prefixed q M body) v := by
  rw [prefixed_quant_dual]
  rw [Bool.or_eq_true, VarSet.isEmpty_iff, List.isEmpty_iff] at vacuous
  rcases vacuous with none | none
  · calc
      _ ↔ Prefixed q M body v :=
        Quantifier.over_congr fun w => Quantifier.over_of_empty (s := {x | x ∈ vars}) none
      _ ↔ _ := (Quantifier.over_of_empty (s := {x | x ∈ vars}) none).symm
  · have absent : ∀ x, x ∉ {x | x ∈ body.boundAs q} := fun x hx => by
      rw [none] at hx
      exact List.not_mem_nil hx
    calc
      _ ↔ q.dual.Over {x | x ∈ vars}
            (q.dual.Over {x | x ∈ body.boundAs q.dual} (body.matrix.Holds M)) v :=
        Quantifier.over_of_empty absent
      _ ↔ _ := Quantifier.over_congr fun w => (Quantifier.over_of_empty absent).symm

/-- Moving the quantifiers to the front makes a formula stronger or weaker, and keeps its meaning if
they are in that order already. -/
theorem prefixed_below (apart : f.BoundApart) :
    q.Below (Prefixed q M f v) (f.Holds M v) ∧
      (f.ordered q = true → (Prefixed q M f v ↔ f.Holds M v)) := by
  induction f generalizing q v with
  | atom a => exact ⟨Quantifier.below_of_iff (prefixed_atom a), fun _ => prefixed_atom a⟩
  | junction c parts ih =>
    have each : ∀ f ∈ parts, q.Below (Prefixed q M f v) (f.Holds M v) ∧
        (f.ordered q = true → (Prefixed q M f v ↔ f.Holds M v)) := fun f hf =>
      ih f hf (apart.part hf)
    constructor
    · rw [Quantifier.below_congr (prefixed_junction apart) holds_junction]
      exact Quantifier.below_joins fun f hf => (each f hf).1
    · intro order
      rw [ordered, orderedAll_eq_all, List.all_eq_true] at order
      calc
        _ ↔ c.Joins parts fun f => Prefixed q M f v := prefixed_junction apart
        _ ↔ c.Joins parts fun f => f.Holds M v :=
          Connective.joins_congr fun f hf => (each f hf).2 (order f hf)
        _ ↔ _ := holds_junction.symm
  | neg body ih =>
    -- below a negation the quantifiers of the other kind are in front
    have inner := ih (q := q.dual) (v := v) apart.neg
    constructor
    · exact (Quantifier.below_congr prefixed_neg Iff.rfl).2 inner.1.not
    · exact fun order => prefixed_neg.trans (not_congr (inner.2 order))
  | quant r vars body ih =>
    have inner : ∀ w, q.Below (Prefixed q M body w) (body.Holds M w) ∧
        (body.ordered q = true → (Prefixed q M body w ↔ body.Holds M w)) := fun w => ih apart.body
    have outer : q.Below (r.Over {x | x ∈ vars} (Prefixed q M body) v)
        ((quant r vars body).Holds M v) :=
      (Quantifier.below_congr Iff.rfl holds_quant).2 (Quantifier.below_over fun w => (inner w).1)
    have kept : body.ordered q = true →
        (r.Over {x | x ∈ vars} (Prefixed q M body) v ↔ (quant r vars body).Holds M v) :=
      fun order => (Quantifier.over_congr fun w => (inner w).2 order).trans holds_quant.symm
    -- only a quantifier of the second kind changes places, with those of the first kind in its body
    rcases Quantifier.eq_or_eq_dual r q with rfl | rfl
    · constructor
      · exact (Quantifier.below_congr prefixed_quant Iff.rfl).2 outer
      · intro order
        rw [ordered, Bool.and_eq_true] at order
        exact prefixed_quant.trans (kept order.1)
    · constructor
      · rw [Quantifier.below_congr prefixed_quant_dual Iff.rfl]
        exact Quantifier.below_swap.trans outer
      · intro order
        rw [ordered, Bool.and_eq_true, beq_false_of_ne q.dual_ne, Bool.false_or] at order
        exact (prefixed_quant_dual_iff order.2).trans (kept order.1)

end Formula
end QueryCalculus
