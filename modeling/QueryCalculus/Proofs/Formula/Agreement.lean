import QueryCalculus.Proofs.Formula.FreeVariables
import QueryCalculus.Semantics

/-!
# What the truth of a formula depends on

- `holdsBy_congr` : on the values of its free variables, if this is so for atoms
- `holdsBy_iff_of_same` : not on which of two equal formulas is taken
- `holdsApart_congr`, `holdsApart_iff_of_same` : both for formulas with independent blanks
-/

namespace QueryCalculus

universe u

variable {D : Type u}

namespace Formula

/-! ## Values of the free variables -/

section HoldsBy

variable {sat : Atom → Valuation D → Prop}

/-- The valuation `u` on the bound variables and `w` on all others. -/
def rebind (vars : VarSet) (u w : Valuation D) : Valuation D :=
  fun x => if x ∈ vars then u x else w x

theorem agreeOutside_rebind (vars : VarSet) (u w : Valuation D) :
    AgreeOutside vars w (rebind vars u w) := by
  intro x hx
  simp [rebind, hx]

theorem rebind_eq_of_agree {q : Quantifier} {vars : VarSet} {body : Formula} {u v w : Valuation D}
    (same : ∀ x ∈ (Formula.quant q vars body).free, v x = w x) (hu : AgreeOutside vars v u) :
    ∀ x ∈ body.free, u x = rebind vars u w x := by
  intro x hx
  -- bound variables keep their values, all others take those of the other valuation
  by_cases bound : x ∈ vars
  · simp [rebind, bound]
  · have free : x ∈ (Formula.quant q vars body).free := mem_free_quant.2 ⟨hx, bound⟩
    calc
      u x = v x := hu x bound
      _ = w x := same x free
      _ = rebind vars u w x := by simp [rebind, bound]

theorem holdsBy_congr
    (localAtoms : ∀ a v w, (∀ x ∈ (Formula.atom a).free, v x = w x) → (sat a v ↔ sat a w))
    {f : Formula} {v w : Valuation D} (same : ∀ x ∈ f.free, v x = w x) :
    f.HoldsBy sat v ↔ f.HoldsBy sat w := by
  induction f generalizing v w with
  | atom a =>
    simp only [HoldsBy]
    exact localAtoms a v w same
  | junction c parts ih =>
    have each : ∀ f ∈ parts, (f.HoldsBy sat v ↔ f.HoldsBy sat w) := by
      intro f hf
      exact ih f hf fun x hx => same x (mem_free_junction.2 ⟨f, hf, hx⟩)
    cases c with
    | and =>
      simp only [HoldsBy, allHoldBy_iff]
      exact forall₂_congr each
    | or =>
      simp only [HoldsBy, someHoldsBy_iff]
      exact exists_congr fun f => and_congr_right (each f)
  | neg body ih =>
    simp only [HoldsBy]
    exact not_congr (ih fun x hx => same x (mem_free_neg.2 hx))
  | quant q vars body ih =>
    have same' : ∀ x ∈ (Formula.quant q vars body).free, w x = v x := fun x hx => (same x hx).symm
    cases q with
    | exist =>
      simp only [HoldsBy]
      -- a witness is rebuilt over the other valuation
      constructor
      · rintro ⟨u, hu, holds⟩
        exact ⟨rebind vars u w, agreeOutside_rebind vars u w,
          (ih (rebind_eq_of_agree same hu)).1 holds⟩
      · rintro ⟨u, hu, holds⟩
        exact ⟨rebind vars u v, agreeOutside_rebind vars u v,
          (ih (rebind_eq_of_agree same' hu)).1 holds⟩
    | forAll =>
      simp only [HoldsBy]
      constructor
      · intro all u hu
        exact (ih (rebind_eq_of_agree same' hu)).2 (all _ (agreeOutside_rebind vars u v))
      · intro all u hu
        exact (ih (rebind_eq_of_agree same hu)).2 (all _ (agreeOutside_rebind vars u w))

/-! ## Equal formulas -/

theorem agreeOutside_iff_of_beq {vars vars' : VarSet} (h : (vars == vars') = true)
    {v w : Valuation D} : AgreeOutside vars v w ↔ AgreeOutside vars' v w := by
  unfold AgreeOutside
  exact forall_congr' fun x => by rw [VarSet.mem_iff_of_beq h]

theorem holdsBy_iff_of_same
    (respects : ∀ a b, Atom.same a b = true → ∀ v, sat a v ↔ sat b v) {f g : Formula}
    (h : f.same g = true) {v : Valuation D} : f.HoldsBy sat v ↔ g.HoldsBy sat v := by
  refine same_induction (P := fun f g => ∀ v : Valuation D, f.HoldsBy sat v ↔ g.HoldsBy sat v)
    ?atom ?junction ?neg ?quant h v
  case atom =>
    intro a b equal v
    simp only [HoldsBy]
    exact respects a b equal v
  case junction =>
    intro c fs gs pairs v
    -- both connectives at once, since the induction over the parts is the same
    have members : (AllHoldBy sat fs v ↔ AllHoldBy sat gs v) ∧
        (SomeHoldsBy sat fs v ↔ SomeHoldsBy sat gs v) := by
      induction pairs with
      | nil => exact ⟨Iff.rfl, Iff.rfl⟩
      | cons head tail ih => exact ⟨and_congr (head v) ih.1, or_congr (head v) ih.2⟩
    cases c with
    | and =>
      simp only [HoldsBy]
      exact members.1
    | or =>
      simp only [HoldsBy]
      exact members.2
  case neg =>
    intro f g body v
    simp only [HoldsBy]
    exact not_congr (body v)
  case quant =>
    intro q xs ys f g bound body v
    cases q with
    | exist =>
      simp only [HoldsBy]
      exact exists_congr fun w => and_congr (agreeOutside_iff_of_beq bound) (body w)
    | forAll =>
      simp only [HoldsBy]
      exact forall_congr' fun w => imp_congr (agreeOutside_iff_of_beq bound) (body w)

end HoldsBy

/-! ## Independent blanks -/

variable {M : Interpretation D}

theorem denotes_iff {t : Term} (named : ∀ y, t = .var y → y.isBlank = false) {v : Valuation D}
    {d : D} : t.Denotes M v d ↔ t.value M v = d := by
  -- the other way to denote a value is that of a blank
  refine or_iff_right ?_
  rintro ⟨y, rfl, blank⟩
  simp [named y rfl] at blank

/-- Without blanks there is only one way to read a comparison. -/
theorem comparison_holdsApart_iff {c : Comparison}
    (named : ∀ y, Term.var y ∈ [c.left, c.right] → y.isBlank = false) {v : Valuation D} :
    c.HoldsApart M v ↔ c.Holds M v := by
  have left : ∀ y, c.left = .var y → y.isBlank = false := fun y same => named y (by simp [same])
  have right : ∀ y, c.right = .var y → y.isBlank = false := fun y same => named y (by simp [same])
  simp only [Comparison.HoldsApart, Comparison.Holds, denotes_iff left, denotes_iff right]
  constructor
  · rintro ⟨d, e, rfl, rfl, relates⟩
    exact relates
  · intro relates
    exact ⟨_, _, rfl, rfl, relates⟩

theorem relates_negated_iff {r : Relation} {d e : D} : r.negated.Relates d e ↔ ¬ r.Relates d e := by
  cases r with
  | equal => exact Iff.rfl
  | different => exact not_not.symm

theorem denotes_congr {t : Term} {v w : Valuation D} {d : D}
    (same : ∀ y, t = .var y → y.isBlank = false → v y.toIdent = w y.toIdent) :
    t.Denotes M v d ↔ t.Denotes M w d := by
  cases t with
  | const c => cases c <;> simp [Term.Denotes, Term.value, Term.key, Term.Key.value]
  | var y =>
    -- a blank denotes every value under all valuations
    by_cases blank : y.isBlank = true
    · simp [Term.Denotes, blank]
    · have value := same y rfl (by simpa using blank)
      simp [Term.Denotes, Term.value, Term.key, Term.Key.value, value]

theorem forall₂_denotes_map_iff {h : Term → Term} {ts : List Term} {row : List D}
    {v w : Valuation D}
    (each : ∀ t ∈ ts, ∀ d, ((h t).Denotes M v d ↔ t.Denotes M w d)) :
    List.Forall₂ (Term.Denotes M v) (ts.map h) row ↔ List.Forall₂ (Term.Denotes M w) ts row := by
  induction ts generalizing row with
  | nil => cases row <;> simp
  | cons t ts ih =>
    cases row with
    | nil => simp
    | cons d row =>
      rw [List.map_cons, List.forall₂_cons, List.forall₂_cons]
      refine and_congr (each t List.mem_cons_self d) (ih ?_)
      exact fun u hu => each u (List.mem_cons_of_mem t hu)

/-- An atom with its terms replaced is true where the replaced terms may take the new values. -/
theorem holdsApart_mapTerms_iff {a : Atom} {v w : Valuation D} {h : Term → Term}
    (each : ∀ t ∈ a.terms, ∀ d, ((h t).Denotes M v d ↔ t.Denotes M w d)) :
    (a.mapTerms h).HoldsApart M v ↔ a.HoldsApart M w := by
  cases a with
  | truth b => exact Iff.rfl
  | predicate a =>
    exact exists_congr fun row => and_congr_right fun _ => forall₂_denotes_map_iff each
  | comparison c =>
    have left := each c.left (by simp [Atom.terms])
    have right := each c.right (by simp [Atom.terms])
    exact exists_congr fun d => exists_congr fun e =>
      and_congr (left d) (and_congr_left' (right e))

theorem atom_holdsApart_congr {a : Atom} {v w : Valuation D}
    (same : ∀ x ∈ (Formula.atom a).free, v x = w x) : a.HoldsApart M v ↔ a.HoldsApart M w := by
  have each : ∀ t ∈ a.terms, ∀ d, ((id t).Denotes M v d ↔ t.Denotes M w d) := by
    intro t ht d
    refine denotes_congr ?_
    rintro y rfl hn
    exact same _ (mem_free_atom.2 ⟨y, ht, hn, rfl⟩)
  simpa only [Atom.mapTerms_id] using holdsApart_mapTerms_iff each

theorem denotes_iff_of_key {s t : Term} (h : s.key = t.key) {v : Valuation D} {d : D} :
    s.Denotes M v d ↔ t.Denotes M v d := by
  -- equal keys are those of two blanks, or of none
  have blank : (∃ x, s = .var x ∧ x.isBlank = true) ↔ ∃ x, t = .var x ∧ x.isBlank = true := by
    cases s with
    | var x =>
      cases t with
      | var y =>
        have same : x.toIdent = y.toIdent := by simpa [Term.key] using h
        have names : x.name = y.name := congrArg Ident.name same
        simp [Variable.isBlank, names]
      | const c => cases c <;> simp [Term.key] at h
    | const c =>
      cases t with
      | var y => cases c <;> simp [Term.key] at h
      | const c' => simp
  unfold Term.Denotes Term.value
  rw [blank, h]

theorem forall₂_denotes_iff_of_key {ts us : List Term} (keys : ts.map Term.key = us.map Term.key)
    {v : Valuation D} {row : List D} :
    List.Forall₂ (Term.Denotes M v) ts row ↔ List.Forall₂ (Term.Denotes M v) us row := by
  induction ts generalizing us row with
  | nil => cases us <;> simp_all
  | cons t ts ih =>
    cases us with
    | nil => simp at keys
    | cons u us =>
      rw [List.map_cons, List.map_cons, List.cons.injEq] at keys
      cases row with
      | nil => simp
      | cons d row =>
        rw [List.forall₂_cons, List.forall₂_cons, denotes_iff_of_key keys.1, ih keys.2]

theorem relates_comm {r : Relation} {d e : D} : r.Relates d e ↔ r.Relates e d := by
  cases r with
  | equal => exact eq_comm
  | different => exact ne_comm

theorem atom_holdsApart_iff_of_same {a b : Atom} (h : a.same b = true) {v : Valuation D} :
    a.HoldsApart M v ↔ b.HoldsApart M v := by
  refine same_atom_cases (P := fun a b => a.HoldsApart M v ↔ b.HoldsApart M v) ?truth ?predicate
    ?comparison h
  case truth => exact fun _ => Iff.rfl
  case predicate =>
    intro a b name keys _
    simp only [Atom.HoldsApart, PredicateAtom.HoldsApart, name, forall₂_denotes_iff_of_key keys]
  case comparison =>
    intro c d relation sides
    simp only [Atom.HoldsApart, Comparison.HoldsApart, relation]
    rcases sides with ⟨left, right⟩ | ⟨left, right⟩
    · simp only [denotes_iff_of_key left, denotes_iff_of_key right]
    · -- with swapped sides the two values change their places
      rw [exists_comm]
      refine exists_congr fun e => exists_congr fun e' => ?_
      rw [denotes_iff_of_key left, denotes_iff_of_key right, relates_comm, and_left_comm]

theorem holdsApart_congr {f : Formula} {v w : Valuation D} (same : ∀ x ∈ f.free, v x = w x) :
    f.HoldsApart M v ↔ f.HoldsApart M w :=
  holdsBy_congr (fun _ _ _ => atom_holdsApart_congr) same

theorem holdsApart_iff_of_same {f g : Formula} (h : f.same g = true) {v : Valuation D} :
    f.HoldsApart M v ↔ g.HoldsApart M v := by
  have respects : ∀ a b, Atom.same a b = true → ∀ w, a.HoldsApart M w ↔ b.HoldsApart M w :=
    fun a b same w => atom_holdsApart_iff_of_same same
  exact holdsBy_iff_of_same respects h

end Formula
end QueryCalculus
