import QueryCalculus.Proofs.Formula.Agreement
import QueryCalculus.Proofs.Formula.Binding
import QueryCalculus.Proofs.Formula.Quantification

/-!
# Equivalent formulas

- `holdsBy_junction`, `holdsBy_quant` : truth of a formula from that of its parts
- `BlankFree.holdsApart_iff` : without blanks it does not matter how they are read
- `dependsOn_holds` : truth depends on the values of the unbound variables
- `holds_iff_of_same` : equal formulas are true under the same valuations
- `rewriting_equivalentBy` : flattening keeps the meaning, whatever part of a formula it is applied
  to and whatever the atoms mean
- `equivalent_quant` : which variables without unbound occurrence are bound does not matter
-/

namespace QueryCalculus

universe u

variable {D : Type u} {M : Interpretation D} {v : Valuation D}

namespace Formula

/-! ## Truth of a formula from its parts -/

theorem holdsBy_junction {sat : Atom → Valuation D → Prop} {c : Connective}
    {parts : List Formula} :
    (junction c parts).HoldsBy sat v ↔ c.Joins parts fun f => f.HoldsBy sat v := by
  cases c with
  | and => exact allHoldBy_iff _
  | or => exact someHoldsBy_iff _

theorem holdsBy_quant {sat : Atom → Valuation D → Prop} {q : Quantifier} {vars : VarSet}
    {body : Formula} :
    (quant q vars body).HoldsBy sat v ↔ q.Over {x | x ∈ vars} (body.HoldsBy sat) v := by
  cases q <;> exact Iff.rfl

theorem holds_junction {c : Connective} {parts : List Formula} :
    (junction c parts).Holds M v ↔ c.Joins parts fun f => f.Holds M v :=
  holdsBy_junction

theorem holds_quant {q : Quantifier} {vars : VarSet} {body : Formula} :
    (quant q vars body).Holds M v ↔ q.Over {x | x ∈ vars} (body.Holds M) v :=
  holdsBy_quant

/-- The truth of a formula depends on the truth of its atoms only. -/
theorem holdsBy_iff_of_atoms {sat sat' : Atom → Valuation D → Prop} {f : Formula}
    (same : ∀ a ∈ f.atoms, ∀ w, sat a w ↔ sat' a w) : f.HoldsBy sat v ↔ f.HoldsBy sat' v := by
  induction f generalizing v with
  | atom a => exact same a (List.mem_singleton_self a) v
  | junction c parts ih =>
    rw [holdsBy_junction, holdsBy_junction]
    refine Connective.joins_congr fun f hf => ih f hf fun a ha => ?_
    exact same a (mem_atoms_junction.2 ⟨f, hf, ha⟩)
  | neg body ih => exact not_congr (ih same)
  | quant q vars body ih =>
    rw [holdsBy_quant, holdsBy_quant]
    exact Quantifier.over_congr fun w => ih same

/-! ## Formulas without blanks -/

/-- Terms without blanks denote just their values. -/
theorem forall₂_denotes_iff_map {ts : List Term}
    (named : ∀ y, Term.var y ∈ ts → y.isBlank = false) {row : List D} :
    List.Forall₂ (Term.Denotes M v) ts row ↔ ts.map (Term.value M v) = row := by
  induction ts generalizing row with
  | nil => exact List.forall₂_nil_left_iff.trans eq_comm
  | cons t ts ih =>
    have first : ∀ y, t = .var y → y.isBlank = false := fun y same => named y (by simp [same])
    have rest := fun row => @ih (fun y hy => named y (List.mem_cons_of_mem t hy)) row
    cases row with
    | nil => simp
    | cons d row => rw [List.forall₂_cons, denotes_iff first, rest, List.map_cons, List.cons.injEq]

theorem predicate_holdsApart_iff {a : PredicateAtom}
    (named : ∀ y, Term.var y ∈ a.terms → y.isBlank = false) : a.HoldsApart M v ↔ a.Holds M v := by
  simp only [PredicateAtom.HoldsApart, PredicateAtom.Holds, forall₂_denotes_iff_map named]
  constructor
  · rintro ⟨row, holds, rfl⟩
    exact holds
  · exact fun holds => ⟨_, holds, rfl⟩

/-- There is only one way to read a formula without blanks. -/
theorem BlankFree.holdsApart_iff {f : Formula} (named : f.BlankFree) :
    f.HoldsApart M v ↔ f.Holds M v := by
  refine holdsBy_iff_of_atoms fun a ha w => ?_
  have terms : ∀ y, Term.var y ∈ a.terms → y.isBlank = false := by
    intro y hy
    refine Bool.eq_false_iff.2 fun blank => named (mem_names.2 ⟨y.toIdent, .inl ?_, ?_⟩)
    · exact mem_vars.2 ⟨a, ha, y, hy, rfl⟩
    · exact beq_iff_eq.1 blank
  cases a with
  | truth b => exact Iff.rfl
  | predicate a => exact predicate_holdsApart_iff terms
  | comparison c => exact comparison_holdsApart_iff terms

theorem Equivalent.apart {f g : Formula} (equivalent : Equivalent.{u} f g) (hf : f.BlankFree)
    (hg : g.BlankFree) : EquivalentApart.{u} f g :=
  fun D M v => hf.holdsApart_iff.trans ((equivalent D M v).trans hg.holdsApart_iff.symm)

/-! ## Values of the unbound variables -/

theorem value_congr {t : Term} {w : Valuation D}
    (same : ∀ y, t = .var y → v y.toIdent = w y.toIdent) : t.value M v = t.value M w := by
  cases t with
  | var y => exact same y rfl
  | const c => cases c <;> rfl

/-- An atom with its terms replaced is true where the replaced terms have the new values. -/
theorem holds_mapTerms_iff {a : Atom} {w : Valuation D} {h : Term → Term}
    (values : ∀ t ∈ a.terms, (h t).value M v = t.value M w) :
    (a.mapTerms h).Holds M v ↔ a.Holds M w := by
  cases a with
  | truth b => exact Iff.rfl
  | predicate a =>
    have row : (a.terms.map h).map (Term.value M v) = a.terms.map (Term.value M w) := by
      rw [List.map_map]
      exact List.map_congr_left values
    exact iff_of_eq (congrArg (M.relation a.predicate) row)
  | comparison c =>
    have left := values c.left (by simp [Atom.terms])
    have right := values c.right (by simp [Atom.terms])
    exact iff_of_eq (congrArg₂ (c.relation.Relates · ·) left right)

theorem atom_holds_congr {a : Atom} {w : Valuation D}
    (same : ∀ y, Term.var y ∈ a.terms → v y.toIdent = w y.toIdent) :
    a.Holds M v ↔ a.Holds M w := by
  have values : ∀ t ∈ a.terms, (id t).value M v = t.value M w := fun t ht =>
    value_congr fun y ty => same y (ty ▸ ht)
  simpa only [Atom.mapTerms_id] using holds_mapTerms_iff values

theorem dependsOn_holds (f : Formula) : DependsOn (f.Holds M) {x | Unbound x f} := by
  induction f with
  | atom a =>
    intro v w same
    exact propext (atom_holds_congr fun y hy => same _ (.atom hy rfl))
  | junction c parts ih =>
    intro v w same
    refine propext (holds_junction.trans (Iff.trans ?_ holds_junction.symm))
    apply Connective.joins_congr
    intro f hf
    exact iff_of_eq (ih f hf fun x hx => same x (.part hf hx))
  | neg body ih =>
    intro v w same
    exact congrArg Not (ih fun x hx => same x (.neg hx))
  | quant q vars body ih =>
    intro v w same
    refine propext (holds_quant.trans (Iff.trans (iff_of_eq ?_) holds_quant.symm))
    exact Quantifier.dependsOn_over ih fun x hx => same x (.quant hx.2 hx.1)

/-! ## Equal formulas -/

theorem atom_holds_iff_of_same {a b : Atom} (h : a.same b = true) : a.Holds M v ↔ b.Holds M v := by
  refine same_atom_cases (P := fun a b => a.Holds M v ↔ b.Holds M v) ?truth ?predicate
    ?comparison h
  case truth => exact fun _ => Iff.rfl
  case predicate =>
    intro a b name keys _
    -- the value of a term is that of its key
    have row : a.terms.map (Term.value M v) = b.terms.map (Term.value M v) := by
      have byKey := congrArg (List.map (Term.Key.value M v)) keys
      rwa [List.map_map, List.map_map] at byKey
    simp only [Atom.Holds, PredicateAtom.Holds, name, row]
  case comparison =>
    intro c d relation sides
    simp only [Atom.Holds, Comparison.Holds, Term.value, relation]
    rcases sides with ⟨left, right⟩ | ⟨left, right⟩
    · rw [left, right]
    · rw [left, right, relates_comm]

theorem holds_iff_of_same {f g : Formula} (h : f.same g = true) : f.Holds M v ↔ g.Holds M v := by
  have respects : ∀ a b, Atom.same a b = true → ∀ w, a.Holds M w ↔ b.Holds M w :=
    fun a b same w => atom_holds_iff_of_same same
  exact holdsBy_iff_of_same respects h

/-! ## Equivalence -/

section EquivalentBy

variable {sat : Atom → Valuation D → Prop}

theorem EquivalentBy.junction {c : Connective} {fs gs : List Formula}
    (each : List.Forall₂ (EquivalentBy sat) fs gs) :
    EquivalentBy sat (.junction c fs) (.junction c gs) := by
  intro v
  refine holdsBy_junction.trans (Iff.trans ?_ holdsBy_junction.symm)
  induction each with
  | nil => exact Iff.rfl
  | cons head tail ih =>
    cases c with
    | and => simpa only [Connective.Joins, List.forall_mem_cons] using and_congr (head v) ih
    | or => simpa only [Connective.Joins, List.exists_mem_cons_iff] using or_congr (head v) ih

/-- A part that is itself a junction of the same kind stands for its own parts. -/
theorem joins_splice {c : Connective} {parts : List Formula} :
    c.Joins (splice c parts) (fun f => f.HoldsBy sat v) ↔
      c.Joins parts fun f => f.HoldsBy sat v := by
  cases c with
  | and => exact forall_mem_splice_iff fun fs => holdsBy_junction
  | or => exact exists_mem_splice_iff fun fs => holdsBy_junction

/-- The steps of flattening keep the meaning, whatever the atoms mean. -/
theorem rewriting_equivalentBy (sat : Atom → Valuation D → Prop) :
    Rewriting (EquivalentBy sat) where
  refl _ _ := Iff.rfl
  trans hfg hgh v := (hfg v).trans (hgh v)
  junction := EquivalentBy.junction
  neg hfg v := not_congr (hfg v)
  quant hfg v := holdsBy_quant.trans (Iff.trans (Quantifier.over_congr hfg) holdsBy_quant.symm)
  negNeg _ _ := not_not
  single c f v := by
    refine holdsBy_junction.trans ?_
    cases c <;> simp [Connective.Joins]
  vacuous q vars f empty v :=
    holdsBy_quant.trans (Quantifier.over_of_empty (VarSet.isEmpty_iff.1 empty))
  nested c parts v := holdsBy_junction.trans (joins_splice.symm.trans holdsBy_junction.symm)
  repeated q vars inner f v := by
    have union : {x : Ident | x ∈ vars} ∪ {x | x ∈ inner} = {x | x ∈ vars.union inner} :=
      Set.ext fun x => VarSet.mem_union.symm
    calc
      _ ↔ q.Over {x | x ∈ vars} (q.Over {x | x ∈ inner} (f.HoldsBy sat)) v :=
        holdsBy_quant.trans (Quantifier.over_congr fun w => holdsBy_quant)
      _ ↔ q.Over {x | x ∈ vars.union inner} (f.HoldsBy sat) v := union ▸ Quantifier.over_over
      _ ↔ _ := holdsBy_quant.symm

end EquivalentBy

theorem rewriting_equivalent : Rewriting Equivalent.{u} :=
  .forall_family fun _ => .forall_family fun M => rewriting_equivalentBy fun a w => a.Holds M w

theorem rewriting_equivalentApart : Rewriting EquivalentApart.{u} :=
  .forall_family fun _ => .forall_family fun M => rewriting_equivalentBy fun a w => a.HoldsApart M w

namespace Equivalent

variable {f g h : Formula}

theorem refl (f : Formula) : Equivalent.{u} f f :=
  rewriting_equivalent.refl f

theorem symm (hfg : Equivalent.{u} f g) : Equivalent.{u} g f :=
  fun D M v => (hfg D M v).symm

theorem trans (hfg : Equivalent.{u} f g) (hgh : Equivalent.{u} g h) : Equivalent.{u} f h :=
  rewriting_equivalent.trans hfg hgh

theorem junction {c : Connective} {fs gs : List Formula}
    (each : List.Forall₂ Equivalent.{u} fs gs) :
    Equivalent.{u} (.junction c fs) (.junction c gs) :=
  rewriting_equivalent.junction each

theorem neg (hfg : Equivalent.{u} f g) : Equivalent.{u} (.neg f) (.neg g) :=
  rewriting_equivalent.neg hfg

theorem quant {q : Quantifier} {vars : VarSet} (hfg : Equivalent.{u} f g) :
    Equivalent.{u} (.quant q vars f) (.quant q vars g) :=
  rewriting_equivalent.quant hfg

end Equivalent

theorem equivalent_quant {q : Quantifier} {vars vars' : VarSet} {body : Formula}
    (same : ∀ x, Unbound x body → (x ∈ vars ↔ x ∈ vars')) :
    Equivalent.{u} (.quant q vars body) (.quant q vars' body) := by
  intro D M v
  refine holds_quant.trans (Iff.trans ?_ holds_quant.symm)
  exact Quantifier.over_congr_set (dependsOn_holds body) same

end Formula
end QueryCalculus
