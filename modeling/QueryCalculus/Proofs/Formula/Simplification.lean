import Mathlib.Data.List.Flatten
import QueryCalculus.Proofs.Formula.EvidentValidity

/-!
# Simplified formulas keep their meaning

- `Settles` : a formula has the truth value with which one part decides a junction
- `settles_of_absorbed` : an absorbed part decides a junction only together with an atom beside it
- `settles_reduceNegated` : where no atom decides, nothing is lost inside of a negation
- `equivalent_dropRedundant` : redundant parts may be dropped
- `Simplifies` : what simplification keeps, if no variable is bound twice or both bound and free
- `optimize_equivalent` : formulas with distinct binders keep their meaning

Conjunctions and disjunctions are treated at once: falsity settles a conjunction as truth settles a
disjunction.
-/

namespace QueryCalculus

universe u

variable {D : Type u} {M : Interpretation D} {v w : Valuation D}

namespace Formula

/-! ## Settling a junction -/

/-- The formula is false if it is to settle a conjunction, and true if a disjunction. -/
def Settles (M : Interpretation D) (v : Valuation D) (c : Connective) (f : Formula) : Prop :=
  match c with
  | .and => ¬ f.Holds M v
  | .or => f.Holds M v

variable {c : Connective} {f g : Formula} {parts atoms : List Formula}

theorem settles_congr (same : f.Holds M v ↔ g.Holds M v) : Settles M v c f ↔ Settles M v c g := by
  cases c with
  | and => exact not_congr same
  | or => exact same

theorem holds_congr_of_settles (same : Settles M v c f ↔ Settles M v c g) :
    f.Holds M v ↔ g.Holds M v := by
  cases c with
  | and => exact not_iff_not.1 same
  | or => exact same

theorem settles_junction : Settles M v c (junction c parts) ↔ ∃ f ∈ parts, Settles M v c f := by
  cases c with
  | and => exact (not_congr holds_junction).trans Connective.not_joins
  | or => exact holds_junction

theorem settles_dual : Settles M v c (junction c.dual parts) ↔ ∀ f ∈ parts, Settles M v c f := by
  cases c with
  | and => exact (not_congr holds_junction).trans Connective.not_joins
  | or => exact holds_junction

theorem settles_neg : Settles M v c (neg f) ↔ ¬ Settles M v c f := by
  cases c <;> exact Iff.rfl

theorem settles_exist {vars : VarSet} (settled : Settles M v c (quant .exist vars f)) :
    ∃ w, AgreeOutside vars v w ∧ Settles M w c f := by
  cases c with
  | and => exact ⟨v, fun _ _ => rfl, fun holds => settled ⟨v, fun _ _ => rfl, holds⟩⟩
  | or => exact settled

theorem settles_exist_congr {vars : VarSet}
    (same : ∀ w, AgreeOutside vars v w → (Settles M w c f ↔ Settles M w c g)) :
    Settles M v c (quant .exist vars f) ↔ Settles M v c (quant .exist vars g) := by
  refine settles_congr (exists_congr fun w => and_congr_right fun agree => ?_)
  exact holds_congr_of_settles (same w agree)

/-- A formula settles a junction under all valuations that agree on its unbound variables. -/
theorem settles_of_agree (same : ∀ x, Unbound x f → w x = v x) :
    Settles M w c f ↔ Settles M v c f := by
  have holds : f.Holds M w ↔ f.Holds M v := iff_of_eq (dependsOn_holds f same)
  cases c with
  | and => exact not_congr holds
  | or => exact holds

theorem settles_iff_of_equivalent (same : Equivalent.{u} f g) :
    Settles M v c f ↔ Settles M v c g :=
  settles_congr (same D M v)

/-! ## Atoms beside a part -/

theorem exists_settled_of_contains (found : atoms.contains f = true) (settled : Settles M v c f) :
    ∃ b ∈ atoms, Settles M v c b := by
  rcases List.contains_iff_exists_mem_beq.1 found with ⟨b, hb, same⟩
  exact ⟨b, hb, (settles_congr (holds_iff_of_same same)).1 settled⟩

/-- An absorbed part settles a junction only where one of the atoms does so, unless it binds a
variable of the atom. -/
theorem settles_of_absorbed {part : Formula}
    (clear : ∀ b ∈ atoms, ∀ x ∈ part.binders, ¬ Unbound x b)
    (absorbed : isAbsorbed c atoms part = true) (settled : Settles M v c part) :
    ∃ b ∈ atoms, Settles M v c b := by
  induction part generalizing v with
  | atom a => cases absorbed
  | neg body => cases absorbed
  | junction d fs =>
    cases found : (Formula.junction d fs).partsOf? c.dual with
    | none => simp [isAbsorbed, stripExists, found] at absorbed
    | some gs =>
      simp only [isAbsorbed, stripExists, found, List.any_eq_true] at absorbed
      rcases absorbed with ⟨g, hg, inAtoms⟩
      rw [eq_junction_of_partsOf? found] at settled
      exact exists_settled_of_contains inAtoms (settles_dual.1 settled g hg)
  | quant q vars body ih =>
    cases q with
    | forAll => cases absorbed
    | exist =>
      rcases settles_exist settled with ⟨w, agree, settled⟩
      have inside : ∀ b ∈ atoms, ∀ x ∈ body.binders, ¬ Unbound x b := fun b hb x hx =>
        clear b hb x (mem_binders_quant.2 (.inr hx))
      rcases ih inside absorbed settled with ⟨b, hb, settled⟩
      -- the quantifier changes no variable of the atom
      refine ⟨b, hb, (settles_of_agree fun x hx => agree x fun bound => ?_).1 settled⟩
      exact clear b hb x (mem_binders_quant.2 (.inl bound)) hx

theorem settles_removeAtoms (quiet : ∀ b ∈ atoms, ¬ Settles M v c b) :
    Settles M v c (removeAtoms c atoms f) ↔ Settles M v c f := by
  cases f with
  | junction d fs =>
    rw [removeAtoms]
    split
    · rename_i same
      subst same
      rw [settles_junction, settles_junction]
      -- what is removed settles nothing
      have kept : ∀ g, Settles M v c g → (!atoms.contains g) = true := by
        intro g settled
        by_contra removed
        rcases exists_settled_of_contains (by simpa using removed) settled with ⟨b, hb, settled⟩
        exact quiet b hb settled
      constructor
      · rintro ⟨g, hg, settled⟩
        exact ⟨g, (List.mem_filter.1 hg).1, settled⟩
      · rintro ⟨g, hg, settled⟩
        exact ⟨g, List.mem_filter.2 ⟨hg, kept g settled⟩, settled⟩
    · exact Iff.rfl
  | _ => exact Iff.rfl

/-- Where no atom settles the junction, a negated part may lose the atoms inside of it. -/
theorem settles_reduceNegated {part : Formula}
    (clear : ∀ b ∈ atoms, ∀ x ∈ part.binders, ¬ Unbound x b)
    (quiet : ∀ b ∈ atoms, ¬ Settles M v c b) :
    Settles M v c (reduceNegated c atoms part) ↔ Settles M v c part := by
  have unwrapped : ∀ f : Formula, Settles M v c f.unwrap ↔ Settles M v c f := fun f =>
    (settles_iff_of_equivalent (rewriting_equivalent.unwrap f)).symm
  unfold reduceNegated
  split
  · rename_i vars body
    have inside : Settles M v c (quant .exist vars (body.removeAtoms c atoms)) ↔
        Settles M v c (quant .exist vars body) := by
      refine settles_exist_congr fun w agree => settles_removeAtoms fun b hb settled => ?_
      refine quiet b hb ((settles_of_agree fun x hx => agree x fun bound => ?_).1 settled)
      exact clear b hb x (mem_binders_quant (q := .exist).2 (.inl bound)) hx
    rw [unwrapped, settles_neg, settles_neg, unwrapped, inside]
  · rw [unwrapped, settles_neg, settles_neg, unwrapped, settles_removeAtoms quiet]
  · exact Iff.rfl

theorem not_settles_of_isNeutral (neutral : isNeutral c f = true) : ¬ Settles M v c f := by
  cases c with
  | and => exact fun settled => settled (holds_of_isTautology neutral)
  | or => exact not_holds_of_isContradiction neutral

/-! ## Redundant parts -/

theorem equivalent_eraseDups (c : Connective) (parts : List Formula) :
    Equivalent.{u} (junction c parts) (junction c parts.eraseDups) := by
  intro D M v
  refine holds_congr_of_settles (c := c) ?_
  rw [settles_junction, settles_junction]
  constructor
  · rintro ⟨f, hf, settled⟩
    rcases exists_mem_eraseDups hf with ⟨g, hg, rfl | same⟩
    · exact ⟨f, hg, settled⟩
    · exact ⟨g, hg, (settles_congr (holds_iff_of_same same)).1 settled⟩
  · rintro ⟨f, hf, settled⟩
    exact ⟨f, (eraseDups_sublist parts).subset hf, settled⟩

/-- A predicate atom that settles a junction is kept. -/
theorem mem_dropRedundant_of_predicate (hf : f ∈ parts) (atomic : f.predicate?.isSome = true)
    (settled : Settles M v c f) : f ∈ dropRedundant c parts := by
  rcases f with a | ⟨d, fs⟩ | body | ⟨q, vars, body⟩ <;> try cases atomic
  refine List.mem_filter.2 ⟨List.mem_map.2 ⟨_, List.mem_filter.2 ⟨hf, rfl⟩, rfl⟩, ?_⟩
  have needed : isNeutral c (.atom a) ≠ true := fun neutral =>
    not_settles_of_isNeutral neutral settled
  simpa using needed

/-- Redundant parts may be dropped if no part binds a variable that occurs unbound beside it. -/
theorem equivalent_dropRedundant
    (clear : ∀ f ∈ parts, ∀ b ∈ parts, ∀ x ∈ f.binders, ¬ Unbound x b) :
    Equivalent.{u} (junction c parts) (junction c (dropRedundant c parts)) := by
  intro D M v
  refine holds_congr_of_settles (c := c) ?_
  rw [settles_junction, settles_junction]
  let atoms := parts.filter (·.predicate?.isSome)
  have beside : ∀ f ∈ parts, ∀ b ∈ atoms, ∀ x ∈ f.binders, ¬ Unbound x b := fun f hf b hb =>
    clear f hf b (List.mem_filter.1 hb).1
  by_cases loud : ∃ b ∈ atoms, Settles M v c b
  · -- an atom settles both junctions
    rcases loud with ⟨b, hb, settled⟩
    have here := List.mem_filter.1 hb
    exact iff_of_true ⟨b, here.1, settled⟩
      ⟨b, mem_dropRedundant_of_predicate here.1 here.2 settled, settled⟩
  · have quiet : ∀ b ∈ atoms, ¬ Settles M v c b := fun b hb settled => loud ⟨b, hb, settled⟩
    constructor
    · rintro ⟨f, hf, settled⟩
      -- an absorbed part settles the junction only if one of the atoms does
      have kept : (!isAbsorbed c atoms f) = true := by
        by_contra absorbed
        exact loud (settles_of_absorbed (beside f hf) (by simpa using absorbed) settled)
      have reduced := (settles_reduceNegated (beside f hf) quiet).2 settled
      have needed : isNeutral c (reduceNegated c atoms f) ≠ true := fun neutral =>
        not_settles_of_isNeutral neutral reduced
      refine ⟨_, List.mem_filter.2 ⟨List.mem_map.2 ⟨f, ?_, rfl⟩, ?_⟩, reduced⟩
      · exact List.mem_filter.2 ⟨hf, kept⟩
      · simpa using needed
    · rintro ⟨g, hg, settled⟩
      rcases List.mem_map.1 (List.mem_filter.1 hg).1 with ⟨f, hf, rfl⟩
      have here := (List.mem_filter.1 hf).1
      exact ⟨f, here, (settles_reduceNegated (beside f here) quiet).1 settled⟩

/-! ## Binders -/

theorem binders_splice (c : Connective) (parts : List Formula) :
    (junction c (splice c parts)).binders = (junction c parts).binders := by
  rw [binders_junction, binders_junction, splice, List.flatMap_assoc]
  congr 1
  funext f
  cases found : f.partsOf? c with
  | none => simp
  | some fs =>
    rw [eq_junction_of_partsOf? found, binders_junction]
    rfl

/-- Simplification binds no variable anew. -/
theorem simplifying_binders : Simplifying fun f g => g.binders.Subperm f.binders := by
  have rewriting : Rewriting fun f g => g.binders.Subperm f.binders :=
    { refl := fun f => .refl _
      trans := fun hfg hgh => hgh.trans hfg
      junction := by
        intro c fs gs each
        rw [binders_junction, binders_junction]
        induction each with
        | nil => exact .refl _
        | cons head tail ih => exact head.append ih
      neg := fun h => h
      quant := fun h => (List.subperm_append_left _).2 h
      negNeg := fun f => .refl _
      single := fun c f => by simpa [binders_junction] using .refl _
      vacuous := fun q vars f _ => (List.sublist_append_right _ _).subperm
      nested := fun c parts => binders_splice c parts ▸ .refl _
      repeated := by
        intro q vars inner f
        -- a variable that both quantifiers bind is now bound once
        have merged : (vars.union inner).idents.Subperm (vars.idents ++ inner.idents) := by
          refine List.subperm_of_subset (VarSet.nodup_idents _) fun x hx => ?_
          exact List.mem_append.2 (VarSet.mem_union.1 hx)
        have appended := (List.subperm_append_right f.binders).2 merged
        rwa [List.append_assoc] at appended }
  refine rewriting.simplifying ?fewer ?unused
  case fewer =>
    intro c fs gs sub
    rw [binders_junction, binders_junction]
    exact (sub.flatMap binders).subperm
  case unused =>
    intro q vars body
    refine (List.subperm_append_right body.binders).2 ?_
    refine List.subperm_of_subset (VarSet.nodup_idents _) fun x hx => ?_
    exact (VarSet.mem_inter.1 hx).1

/-! ## Simplification -/

/-- What simplification keeps: atoms, binders and free variables become fewer, and the meaning stays
if no variable is bound twice and none is bound at one place and unbound at another. -/
structure Simplifies (f g : Formula) : Prop where
  atoms : ∀ a ∈ g.atoms, a ∈ f.atoms ∨ a = .truth true
  binders : g.binders.Subperm f.binders
  free : ∀ x, x ∈ g.free → x ∈ f.free
  equivalent : f.BlankFree → f.BoundApart → Equivalent.{u} f g

theorem Simplifies.blankFree (h : Simplifies.{u} f g) (named : f.BlankFree) : g.BlankFree :=
  named.mono (names_subset h.atoms h.binders.subset)

theorem Simplifies.boundApart (h : Simplifies.{u} f g) (named : f.BlankFree)
    (apart : f.BoundApart) : g.BoundApart := by
  refine apart.mono h.binders fun x hx => ?_
  exact named.mem_free_iff.1 (h.free x ((h.blankFree named).mem_free_iff.2 hx))

/-- Every step of simplification keeps the meaning of formulas with distinct binders, and their
binders distinct. -/
theorem simplifying_simplifies : Simplifying Simplifies.{u} where
  refl f := ⟨simplifying_atoms.refl f, simplifying_binders.refl f, simplifying_free.refl f,
    fun _ _ => .refl f⟩
  trans hfg hgh :=
    { atoms := simplifying_atoms.trans hfg.atoms hgh.atoms
      binders := hgh.binders.trans hfg.binders
      free := simplifying_free.trans hfg.free hgh.free
      equivalent := fun named apart => (hfg.equivalent named apart).trans
        (hgh.equivalent (hfg.blankFree named) (hfg.boundApart named apart)) }
  junction {c fs gs} each :=
    { atoms := simplifying_atoms.junction (each.imp fun _ _ h => h.atoms)
      binders := simplifying_binders.junction (each.imp fun _ _ h => h.binders)
      free := simplifying_free.junction (each.imp fun _ _ h => h.free)
      equivalent := fun named apart => by
        have parts : ∀ f ∈ fs, f.BlankFree ∧ f.BoundApart := fun f hf =>
          ⟨named.mono (names_part_subset hf), apart.part hf⟩
        refine .junction ?_
        clear named apart
        induction each with
        | nil => exact .nil
        | cons head tail ih =>
          have here := parts _ List.mem_cons_self
          exact .cons (head.equivalent here.1 here.2)
            (ih fun f hf => parts f (List.mem_cons_of_mem _ hf)) }
  neg h := ⟨h.atoms, h.binders, h.free, fun named apart => (h.equivalent named apart.neg).neg⟩
  quant h :=
    { atoms := h.atoms
      binders := simplifying_binders.quant h.binders
      free := simplifying_free.quant h.free
      equivalent := fun named apart =>
        (h.equivalent (named.mono names_body_subset) apart.body).quant }
  negNeg f := ⟨simplifying_atoms.negNeg f, simplifying_binders.negNeg f, simplifying_free.negNeg f,
    fun _ _ => rewriting_equivalent.negNeg f⟩
  single c f := ⟨simplifying_atoms.single c f, simplifying_binders.single c f,
    simplifying_free.single c f, fun _ _ => rewriting_equivalent.single c f⟩
  vacuous q vars f empty := ⟨simplifying_atoms.vacuous q vars f empty,
    simplifying_binders.vacuous q vars f empty, simplifying_free.vacuous q vars f empty,
    fun _ _ => rewriting_equivalent.vacuous q vars f empty⟩
  nested c parts := ⟨simplifying_atoms.nested c parts, simplifying_binders.nested c parts,
    simplifying_free.nested c parts, fun _ _ => rewriting_equivalent.nested c parts⟩
  repeated q vars inner f := ⟨simplifying_atoms.repeated q vars inner f,
    simplifying_binders.repeated q vars inner f, simplifying_free.repeated q vars inner f,
    fun _ _ => rewriting_equivalent.repeated q vars inner f⟩
  redundant c parts :=
    { atoms := simplifying_atoms.redundant c parts
      binders := simplifying_binders.redundant c parts
      free := simplifying_free.redundant c parts
      equivalent := fun _ apart => by
        -- with distinct binders, no part binds a variable of another
        have unique := eraseDups_sublist parts
        refine (equivalent_eraseDups c parts).trans (equivalent_dropRedundant ?_)
        intro f hf b hb x hx occurs
        exact apart.disjoint x (mem_binders_junction.2 ⟨f, unique.subset hf, hx⟩)
          (.part (unique.subset hb) occurs) }
  unused q vars body :=
    { atoms := simplifying_atoms.unused q vars body
      binders := simplifying_binders.unused q vars body
      free := simplifying_free.unused q vars body
      equivalent := fun named _ => by
        have inside : body.BlankFree := named.mono names_body_subset
        refine equivalent_quant fun x hx => ?_
        rw [VarSet.mem_inter, inside.mem_free_iff, and_iff_left hx] }

/-- Optimization keeps the meaning of a formula in which no variable is bound twice or both bound
and free, and it adds no free variables. -/
theorem optimize_equivalent (f : Formula) (named : f.BlankFree) (nodup : f.binders.Nodup)
    (disjoint : ∀ x ∈ f.binders, x ∉ f.free) :
    Equivalent.{u} f.optimize f ∧ ∀ x, x ∈ f.optimize.free → x ∈ f.free := by
  have apart : f.BoundApart := ⟨nodup, fun x hx h => disjoint x hx (named.mem_free_iff.2 h)⟩
  have simplified := simplifying_simplifies.optimize f
  exact ⟨(simplified.equivalent named apart).symm, simplified.free⟩

/-- `A(x) ∧ ∃ y (R(x, y) ∨ A(x)) ∧ ¬ ∃ z (S(x, z) ∧ A(x))` -/
def surrounded : Formula :=
  let x : Variable := { name := "x" }
  let y : Variable := { name := "y" }
  let z : Variable := { name := "z" }
  .junction .and [
    .predicate ⟨"A", [.var x], .undefined⟩,
    .quant .exist (.ofList [y]) (.junction .or [.predicate ⟨"R", [.var x, .var y], .undefined⟩,
      .predicate ⟨"A", [.var x], .undefined⟩]),
    .neg (.quant .exist (.ofList [z]) (.junction .and [
      .predicate ⟨"S", [.var x, .var z], .undefined⟩, .predicate ⟨"A", [.var x], .undefined⟩]))]

/-- The first quantified part is absorbed by `A(x)`, and the second one loses it. -/
theorem surrounded_optimize_equivalent :
    surrounded.BlankFree ∧ surrounded.binders.Nodup ∧
      (∀ x ∈ surrounded.binders, x ∉ surrounded.free) ∧
      surrounded.optimize.text = "A(x) AND NOT (\\exists z (S(x, z)))" ∧
      Equivalent.{u} surrounded.optimize surrounded := by
  have named : surrounded.BlankFree := by decide
  have nodup : surrounded.binders.Nodup := by decide
  have disjoint : ∀ x ∈ surrounded.binders, x ∉ surrounded.free := by decide
  exact ⟨named, nodup, disjoint, rfl, (optimize_equivalent surrounded named nodup disjoint).1⟩

end Formula
end QueryCalculus
