import Mathlib.Data.List.Forall2
import QueryCalculus.Formula.Optimize
import QueryCalculus.Formula.Prepared
import QueryCalculus.Proofs.Formula.FreeVariables

/-!
# Formulas and their normal forms

- `Rewriting`, `Simplifying` : relations that contain the steps of flattening and of simplification
- `Rewriting.flatten`, `Simplifying.optimize` : such a relation holds between a formula and its
  normal form
- `mem_free_flatten`, `mem_free_of_optimize` : the free variables of normal forms
- `rewriting_atoms` : flattening leaves the atoms as they are, in their order
- `mem_atoms_of_optimize`, `mem_atoms_of_prepared` : normal forms have no atoms of their own but
  truth
- `Anchored` : a variable of a predicate atom that is reached through conjunctions and quantifiers
- `Lasting` : a free variable outside of the universally quantified tautologies

What a normal form keeps is shown for each step only, and the two relations do the rest.
-/

namespace QueryCalculus
namespace Formula

/-! ## Flattening -/

/-- A relation of formulas to formulas that may replace them: parts may be replaced anywhere, and
the steps of flattening are allowed. -/
structure Rewriting (R : Formula → Formula → Prop) : Prop where
  refl : ∀ f, R f f
  trans : ∀ {f g h}, R f g → R g h → R f h
  junction : ∀ {c fs gs}, List.Forall₂ R fs gs → R (.junction c fs) (.junction c gs)
  neg : ∀ {f g}, R f g → R (.neg f) (.neg g)
  quant : ∀ {q vars f g}, R f g → R (.quant q vars f) (.quant q vars g)
  negNeg : ∀ f, R (.neg (.neg f)) f
  single : ∀ c f, R (.junction c [f]) f
  vacuous : ∀ q vars f, vars.isEmpty = true → R (.quant q vars f) f
  nested : ∀ c parts, R (.junction c parts) (.junction c (splice c parts))
  repeated : ∀ q vars inner f,
    R (.quant q vars (.quant q inner f)) (.quant q (vars.union inner) f)

/-- What each relation of a family allows, all of them together allow. -/
theorem Rewriting.forall_family {ι : Sort*} {R : ι → Formula → Formula → Prop}
    (each : ∀ i, Rewriting (R i)) : Rewriting fun f g => ∀ i, R i f g where
  refl f i := (each i).refl f
  trans hfg hgh i := (each i).trans (hfg i) (hgh i)
  junction parts i := (each i).junction (parts.imp fun _ _ h => h i)
  neg h i := (each i).neg (h i)
  quant h i := (each i).quant (h i)
  negNeg f i := (each i).negNeg f
  single c f i := (each i).single c f
  vacuous q vars f empty i := (each i).vacuous q vars f empty
  nested c parts i := (each i).nested c parts
  repeated q vars inner f i := (each i).repeated q vars inner f

section Flattening

variable {R : Formula → Formula → Prop}

theorem Rewriting.parts (rewriting : Rewriting R) {h : Formula → Formula} {c : Connective}
    {parts : List Formula} (each : ∀ f ∈ parts, R f (h f)) :
    R (.junction c parts) (.junction c (parts.map h)) :=
  rewriting.junction (List.forall₂_map_right_iff.2 (List.forall₂_same.2 each))

theorem Rewriting.unwrap (rewriting : Rewriting R) (f : Formula) : R f f.unwrap := by
  fun_induction Formula.unwrap f with
  | case1 f ih => exact rewriting.trans (rewriting.negNeg f) ih
  | case2 c f ih => exact rewriting.trans (rewriting.single c f) ih
  | case3 q vars body empty ih => exact rewriting.trans (rewriting.vacuous q vars body empty) ih
  | case4 q vars body => exact rewriting.refl _
  | case5 f => exact rewriting.refl f

theorem Rewriting.mergeQuant (rewriting : Rewriting R) (q : Quantifier) (vars : VarSet)
    (body : Formula) : R (.quant q vars body) (mergeQuant q vars body) := by
  induction body generalizing vars with
  | quant r inner body ih =>
    by_cases same : q = r
    · subst same
      rw [Formula.mergeQuant, if_pos rfl]
      exact rewriting.trans (rewriting.repeated q vars inner body) (ih _)
    · rw [Formula.mergeQuant, if_neg same]
      exact rewriting.refl _
  | _ => exact rewriting.refl _

theorem Rewriting.flattenRoot (rewriting : Rewriting R) (f : Formula) : R f f.flattenRoot := by
  cases f with
  | atom a => exact rewriting.refl _
  | junction c parts =>
    have unwrapped : R (.junction c parts) (.junction c (parts.map Formula.unwrap)) :=
      rewriting.parts fun f _ => rewriting.unwrap f
    exact rewriting.trans (rewriting.trans unwrapped (rewriting.nested c _)) (rewriting.unwrap _)
  | neg body => exact rewriting.trans (rewriting.neg (rewriting.unwrap body)) (rewriting.unwrap _)
  | quant q vars body =>
    have unwrapped : R (.quant q vars body) (.quant q vars body.unwrap) :=
      rewriting.quant (rewriting.unwrap body)
    exact rewriting.trans (rewriting.trans unwrapped (rewriting.mergeQuant q vars _))
      (rewriting.unwrap _)

theorem Rewriting.flatten (rewriting : Rewriting R) (f : Formula) : R f f.flatten := by
  induction f with
  | atom a => exact rewriting.refl _
  | junction c parts ih =>
    rw [Formula.flatten, flattenAll_eq_map]
    exact rewriting.trans (rewriting.parts ih) (rewriting.flattenRoot _)
  | neg body ih => exact rewriting.trans (rewriting.neg ih) (rewriting.flattenRoot _)
  | quant q vars body ih => exact rewriting.trans (rewriting.quant ih) (rewriting.flattenRoot _)

/-- The elimination of universal quantifiers needs two more steps. -/
theorem Rewriting.eliminateForAll (rewriting : Rewriting R)
    (valid : ∀ vars body, body.isTautology = true → R (.quant .forAll vars body) truth)
    (dual : ∀ vars body, R (.quant .forAll vars body)
      (Formula.quant .exist vars body.opposite).opposite) (f : Formula) :
    R f f.eliminateForAll := by
  induction f with
  | atom a => exact rewriting.refl _
  | junction c parts ih =>
    rw [Formula.eliminateForAll, eliminateForAllEach_eq_map]
    exact rewriting.parts ih
  | neg body ih => exact rewriting.neg ih
  | quant q vars body ih =>
    cases q with
    | exist => exact rewriting.quant ih
    | forAll =>
      rw [Formula.eliminateForAll]
      split
      · next tautology => exact rewriting.trans (rewriting.quant ih) (valid vars _ tautology)
      · exact rewriting.trans (rewriting.quant ih) (dual vars _)

end Flattening

/-! ## Simplification -/

/-- A relation that contains the steps of simplification as well. -/
structure Simplifying (R : Formula → Formula → Prop) : Prop extends Rewriting R where
  redundant : ∀ c parts, R (.junction c parts) (.junction c (dropRedundant c parts.eraseDups))
  unused : ∀ q vars body, R (.quant q vars body) (.quant q (vars.inter body.free) body)

section Simplification

variable {R : Formula → Formula → Prop}

theorem eq_junction_of_partsOf? {c : Connective} {f : Formula} {parts : List Formula}
    (h : f.partsOf? c = some parts) : f = .junction c parts := by
  cases f with
  | junction d fs =>
    rw [partsOf?] at h
    split at h
    · rename_i same
      rw [same, Option.some.inj h]
    · cases h
  | _ => cases h

theorem Simplifying.restrictQuant (simplifying : Simplifying R) (f : Formula) :
    R f (restrictQuant f) := by
  cases f with
  | quant q vars body =>
    exact simplifying.trans (simplifying.unused q vars body) (simplifying.unwrap _)
  | _ => exact simplifying.refl _

theorem Simplifying.simplifyJunction (simplifying : Simplifying R) (c : Connective)
    (parts : List Formula) : R (.junction c parts) (simplifyJunction c parts) := by
  have flat := simplifying.flattenRoot (.junction c parts)
  simp only [Formula.simplifyJunction]
  split
  · rename_i spliced found
    rw [eq_junction_of_partsOf? found] at flat
    exact simplifying.trans (simplifying.trans flat (simplifying.redundant c spliced))
      (simplifying.unwrap _)
  · exact flat

theorem Simplifying.simplify (simplifying : Simplifying R) (f : Formula) : R f f.simplify := by
  induction f with
  | atom a => exact simplifying.refl _
  | junction c parts ih =>
    rw [Formula.simplify, simplifyAll_eq_map]
    have each : ∀ f ∈ parts, R f f.simplify.unwrap := fun f hf =>
      simplifying.trans (ih f hf) (simplifying.unwrap _)
    exact simplifying.trans (simplifying.parts each) (simplifying.simplifyJunction c _)
  | neg body ih =>
    have inside := simplifying.neg (simplifying.trans ih (simplifying.unwrap _))
    exact simplifying.trans inside (simplifying.unwrap _)
  | quant q vars body ih =>
    have inside : R (.quant q vars body) (.quant q vars body.simplify.unwrap) :=
      simplifying.quant (simplifying.trans ih (simplifying.unwrap _))
    exact simplifying.trans (simplifying.trans inside (simplifying.flattenRoot _))
      (simplifying.restrictQuant _)

theorem Simplifying.optimize (simplifying : Simplifying R) (f : Formula) : R f f.optimize := by
  have passes : ∀ n f, R f (simplifyWithin n f) := by
    intro n
    induction n with
    | zero => exact simplifying.refl
    | succ n ih =>
      intro f
      rw [simplifyWithin]
      split
      · exact simplifying.simplify f
      · exact simplifying.trans (simplifying.simplify f) (ih _)
  exact passes (f.weight + 1) f

/-! ### Redundant parts -/

section EraseDups

variable {α : Type} [BEq α]

theorem eraseDups_sublist (l : List α) : l.eraseDups.Sublist l := by
  match l with
  | [] => exact List.Sublist.refl _
  | a :: l =>
    rw [List.eraseDups_cons]
    have rest := eraseDups_sublist (l.filter fun b => !b == a)
    exact (rest.trans List.filter_sublist).cons_cons a
termination_by l.length
decreasing_by simpa [Nat.lt_succ_iff] using List.length_filter_le _ l

/-- Of every element of a list, an equal one is kept. -/
theorem exists_mem_eraseDups {a : α} {l : List α} (ha : a ∈ l) :
    ∃ b ∈ l.eraseDups, a = b ∨ (a == b) = true := by
  match l with
  | b :: l =>
    rw [List.eraseDups_cons]
    by_cases equal : a = b ∨ (a == b) = true
    · exact ⟨b, List.mem_cons_self, equal⟩
    · have kept : a ∈ l.filter fun c => !c == b := by
        refine List.mem_filter.2 ⟨(List.mem_cons.1 ha).resolve_left fun e => equal (.inl e), ?_⟩
        have differs : ¬ (a == b) = true := fun e => equal (.inr e)
        simpa using differs
      rcases exists_mem_eraseDups kept with ⟨c, hc, same⟩
      exact ⟨c, List.mem_cons_of_mem b hc, same⟩
termination_by l.length
decreasing_by simpa [Nat.lt_succ_iff] using List.length_filter_le _ l

end EraseDups

section Fewer

-- junctions may be replaced by junctions of fewer parts
variable (rewriting : Rewriting R)
  (fewer : ∀ c {fs gs}, gs.Sublist fs → R (.junction c fs) (.junction c gs))

include rewriting fewer

theorem Rewriting.removeAtoms (c : Connective) (atoms : List Formula) (f : Formula) :
    R f (removeAtoms c atoms f) := by
  unfold Formula.removeAtoms
  split
  · split
    · exact fewer _ List.filter_sublist
    · exact rewriting.refl _
  · exact rewriting.refl _

theorem Rewriting.reduceNegated (c : Connective) (atoms : List Formula) (f : Formula) :
    R f (reduceNegated c atoms f) := by
  unfold Formula.reduceNegated
  split
  · rename_i vars body
    have inside : R (.quant .exist vars body) (.quant .exist vars (body.removeAtoms c atoms)) :=
      rewriting.quant (rewriting.removeAtoms fewer c atoms body)
    exact rewriting.trans (rewriting.neg (rewriting.trans inside (rewriting.unwrap _)))
      (rewriting.unwrap _)
  · rename_i body _
    have inside := rewriting.removeAtoms fewer c atoms body
    exact rewriting.trans (rewriting.neg (rewriting.trans inside (rewriting.unwrap _)))
      (rewriting.unwrap _)
  · exact rewriting.refl _

theorem Rewriting.dropRedundant (c : Connective) (parts : List Formula) :
    R (.junction c parts) (.junction c (dropRedundant c parts)) := by
  simp only [Formula.dropRedundant]
  -- parts are dropped, the others reduced, and parts are dropped again
  refine rewriting.trans (fewer c List.filter_sublist)
    (rewriting.trans (rewriting.parts ?_) (fewer c List.filter_sublist))
  exact fun f _ => rewriting.reduceNegated fewer c _ f

end Fewer

theorem Rewriting.simplifying (rewriting : Rewriting R)
    (fewer : ∀ c {fs gs}, gs.Sublist fs → R (.junction c fs) (.junction c gs))
    (unused : ∀ q vars body, R (.quant q vars body) (.quant q (vars.inter body.free) body)) :
    Simplifying R :=
  { rewriting with
    redundant := fun c parts => rewriting.trans (fewer c (eraseDups_sublist parts))
      (rewriting.dropRedundant fewer c _)
    unused := unused }

end Simplification

/-! ## Free variables -/

theorem mem_splice {c : Connective} {parts : List Formula} {f : Formula} :
    f ∈ splice c parts ↔ ∃ part ∈ parts, f ∈ (part.partsOf? c).getD [part] :=
  List.mem_flatMap

/-- What a junction has just if one of its parts has it is found among the spliced parts just if it
is found among the parts. -/
theorem exists_mem_splice_iff {c : Connective} {parts : List Formula} {P : Formula → Prop}
    (own : ∀ fs, P (.junction c fs) ↔ ∃ f ∈ fs, P f) :
    (∃ f ∈ splice c parts, P f) ↔ ∃ f ∈ parts, P f := by
  have part : ∀ f : Formula, (∃ g ∈ (f.partsOf? c).getD [f], P g) ↔ P f := by
    intro f
    cases found : f.partsOf? c with
    | none => simp
    | some fs =>
      rw [eq_junction_of_partsOf? found]
      exact (own fs).symm
  constructor
  · rintro ⟨g, hg, h⟩
    rcases mem_splice.1 hg with ⟨f, hf, inside⟩
    exact ⟨f, hf, (part f).1 ⟨g, inside, h⟩⟩
  · rintro ⟨f, hf, h⟩
    rcases (part f).2 h with ⟨g, inside, h⟩
    exact ⟨g, mem_splice.2 ⟨f, hf, inside⟩, h⟩

/-- The same for what a junction has just if all its parts have it. -/
theorem forall_mem_splice_iff {c : Connective} {parts : List Formula} {P : Formula → Prop}
    (own : ∀ fs, P (.junction c fs) ↔ ∀ f ∈ fs, P f) :
    (∀ f ∈ splice c parts, P f) ↔ ∀ f ∈ parts, P f := by
  -- the parts without the property are found in the same way
  have lacking : (∃ f ∈ splice c parts, ¬ P f) ↔ ∃ f ∈ parts, ¬ P f := by
    refine exists_mem_splice_iff fun fs => ?_
    rw [own]
    push Not
    rfl
  simpa using not_congr lacking

theorem mem_free_splice {c : Connective} {parts : List Formula} {x : Ident} :
    x ∈ (Formula.junction c (splice c parts)).free ↔ x ∈ (Formula.junction c parts).free := by
  rw [mem_free_junction, mem_free_junction]
  exact exists_mem_splice_iff fun fs => mem_free_junction

theorem mem_free_single {c : Connective} {f : Formula} {x : Ident} :
    x ∈ (Formula.junction c [f]).free ↔ x ∈ f.free := by
  simp [mem_free_junction]

theorem mem_free_vacuous {q : Quantifier} {vars : VarSet} {f : Formula} {x : Ident}
    (empty : vars.isEmpty = true) : x ∈ (Formula.quant q vars f).free ↔ x ∈ f.free := by
  rw [mem_free_quant, and_iff_left (VarSet.isEmpty_iff.1 empty x)]

theorem mem_free_repeated {q : Quantifier} {vars inner : VarSet} {f : Formula} {x : Ident} :
    x ∈ (Formula.quant q (vars.union inner) f).free ↔
      x ∈ (Formula.quant q vars (.quant q inner f)).free := by
  simp only [mem_free_quant, VarSet.mem_union, not_or]
  tauto

/-- Flattening keeps the free variables. -/
theorem rewriting_free : Rewriting fun f g => ∀ x, x ∈ g.free ↔ x ∈ f.free where
  refl f x := Iff.rfl
  trans hfg hgh x := (hgh x).trans (hfg x)
  junction := by
    intro c fs gs each x
    rw [mem_free_junction, mem_free_junction]
    induction each with
    | nil => simp
    | cons head tail ih => simp only [List.mem_cons, exists_eq_or_imp, head x, ih]
  neg h := h
  quant := by
    intro q vars f g h x
    rw [mem_free_quant, mem_free_quant, h x]
  negNeg f x := Iff.rfl
  single c f x := mem_free_single.symm
  vacuous q vars f empty x := (mem_free_vacuous empty).symm
  nested c parts x := mem_free_splice
  repeated q vars inner f x := mem_free_repeated

theorem mem_free_flatten {f : Formula} {x : Ident} : x ∈ f.flatten.free ↔ x ∈ f.free :=
  rewriting_free.flatten f x

theorem mem_free_unwrap {f : Formula} {x : Ident} : x ∈ f.unwrap.free ↔ x ∈ f.free :=
  rewriting_free.unwrap f x

theorem mem_free_opposite {f : Formula} {x : Ident} : x ∈ f.opposite.free ↔ x ∈ f.free := by
  cases f <;> rfl

/-- A simplified formula may have fewer free variables. -/
theorem simplifying_free : Simplifying fun f g => ∀ x, x ∈ g.free → x ∈ f.free := by
  have rewriting : Rewriting fun f g => ∀ x, x ∈ g.free → x ∈ f.free :=
    { refl := fun f x hx => hx
      trans := fun hfg hgh x hx => hfg x (hgh x hx)
      junction := by
        intro c fs gs each x hx
        rcases mem_free_junction.1 hx with ⟨g, hg, hx⟩
        rcases forall₂_exists_left each hg with ⟨f, hf, h⟩
        exact mem_free_junction.2 ⟨f, hf, h x hx⟩
      neg := fun h => h
      quant := by
        intro q vars f g h x hx
        rcases mem_free_quant.1 hx with ⟨inside, unbound⟩
        exact mem_free_quant.2 ⟨h x inside, unbound⟩
      negNeg := fun f x hx => hx
      single := fun c f x => mem_free_single.2
      vacuous := fun q vars f empty x => (mem_free_vacuous empty).2
      nested := fun c parts x => mem_free_splice.1
      repeated := fun q vars inner f x => mem_free_repeated.1 }
  refine rewriting.simplifying ?fewer ?unused
  case fewer =>
    intro c fs gs sub x hx
    rcases mem_free_junction.1 hx with ⟨g, hg, hx⟩
    exact mem_free_junction.2 ⟨g, sub.subset hg, hx⟩
  case unused =>
    intro q vars body x hx
    -- the variables that are no longer bound do not occur in the body
    rcases mem_free_quant.1 hx with ⟨inside, unbound⟩
    exact mem_free_quant.2 ⟨inside, fun h => unbound (VarSet.mem_inter.2 ⟨h, inside⟩)⟩

theorem mem_free_of_optimize {f : Formula} {x : Ident} (hx : x ∈ f.optimize.free) : x ∈ f.free :=
  simplifying_free.optimize f x hx

/-! ## Atoms -/

theorem atoms_junction (c : Connective) (parts : List Formula) :
    (Formula.junction c parts).atoms = parts.flatMap atoms :=
  atomsAll_eq_flatMap parts

theorem mem_atoms_junction {c : Connective} {parts : List Formula} {a : Atom} :
    a ∈ (Formula.junction c parts).atoms ↔ ∃ f ∈ parts, a ∈ f.atoms := by
  rw [atoms_junction, List.mem_flatMap]

theorem atoms_splice (c : Connective) (parts : List Formula) :
    (splice c parts).flatMap atoms = parts.flatMap atoms := by
  rw [splice, List.flatMap_assoc]
  refine List.flatMap_congr fun f _ => ?_
  cases found : f.partsOf? c with
  | none => exact List.append_nil _
  | some fs =>
    rw [eq_junction_of_partsOf? found, atoms_junction]
    rfl

/-- The steps of flattening leave the atoms as they are. -/
theorem rewriting_atoms : Rewriting fun f g => g.atoms = f.atoms where
  refl _ := rfl
  trans hfg hgh := hgh.trans hfg
  junction {c fs gs} each := by
    rw [atoms_junction, atoms_junction]
    induction each with
    | nil => rfl
    | cons first _ ih => rw [List.flatMap_cons, List.flatMap_cons, first, ih]
  neg h := h
  quant h := h
  negNeg _ := rfl
  single c f := (List.append_nil f.atoms).symm
  vacuous _ _ _ _ := rfl
  nested c parts := by rw [atoms_junction, atoms_junction, atoms_splice]
  repeated _ _ _ _ := rfl

/-- The only atom that a normal form can have by itself is truth. -/
theorem simplifying_atoms :
    Simplifying fun f g => ∀ a ∈ g.atoms, a ∈ f.atoms ∨ a = .truth true := by
  have rewriting : Rewriting fun f g => ∀ a ∈ g.atoms, a ∈ f.atoms ∨ a = .truth true :=
    { refl := fun f a ha => .inl ha
      trans := fun hfg hgh a ha => (hgh a ha).elim (hfg a) .inr
      junction := by
        intro c fs gs each a ha
        rcases mem_atoms_junction.1 ha with ⟨g, hg, ha⟩
        rcases forall₂_exists_left each hg with ⟨f, hf, h⟩
        exact (h a ha).imp_left fun ha => mem_atoms_junction.2 ⟨f, hf, ha⟩
      neg := fun h => h
      quant := fun h => h
      negNeg := fun f a ha => .inl ha
      single := fun c f a ha => .inl (mem_atoms_junction.2 ⟨f, List.mem_singleton_self f, ha⟩)
      vacuous := fun q vars f _ a ha => .inl ha
      nested := by
        intro c parts a ha
        rw [atoms_junction, atoms_splice, ← atoms_junction] at ha
        exact .inl ha
      repeated := fun q vars inner f a ha => .inl ha }
  refine rewriting.simplifying ?fewer ?unused
  case fewer =>
    intro c fs gs sub a ha
    rcases mem_atoms_junction.1 ha with ⟨g, hg, ha⟩
    exact .inl (mem_atoms_junction.2 ⟨g, sub.subset hg, ha⟩)
  case unused => exact fun q vars body a ha => .inl ha

theorem atoms_opposite (f : Formula) : f.opposite.atoms = f.atoms := by
  cases f <;> rfl

theorem mem_atoms_of_prepared {f : Formula} {a : Atom} (ha : a ∈ f.prepared.atoms) :
    a ∈ f.atoms ∨ a = .truth true := by
  have rewriting := simplifying_atoms.toRewriting
  have eliminated := rewriting.eliminateForAll
    (fun vars body _ a ha => .inr (List.mem_singleton.1 ha))
    (fun vars body a ha => .inl (by simpa [atoms, atoms_opposite] using ha)) f
  have flat := rewriting.trans eliminated (rewriting.flatten _)
  exact rewriting.trans flat (rewriting.unwrap _) a ha

theorem mem_atoms_of_flatten {f : Formula} {a : Atom} (ha : a ∈ f.flatten.atoms) :
    a ∈ f.atoms ∨ a = .truth true :=
  simplifying_atoms.flatten f a ha

theorem mem_atoms_of_optimize {f : Formula} {a : Atom} (ha : a ∈ f.optimize.atoms) :
    a ∈ f.atoms ∨ a = .truth true :=
  simplifying_atoms.optimize f a ha

/-- A variable that can be selected occurs in a predicate atom. -/
theorem exists_atom_of_mem_selectable {f : Formula} {x : Ident} (hx : x ∈ f.selectable) :
    ∃ a, Atom.predicate a ∈ f.atoms ∧ x ∈ (Formula.predicate a).free := by
  induction f with
  | atom a =>
    cases a with
    | truth b => exact absurd hx not_mem_selectable_truth
    | predicate a => exact ⟨a, List.mem_singleton_self _, mem_selectable_predicate.1 hx⟩
    | comparison c => exact absurd hx not_mem_selectable_comparison
  | junction c parts ih =>
    -- from a disjunction only what all parts have can be selected, so any part will do
    have part : ∃ f ∈ parts, x ∈ f.selectable := by
      cases c with
      | and => exact mem_selectable_and.1 hx
      | or =>
        cases parts with
        | nil => exact absurd hx not_mem_selectable_empty
        | cons f fs => exact ⟨f, List.mem_cons_self, mem_selectable_or.1 hx f List.mem_cons_self⟩
    rcases part with ⟨f, hf, hx⟩
    rcases ih f hf hx with ⟨a, ha, hx⟩
    exact ⟨a, mem_atoms_junction.2 ⟨f, hf, ha⟩, hx⟩
  | neg body ih => exact absurd hx not_mem_selectable_neg
  | quant q vars body ih => exact ih (mem_selectable_quant.1 hx).1

/-! ## Variables of predicate atoms -/

/-- The variable is free in a predicate atom that is reached through conjunctions and
quantifiers. -/
inductive Anchored (x : Ident) : Formula → Prop
  | atom {a : PredicateAtom} : x ∈ (Formula.predicate a).free → Anchored x (.predicate a)
  | part {parts : List Formula} {f : Formula} :
    f ∈ parts → Anchored x f → Anchored x (.junction .and parts)
  | quant {q : Quantifier} {vars : VarSet} {body : Formula} :
    x ∉ vars → Anchored x body → Anchored x (.quant q vars body)

theorem anchored_and {parts : List Formula} {x : Ident} :
    Anchored x (.junction .and parts) ↔ ∃ f ∈ parts, Anchored x f := by
  constructor
  · intro h
    cases h with
    | part hf h => exact ⟨_, hf, h⟩
  · rintro ⟨f, hf, h⟩
    exact .part hf h

theorem Anchored.of_same {f g : Formula} {x : Ident} (h : Anchored x f) (same : f.same g = true) :
    Anchored x g := by
  refine same_induction (P := fun f g => Anchored x f → Anchored x g) ?atom ?junction ?neg ?quant
    same h
  case atom =>
    intro a b equal h
    cases h with
    | @atom a hx =>
      cases b with
      | predicate b =>
        have formulas : (Formula.predicate a).same (.predicate b) = true := equal
        exact .atom ((mem_free_iff_of_same formulas).1 hx)
      | _ => cases equal
  case junction =>
    intro c fs gs pairs h
    cases h with
    | part hf h =>
      rcases forall₂_exists_left pairs.flip hf with ⟨g, hg, step⟩
      exact .part hg (step h)
  case neg => exact fun _ _ _ h => nomatch h
  case quant =>
    intro q xs ys f g bound step h
    cases h with
    | quant unbound h =>
      have mem := VarSet.mem_iff_of_beq bound (x := x)
      exact .quant (fun hx => unbound (mem.2 hx)) (step h)

/-- A formula that depends on a predicate atom is no tautology. -/
theorem Anchored.isTautology {f : Formula} {x : Ident} (h : Anchored x f) :
    f.isTautology = false := by
  induction h with
  | atom hx => rfl
  | part hf _ ih =>
    rw [Formula.isTautology, allTautologies_eq_all, List.all_eq_false]
    exact ⟨_, hf, by simp [ih]⟩
  | @quant q vars body _ _ ih =>
    cases q with
    | exist => rfl
    | forAll => exact ih

theorem Anchored.stripExists {f : Formula} {x : Ident} (h : Anchored x f) :
    Anchored x f.stripExists := by
  induction h with
  | atom hx => exact .atom hx
  | part hf inside _ => exact .part hf inside
  | @quant q vars body unbound inside ih =>
    cases q with
    | exist => exact ih
    | forAll => exact .quant unbound inside

/-- A conjunct with an anchored variable is never redundant. -/
theorem Anchored.mem_dropRedundant {parts : List Formula} {f : Formula} {x : Ident}
    (h : Anchored x f) (hf : f ∈ parts) : f ∈ dropRedundant .and parts := by
  have unabsorbed : ∀ atoms, isAbsorbed .and atoms f = false := by
    intro atoms
    unfold isAbsorbed
    split
    · rename_i found
      -- below its existential quantifiers it would be a disjunction
      have stripped := h.stripExists
      rw [eq_junction_of_partsOf? found] at stripped
      cases stripped
    · rfl
  have unreduced : ∀ atoms, reduceNegated .and atoms f = f := by
    intro atoms
    cases h <;> rfl
  refine List.mem_filter.2 ⟨List.mem_map.2 ⟨f, List.mem_filter.2 ⟨hf, ?_⟩, unreduced _⟩, ?_⟩
  · simp [unabsorbed]
  · simp [isNeutral, h.isTautology]

/-- Normal forms keep the variables of the predicate atoms that are reached through conjunctions and
quantifiers. -/
theorem simplifying_anchored : Simplifying fun f g => ∀ x, Anchored x f → Anchored x g where
  refl f x h := h
  trans hfg hgh x h := hgh x (hfg x h)
  junction := by
    intro c fs gs each x h
    cases h with
    | part hf h =>
      rcases forall₂_exists_left each.flip hf with ⟨g, hg, step⟩
      exact .part hg (step x h)
  neg _ x h := by cases h
  quant := by
    intro q vars f g step x h
    cases h with
    | quant unbound h => exact .quant unbound (step x h)
  negNeg f x h := by cases h
  single := by
    intro c f x h
    cases h with
    | part hf h => exact List.mem_singleton.1 hf ▸ h
  vacuous := by
    intro q vars f _ x h
    cases h with
    | quant _ h => exact h
  nested := by
    intro c parts x h
    cases c with
    | and =>
      exact anchored_and.2
        ((exists_mem_splice_iff fun _ => anchored_and).2 (anchored_and.1 h))
    | or => cases h
  repeated := by
    intro q vars inner f x h
    cases h with
    | quant outside h =>
      cases h with
      | quant inside h => exact .quant (by simp [outside, inside]) h
  redundant := by
    intro c parts x h
    cases h with
    | part hf h =>
      -- if the part itself is erased, then for an equal one that stays
      rcases exists_mem_eraseDups hf with ⟨g, hg, same⟩
      have kept : Anchored x g := same.elim (fun e => e ▸ h) h.of_same
      exact .part (kept.mem_dropRedundant hg) kept
  unused := by
    intro q vars body x h
    cases h with
    | quant unbound h => exact .quant (fun hx => unbound (VarSet.mem_inter.1 hx).1) h

/-! ## Universally quantified tautologies -/

/-- The variable is free somewhere outside of the universally quantified tautologies. -/
inductive Lasting (x : Ident) : Formula → Prop
  | atom {a : Atom} : x ∈ (Formula.atom a).free → Lasting x (.atom a)
  | part {c : Connective} {parts : List Formula} {f : Formula} :
    f ∈ parts → Lasting x f → Lasting x (.junction c parts)
  | neg {body : Formula} : Lasting x body → Lasting x (.neg body)
  | exist {vars : VarSet} {body : Formula} :
    x ∉ vars → Lasting x body → Lasting x (.quant .exist vars body)
  | forAll {vars : VarSet} {body : Formula} :
    x ∉ vars → body.isTautology = false → Lasting x body → Lasting x (.quant .forAll vars body)

theorem Lasting.mem_free {f : Formula} {x : Ident} (h : Lasting x f) : x ∈ f.free := by
  induction h with
  | atom hx => exact hx
  | part hf _ ih => exact mem_free_junction.2 ⟨_, hf, ih⟩
  | neg _ ih => exact ih
  | exist unbound _ ih => exact mem_free_quant.2 ⟨ih, unbound⟩
  | forAll unbound _ _ ih => exact mem_free_quant.2 ⟨ih, unbound⟩

theorem Anchored.lasting {f : Formula} {x : Ident} (h : Anchored x f) : Lasting x f := by
  induction h with
  | atom hx => exact .atom hx
  | part hf _ ih => exact .part hf ih
  | @quant q vars body unbound inside ih =>
    cases q with
    | exist => exact .exist unbound ih
    | forAll => exact .forAll unbound inside.isTautology ih

theorem isContradiction_opposite (f : Formula) : f.opposite.isContradiction = f.isTautology := by
  cases f <;> rfl

theorem map_all_any_eq {h : Formula → Formula} {p : Formula → Bool} {fs : List Formula}
    (each : ∀ f ∈ fs, p (h f) = p f) :
    (fs.map h).all p = fs.all p ∧ (fs.map h).any p = fs.any p := by
  induction fs with
  | nil => exact ⟨rfl, rfl⟩
  | cons f fs ih =>
    have here := each f List.mem_cons_self
    have there := ih fun g hg => each g (List.mem_cons_of_mem f hg)
    simp only [List.map_cons, List.all_cons, List.any_cons, here, there, and_self]

/-- The elimination of universal quantifiers does not change what is evidently valid. -/
theorem isTautology_eliminateForAll (f : Formula) :
    f.eliminateForAll.isTautology = f.isTautology ∧
      f.eliminateForAll.isContradiction = f.isContradiction := by
  induction f with
  | atom a => exact ⟨rfl, rfl⟩
  | junction c parts ih =>
    have valid := map_all_any_eq fun f hf => (ih f hf).1
    have invalid := map_all_any_eq fun f hf => (ih f hf).2
    rw [eliminateForAll, eliminateForAllEach_eq_map]
    cases c <;> simp only [isTautology, isContradiction, allTautologies_eq_all, anyTautology_eq_any,
      allContradictions_eq_all, anyContradiction_eq_any]
    · exact ⟨valid.1, invalid.2⟩
    · exact ⟨valid.2, invalid.1⟩
  | neg body ih => exact ⟨ih.2, ih.1⟩
  | quant q vars body ih =>
    cases q with
    | exist => exact ⟨rfl, ih.2⟩
    | forAll =>
      -- the quantifier is dropped over a body that is evidently valid, and negated twice over
      -- others
      rw [eliminateForAll]
      split
      · rename_i valid
        exact ⟨(ih.1.symm.trans valid).symm, rfl⟩
      · rename_i notValid
        have inside := isContradiction_opposite body.eliminateForAll
        exact ⟨inside.trans ih.1, rfl⟩

/-- The variables that last are those that are free after the elimination of universal
quantifiers. -/
theorem mem_free_eliminateForAll {f : Formula} {x : Ident} :
    x ∈ f.eliminateForAll.free ↔ Lasting x f := by
  induction f with
  | atom a => exact ⟨.atom, Lasting.mem_free⟩
  | junction c parts ih =>
    rw [eliminateForAll, eliminateForAllEach_eq_map, mem_free_junction]
    simp only [List.mem_map, exists_exists_and_eq_and]
    constructor
    · rintro ⟨f, hf, hx⟩
      exact .part hf ((ih f hf).1 hx)
    · rintro (_ | ⟨hf, h⟩)
      exact ⟨_, hf, (ih _ hf).2 h⟩
  | neg body ih =>
    rw [eliminateForAll, mem_free_neg, ih]
    exact ⟨.neg, fun h => by cases h; assumption⟩
  | quant q vars body ih =>
    cases q with
    | exist =>
      rw [eliminateForAll, mem_free_quant, ih]
      constructor
      · exact fun h => .exist h.2 h.1
      · intro h
        cases h with
        | exist unbound h => exact ⟨h, unbound⟩
    | forAll =>
      have valid := (isTautology_eliminateForAll body).1
      -- a body that is evidently valid is dropped, with all its variables
      rw [eliminateForAll, valid]
      split
      · rename_i tautology
        constructor
        · intro hx
          exact absurd hx (VarSet.not_mem_empty x)
        · intro h
          cases h with
          | forAll _ notValid _ => rw [tautology] at notValid; cases notValid
      · rename_i notValid
        rw [mem_free_opposite, mem_free_quant, mem_free_opposite, ih]
        constructor
        · exact fun h => .forAll h.2 (by simpa using notValid) h.1
        · intro h
          cases h with
          | forAll unbound _ h => exact ⟨h, unbound⟩

/-- The free variables of the formula that is compiled. -/
theorem mem_free_prepared {f : Formula} {x : Ident} : x ∈ f.prepared.free ↔ Lasting x f := by
  rw [prepared, mem_free_unwrap, mem_free_flatten, mem_free_eliminateForAll]

end Formula
end QueryCalculus
