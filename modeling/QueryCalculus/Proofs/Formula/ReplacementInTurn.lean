import QueryCalculus.Proofs.Formula.Replacement

/-!
# Replacements in turn

- `VarSet.ofList_toList`, `Formula.replace_nil` : the empty substitution changes nothing
- `Formula.same_replace_replace`, `Formula.atoms_replace` : one substitution after the other
- `Substitution.Independent` : no replacement touches what an earlier one has brought in
- `Formula.replaceInTurn_same_replace` : such replacements can be made in turn or all at once

In both cases the atoms are the same. The sets of bound variables are equal, but a set keeps only
one occurrence of a variable, and which one it is depends on the order of the replacements.
-/

namespace QueryCalculus

theorem Atom.mapTerms_mapTerms (g h : Term → Term) (a : Atom) :
    (a.mapTerms g).mapTerms h = a.mapTerms fun t => h (g t) := by
  cases a with
  | truth b => rfl
  | predicate a => simp [Atom.mapTerms, Function.comp_def]
  | comparison c => rfl

/-! ## The empty substitution -/

namespace VarSet

/-- A variable that is larger than all others is placed behind them. -/
theorem place_of_above {keep : Bool} {x : Variable} {ys : List Variable}
    (above : ∀ y ∈ ys, y.toIdent < x.toIdent) : place keep x ys = ys ++ [x] := by
  induction ys with
  | nil => rfl
  | cons y ys ih =>
    have first : compare x.toIdent y.toIdent = .gt :=
      Std.OrientedCmp.gt_of_lt (above y List.mem_cons_self)
    have rest := ih fun z hz => above z (List.mem_cons_of_mem y hz)
    simp only [place, first, rest, List.cons_append]

theorem ofList_toList (s : VarSet) : ofList s.toList = s := by
  -- the variables are put behind those that are there already
  have run : ∀ (xs : List Variable) (done : VarSet),
      (done.toList ++ xs).Pairwise (fun x y => x.toIdent < y.toIdent) →
        (xs.foldl put done).toList = done.toList ++ xs := by
    intro xs
    induction xs with
    | nil =>
      intro done _
      exact (List.append_nil _).symm
    | cons x xs ih =>
      intro done sorted
      have above : ∀ y ∈ done.toList, y.toIdent < x.toIdent := fun y hy =>
        (List.pairwise_append.1 sorted).2.2 y hy x List.mem_cons_self
      have step : (done.put x).toList = done.toList ++ [x] := place_of_above above
      have behind : (done.put x).toList ++ xs = done.toList ++ x :: xs := by
        rw [step, List.append_assoc, List.singleton_append]
      rw [List.foldl_cons, ih (done.put x) (behind ▸ sorted), behind]
  exact ext_toList (run s.toList empty s.sorted)

end VarSet

namespace Formula

variable {σ τ ρ : Substitution}

theorem replace_nil (f : Formula) : f.replace [] = f := by
  induction f with
  | atom a => rw [replace, Substitution.apply_nil, Atom.mapTerms_id]
  | junction c parts ih =>
    rw [replace_junction, map_eq_self_iff.2 ih]
  | neg body ih => rw [replace, ih]
  | quant q vars body ih =>
    have all : vars.toList.filterMap (Substitution.applyBound? []) = vars.toList :=
      List.filterMap_some
    rw [replace, ih, VarSet.replace, all, VarSet.ofList_toList]

/-! ## One substitution after the other -/

theorem atoms_replace (σ : Substitution) (f : Formula) :
    (f.replace σ).atoms = f.atoms.map (Atom.mapTerms σ.apply) := by
  induction f with
  | atom a => rfl
  | junction c parts ih =>
    rw [replace_junction, atoms_junction, atoms_junction, List.flatMap_map, List.map_flatMap]
    exact List.flatMap_congr ih
  | neg body ih => exact ih
  | quant q vars body ih => exact ih

/-- Two substitutions are made at once by one that does the same to terms, with the annotations left
aside. -/
theorem same_replace_replace (composed : ∀ t, (τ.apply (σ.apply t)).key = (ρ.apply t).key)
    (f : Formula) : ((f.replace σ).replace τ).same (f.replace ρ) = true := by
  induction f with
  | atom a =>
    have terms : ((a.mapTerms σ.apply).mapTerms τ.apply).same (a.mapTerms ρ.apply) = true := by
      rw [Atom.mapTerms_mapTerms]
      exact Atom.same_mapTerms fun t _ => composed t
    exact terms
  | junction c parts ih =>
    have each : List.Forall₂ (fun g h => g.same h = true)
        ((parts.map (replace σ)).map (replace τ)) (parts.map (replace ρ)) := by
      rw [List.map_map, List.forall₂_map_left_iff, List.forall₂_map_right_iff]
      exact List.forall₂_same.2 ih
    rw [replace_junction, replace_junction, replace_junction]
    exact same_junction_iff.2 ⟨rfl, each⟩
  | neg body ih => exact ih
  | quant q vars body ih =>
    -- the same variables are bound, since they are replaced like those of the atoms
    have bound : ∀ z, z ∈ (vars.replace σ).replace τ ↔ z ∈ vars.replace ρ := by
      intro z
      rw [VarSet.mem_replace, VarSet.mem_replace]
      constructor
      · rintro ⟨y, hy, image⟩
        rcases VarSet.mem_replace.1 hy with ⟨x, hx, between⟩
        have keys : (σ.apply (.var x)).key = (Term.var y).key := between
        refine ⟨x, hx, ?_⟩
        calc
          (ρ.apply (.var x)).key = (τ.apply (σ.apply (.var x))).key := (composed _).symm
          _ = (τ.apply (.var y)).key := Substitution.key_apply_congr keys
          _ = .var z := image
      · rintro ⟨x, hx, image⟩
        have image' : (τ.apply (σ.apply (.var x))).key = .var z := (composed _).trans image
        cases applied : σ.apply (.var x) with
        | var y =>
          rw [applied] at image'
          exact ⟨y, VarSet.mem_replace.2 ⟨x, hx, congrArg Term.key applied⟩, image'⟩
        | const c =>
          -- a constant stays, so it is not replaced by a variable
          rw [applied] at image'
          cases c <;> cases image'
    have sets : ((vars.replace σ).replace τ == vars.replace ρ) = true :=
      VarSet.beq_iff.2 (VarSet.idents_eq bound)
    exact same_quant_iff.2 ⟨rfl, sets, ih⟩

end Formula

/-! ## Independent replacements -/

namespace Substitution

/-- The variables are pairwise different, and no term brings in a variable that is replaced after
it. -/
def Independent (pairs : List (Variable × Term)) : Prop :=
  pairs.Pairwise fun p q => p.1.toIdent ≠ q.1.toIdent ∧ p.2.key ≠ .var q.1.toIdent

instance (pairs : List (Variable × Term)) : Decidable (Independent pairs) :=
  inferInstanceAs (Decidable (List.Pairwise _ _))

variable {p : Variable × Term} {pairs : List (Variable × Term)}

theorem apply_eq_self {σ : Substitution} {t : Term} (absent : ∀ q ∈ σ, t.key ≠ .var q.1.toIdent) :
    σ.apply t = t := by
  cases t with
  | var x =>
    apply apply_var_of_none
    apply find?_eq_none_iff.2
    intro q listed same
    exact absent q listed (congrArg Term.Key.var same.symm)
  | const c => rfl

/-- The first replacement can be made together with the others, if none of them replaces the same
variable or a variable that it brings in. -/
theorem apply_apply_single
    (later : ∀ q ∈ pairs, p.1.toIdent ≠ q.1.toIdent ∧ p.2.key ≠ .var q.1.toIdent) (t : Term) :
    (ofAssignments pairs).apply (apply [p] t) = (ofAssignments (p :: pairs)).apply t := by
  cases t with
  | const c => rfl
  | var x =>
    have split : (ofAssignments (p :: pairs)).find? x =
        ((ofAssignments pairs).find? x).or (find? [p] x) := by
      rw [ofAssignments, List.reverse_cons, find?_append]
      rfl
    by_cases same : p.1.toIdent = x.toIdent
    · have first : find? [p] x = some p.2 := find?_cons_self same
      -- no later pair is for this variable, or for one that its term has
      have others : (ofAssignments pairs).find? x = none := by
        apply find?_eq_none_iff.2
        intro q listed again
        exact (later q (List.mem_reverse.1 listed)).1 (same.trans again.symm)
      have settled : (ofAssignments pairs).apply p.2 = p.2 :=
        apply_eq_self fun q listed => (later q (List.mem_reverse.1 listed)).2
      have joint : (ofAssignments (p :: pairs)).find? x = some p.2 := by
        rw [split, others, first, Option.none_or]
      rw [apply_var_of_some first, settled, apply_var_of_some joint]
    · have first : find? [p] x = none := find?_cons_of_ne same
      rw [apply_var_of_none first, apply, apply, split, first, Option.or_none]

end Substitution

namespace Formula

variable {pairs : List (Variable × Term)}

theorem same_replaceInTurn (independent : Substitution.Independent pairs) (f : Formula) :
    (f.replaceInTurn pairs).same (f.replace (.ofAssignments pairs)) = true := by
  induction pairs generalizing f with
  | nil =>
    have none : f.replace (.ofAssignments []) = f := replace_nil f
    rw [none]
    exact same_refl f
  | cons p pairs ih =>
    have split := List.pairwise_cons.1 independent
    have rest := ih split.2 (f.replace [p])
    have joint : ((f.replace [p]).replace (.ofAssignments pairs)).same
        (f.replace (.ofAssignments (p :: pairs))) = true :=
      same_replace_replace
        (fun t => congrArg Term.key (Substitution.apply_apply_single split.1 t)) f
    exact same_trans rest joint

theorem atoms_replaceInTurn (independent : Substitution.Independent pairs) (f : Formula) :
    (f.replaceInTurn pairs).atoms = (f.replace (.ofAssignments pairs)).atoms := by
  induction pairs generalizing f with
  | nil => exact congrArg atoms (replace_nil f).symm
  | cons p pairs ih =>
    have split := List.pairwise_cons.1 independent
    have joint : ∀ a : Atom,
        (a.mapTerms (Substitution.apply [p])).mapTerms (Substitution.ofAssignments pairs).apply =
          a.mapTerms (Substitution.ofAssignments (p :: pairs)).apply := by
      intro a
      rw [Atom.mapTerms_mapTerms]
      exact congrArg a.mapTerms (funext (Substitution.apply_apply_single split.1))
    calc
      (f.replaceInTurn (p :: pairs)).atoms
        = ((f.replace [p]).replace (.ofAssignments pairs)).atoms := ih split.2 (f.replace [p])
      _ = f.atoms.map (fun a => (a.mapTerms (Substitution.apply [p])).mapTerms
            (Substitution.ofAssignments pairs).apply) := by
        rw [atoms_replace, atoms_replace, List.map_map]
        rfl
      _ = f.atoms.map (Atom.mapTerms (Substitution.ofAssignments (p :: pairs)).apply) :=
        List.map_congr_left fun a _ => joint a
      _ = (f.replace (.ofAssignments (p :: pairs))).atoms := (atoms_replace _ f).symm

/-- Independent replacements give equal formulas, whether they are made in turn or all at once. The
sets of bound variables are equal at every quantifier, and the atoms are the same with all
annotations. -/
theorem replaceInTurn_same_replace (pairs : List (Variable × Term))
    (independent : Substitution.Independent pairs) (f : Formula) :
    (f.replaceInTurn pairs).same (f.replace (.ofAssignments pairs)) = true ∧
      (f.replaceInTurn pairs).atoms = (f.replace (.ofAssignments pairs)).atoms :=
  ⟨same_replaceInTurn independent f, atoms_replaceInTurn independent f⟩

/-- `∃ w x y R(w, x, y)` -/
def triple : Formula :=
  .quant .exist (.ofList [{ name := "w" }, { name := "x" }, { name := "y" }])
    (.predicate ⟨"R", [.var { name := "w" }, .var { name := "x" }, .var { name := "y" }],
      .undefined⟩)

/-- A constant takes the place of `x`, and then `x` takes those of the others. -/
def merging : List (Variable × Term) :=
  [({ name := "x" }, .const (.object "c")), ({ name := "y" }, .var { name := "x" }),
    ({ name := "w" }, .var { name := "x" })]

theorem triple_replaceInTurn_same_replace :
    Substitution.Independent merging ∧
      (triple.replaceInTurn merging).same (triple.replace (.ofAssignments merging)) = true ∧
      (triple.replaceInTurn merging).bound.idents = [{ name := "x" }] := by
  have independent : Substitution.Independent merging := by decide
  exact ⟨independent, (replaceInTurn_same_replace merging independent triple).1, by decide⟩

end Formula
end QueryCalculus
