import QueryCalculus.Proofs.Formula.Equivalence
import QueryCalculus.Proofs.Formula.Nodes

/-!
# Flat formulas

- `Flat` : at no node of the formula anything can be merged or unwrapped
- `flat_flatten`, `flatten_eq_self` : flattening gives flat formulas and keeps those that are flat
- `flatten_flat_equivalent` : flattening gives an equivalent flat formula
- `Existential` : no node is a universal quantifier
- `flat_prepared`, `existential_prepared` : the formulas that are compiled
-/

namespace QueryCalculus

universe u

namespace Formula

/-! ## Flat nodes -/

/-- Nothing can be merged into the root of the formula, and the root itself is needed. -/
def FlatAt : Formula → Prop
  | .atom _ => True
  | .junction c parts => parts.length ≠ 1 ∧ ∀ f ∈ parts, f.connective? ≠ some c
  | .neg body => ∀ inner, body ≠ .neg inner
  | .quant q vars body => vars.isEmpty = false ∧ body.quantifier? ≠ some q

def Flat (f : Formula) : Prop :=
  ∀ g ∈ f.nodes, g.FlatAt

variable {c : Connective} {q : Quantifier} {vars : VarSet} {f body : Formula} {parts : List Formula}

theorem flat_junction :
    (junction c parts).Flat ↔ (junction c parts).FlatAt ∧ ∀ f ∈ parts, f.Flat :=
  forall_nodes_junction

theorem flat_neg : (neg body).Flat ↔ (neg body).FlatAt ∧ body.Flat :=
  forall_nodes_neg

theorem flat_quant : (quant q vars body).Flat ↔ (quant q vars body).FlatAt ∧ body.Flat :=
  forall_nodes_quant

theorem Flat.root (flat : f.Flat) : f.FlatAt :=
  flat f f.self_mem_nodes

/-! ## Steps on flat formulas -/

theorem unwrap_eq_self (flat : f.FlatAt) : f.unwrap = f := by
  fun_cases unwrap f with
  | case1 inner => exact absurd rfl (flat inner)
  | case2 c part => exact absurd rfl flat.1
  | case3 q vars body empty =>
    rw [flat.1] at empty
    cases empty
  | case4 q vars body filled => rfl
  | case5 f => rfl

theorem map_unwrap_eq_self (flat : ∀ f ∈ parts, f.Flat) : parts.map unwrap = parts :=
  map_eq_self_iff.2 fun f hf => unwrap_eq_self (flat f hf).root

theorem partsOf?_eq_none (other : f.connective? ≠ some c) : f.partsOf? c = none := by
  cases f with
  | junction d fs =>
    have differ : c ≠ d := fun same => other (congrArg some same.symm)
    rw [partsOf?, if_neg differ]
  | _ => rfl

theorem splice_eq_self (unnested : ∀ f ∈ parts, f.connective? ≠ some c) :
    splice c parts = parts := by
  have single : ∀ f ∈ parts, (f.partsOf? c).getD [f] = [f] := fun f hf => by
    rw [partsOf?_eq_none (unnested f hf), Option.getD_none]
  calc
    splice c parts = parts.flatMap fun f => [f] := List.flatMap_congr single
    _ = parts := List.flatMap_singleton' parts

theorem mergeQuant_eq (other : body.quantifier? ≠ some q) :
    mergeQuant q vars body = .quant q vars body := by
  cases body with
  | quant r inner g =>
    have differ : q ≠ r := fun same => other (congrArg some same.symm)
    rw [mergeQuant, if_neg differ]
  | _ => rfl

/-- Flat formulas stay as they are. -/
theorem flatten_eq_self (flat : f.Flat) : f.flatten = f := by
  induction f with
  | atom a => rfl
  | junction c parts ih =>
    rcases flat_junction.1 flat with ⟨root, inside⟩
    have kept : parts.map flatten = parts := map_eq_self_iff.2 fun f hf => ih f hf (inside f hf)
    rw [flatten, flattenAll_eq_map, kept, flattenRoot, map_unwrap_eq_self inside,
      splice_eq_self root.2, unwrap_eq_self root]
  | neg body ih =>
    rcases flat_neg.1 flat with ⟨root, inside⟩
    rw [flatten, ih inside, flattenRoot, unwrap_eq_self inside.root, unwrap_eq_self root]
  | quant q vars body ih =>
    rcases flat_quant.1 flat with ⟨root, inside⟩
    rw [flatten, ih inside, flattenRoot, unwrap_eq_self inside.root, mergeQuant_eq root.2,
      unwrap_eq_self root]

/-! ## Flattening -/

/-- The parts of flat parts are flat, and none of them can be spliced again. -/
theorem flat_of_mem_splice (flat : ∀ f ∈ parts, f.Flat) (hf : f ∈ splice c parts) :
    f.Flat ∧ f.connective? ≠ some c := by
  rcases mem_splice.1 hf with ⟨part, hpart, inside⟩
  cases found : part.partsOf? c with
  | none =>
    rw [found, Option.getD_none, List.mem_singleton] at inside
    subst inside
    refine ⟨flat f hpart, fun same => ?_⟩
    cases f with
    | junction d fs =>
      rw [partsOf?, if_pos (Option.some.inj same).symm] at found
      cases found
    | _ => cases same
  | some fs =>
    rw [found, Option.getD_some] at inside
    have nested := flat part hpart
    rw [eq_junction_of_partsOf? found, flat_junction] at nested
    exact ⟨nested.2 f inside, nested.1.2 f inside⟩

theorem flat_unwrap_junction (flat : ∀ f ∈ parts, f.Flat ∧ f.connective? ≠ some c) :
    (junction c parts).unwrap.Flat := by
  by_cases single : parts.length = 1
  · rcases List.length_eq_one_iff.1 single with ⟨part, rfl⟩
    have inside := (flat part List.mem_cons_self).1
    rwa [unwrap, unwrap_eq_self inside.root]
  · have root : (junction c parts).FlatAt := ⟨single, fun f hf => (flat f hf).2⟩
    rw [unwrap_eq_self root]
    exact flat_junction.2 ⟨root, fun f hf => (flat f hf).1⟩

theorem flat_unwrap_neg (flat : body.Flat) : (neg body).unwrap.Flat := by
  cases body with
  | neg inner =>
    have inside := (flat_neg.1 flat).2
    rwa [unwrap, unwrap_eq_self inside.root]
  | _ => exact flat_neg.2 ⟨nofun, flat⟩

theorem flat_unwrap_quant (flat : body.Flat) (other : body.quantifier? ≠ some q) :
    (quant q vars body).unwrap.Flat := by
  rw [unwrap]
  split
  · rwa [unwrap_eq_self flat.root]
  · rename_i filled
    exact flat_quant.2 ⟨⟨by simpa using filled, other⟩, flat⟩

theorem flat_mergeQuant (flat : body.Flat) : (mergeQuant q vars body).unwrap.Flat := by
  by_cases same : body.quantifier? = some q
  · cases body with
    | quant r inner g =>
      cases same
      -- below a quantifier of a flat formula there is no other one of its kind
      rcases flat_quant.1 flat with ⟨root, inside⟩
      rw [mergeQuant, if_pos rfl, mergeQuant_eq root.2]
      exact flat_unwrap_quant inside root.2
    | _ => cases same
  · rw [mergeQuant_eq same]
    exact flat_unwrap_quant flat same

theorem flat_flatten (f : Formula) : f.flatten.Flat := by
  induction f with
  | atom a => exact forall_nodes_atom.2 trivial
  | junction c parts ih =>
    have inside : ∀ f ∈ parts.map flatten, f.Flat := List.forall_mem_map.2 ih
    rw [flatten, flattenAll_eq_map, flattenRoot, map_unwrap_eq_self inside]
    exact flat_unwrap_junction fun f hf => flat_of_mem_splice inside hf
  | neg body ih =>
    rw [flatten, flattenRoot, unwrap_eq_self ih.root]
    exact flat_unwrap_neg ih
  | quant q vars body ih =>
    rw [flatten, flattenRoot, unwrap_eq_self ih.root]
    exact flat_mergeQuant ih

/-- Flattening keeps the meaning, with the blank as an ordinary variable and with independent
blanks, and the free variables. The results are the flat formulas, which stay as they are. -/
theorem flatten_flat_equivalent (f : Formula) :
    Equivalent.{u} f f.flatten ∧ EquivalentApart.{u} f f.flatten ∧
    (∀ x : Ident, x ∈ f.flatten.free ↔ x ∈ f.free) ∧
    f.flatten.Flat ∧ (f.flatten = f ↔ f.Flat) := by
  have flat := flat_flatten f
  exact ⟨rewriting_equivalent.flatten f, rewriting_equivalentApart.flatten f,
    fun _ => mem_free_flatten, flat, fun same => same ▸ flat, flatten_eq_self⟩

theorem flat_prepared (f : Formula) : f.prepared.Flat := by
  have flat := flat_flatten f.eliminateForAll
  rwa [prepared, unwrap_eq_self flat.root]

/-! ## Existential formulas -/

/-- There is no universal quantifier in the formula. -/
def Existential (f : Formula) : Prop :=
  ∀ g ∈ f.nodes, g.quantifier? ≠ some .forAll

theorem existential_atom (a : Atom) : (atom a).Existential :=
  forall_nodes_atom.2 (by simp [quantifier?])

theorem existential_junction : (junction c parts).Existential ↔ ∀ f ∈ parts, f.Existential :=
  forall_nodes_junction.trans (and_iff_right nofun)

theorem existential_neg : (neg body).Existential ↔ body.Existential :=
  forall_nodes_neg.trans (and_iff_right nofun)

theorem existential_quant : (quant q vars body).Existential ↔ q = .exist ∧ body.Existential := by
  refine forall_nodes_quant.trans (and_congr_left fun _ => ?_)
  cases q <;> simp [quantifier?]

theorem existential_opposite : f.opposite.Existential ↔ f.Existential := by
  cases f with
  | neg body => exact existential_neg.symm
  | _ => exact existential_neg

theorem rewriting_existential : Rewriting fun f g => f.Existential → g.Existential where
  refl f h := h
  trans hfg hgh h := hgh (hfg h)
  junction := by
    intro c fs gs each h
    refine existential_junction.2 fun g hg => ?_
    rcases forall₂_exists_left each hg with ⟨f, hf, step⟩
    exact step (existential_junction.1 h f hf)
  neg step h := existential_neg.2 (step (existential_neg.1 h))
  quant step h := existential_quant.2 ((existential_quant.1 h).imp_right step)
  negNeg f h := existential_neg.1 (existential_neg.1 h)
  single c f h := existential_junction.1 h f List.mem_cons_self
  vacuous q vars f _ h := (existential_quant.1 h).2
  nested := by
    intro c parts h
    rw [existential_junction] at h ⊢
    exact (forall_mem_splice_iff fun _ => existential_junction).2 h
  repeated q vars inner f h := existential_quant.2
    ⟨(existential_quant.1 h).1, (existential_quant.1 (existential_quant.1 h).2).2⟩

theorem existential_eliminateForAll (f : Formula) : f.eliminateForAll.Existential := by
  induction f with
  | atom a => exact existential_atom a
  | junction c parts ih =>
    rw [eliminateForAll, eliminateForAllEach_eq_map]
    exact existential_junction.2 (List.forall_mem_map.2 ih)
  | neg body ih => exact existential_neg.2 ih
  | quant q vars body ih =>
    cases q with
    | exist => exact existential_quant.2 ⟨rfl, ih⟩
    | forAll =>
      rw [eliminateForAll]
      split
      · exact existential_atom _
      · exact existential_opposite.2 (existential_quant.2 ⟨rfl, existential_opposite.2 ih⟩)

theorem existential_prepared (f : Formula) : f.prepared.Existential :=
  rewriting_existential.unwrap _ (rewriting_existential.flatten _ (existential_eliminateForAll f))

end Formula
end QueryCalculus
