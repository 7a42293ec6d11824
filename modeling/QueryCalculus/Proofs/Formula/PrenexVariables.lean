import QueryCalculus.Proofs.Formula.PrenexForm

/-!
# The variables of prenex forms

- `atoms_hoist` : moving quantifiers leaves the atoms as they are, in their order
- `boundBy` : the variables that blocks of quantifiers bind, once for each block
- `perm_boundAs` : every quantifier acts as one of the two kinds
- `perm_binders_hoist` : if no variable is bound twice, the same variables are bound in front
- `unbound_hoist` : a variable that is bound somewhere is bound everywhere in the result
- `prenex_shape` : blocks, free variables and bound names of a prenex form

A quantifier in front reaches the whole matrix. No variable is captured by that only because the
quantified variables are renamed apart first.
-/

namespace QueryCalculus
namespace Formula

/-! ## Atoms -/

theorem atoms_wrapBlocks (blocks : List Block) (matrix : Formula) :
    (wrapBlocks blocks matrix).atoms = matrix.atoms := by
  induction blocks with
  | nil => rfl
  | cons block blocks ih => exact ih

theorem atoms_matrix (f : Formula) : f.splitBlocks.2.atoms = f.atoms := by
  have split := atoms_wrapBlocks f.splitBlocks.1 f.splitBlocks.2
  rw [wrapBlocks_splitBlocks] at split
  exact split.symm

theorem atoms_hoist (f : Formula) : f.hoist.atoms = f.atoms := by
  induction f with
  | atom a => rfl
  | junction c parts ih =>
    rw [hoist, hoistAll_eq_map, prenexJunction_eq_wrapBlocks, atoms_wrapBlocks, atoms_junction,
      atoms_junction, List.map_map, List.flatMap_map]
    exact List.flatMap_congr fun f hf => (atoms_matrix f.hoist).trans (ih f hf)
  | neg body ih =>
    calc
      (prenexNegation body.hoist).atoms = (neg body.hoist.splitBlocks.2).unwrap.atoms :=
        atoms_wrapBlocks _ _
      _ = body.hoist.splitBlocks.2.atoms := rewriting_atoms.unwrap _
      _ = body.atoms := (atoms_matrix body.hoist).trans ih
  | quant q vars body ih => exact (rewriting_atoms.flattenRoot _).trans ih

/-! ## Variables bound by blocks -/

/-- The variables that the blocks bind, outermost first. -/
def boundBy (blocks : List Block) : List Ident :=
  blocks.flatMap fun block => block.2.idents

section Blocks

variable {blocks : List Block} {matrix : Formula} {q : Quantifier} {vars : VarSet} {x : Ident}

theorem boundBy_cons (block : Block) (blocks : List Block) :
    boundBy (block :: blocks) = block.2.idents ++ boundBy blocks :=
  List.flatMap_cons

theorem idents_eq_nil (empty : vars.isEmpty = true) : vars.idents = [] := by
  rw [VarSet.idents, List.map_eq_nil_iff]
  exact List.isEmpty_iff.1 empty

theorem boundBy_dual :
    boundBy (blocks.map fun block => (block.1.dual, block.2)) = boundBy blocks :=
  List.flatMap_map _ _ blocks

theorem boundBy_dropVacuous : boundBy (dropVacuous blocks) = boundBy blocks := by
  induction blocks with
  | nil => rfl
  | cons block rest ih =>
    rw [dropVacuous, List.dropWhile_cons]
    split
    · rename_i empty
      rw [boundBy_cons, idents_eq_nil empty]
      exact ih
    · rfl

/-- Variables that are bound once are still bound once when blocks of the same kind are merged. -/
theorem perm_boundBy_mergeBlock (nodup : (vars.idents ++ boundBy blocks).Nodup) :
    (boundBy (mergeBlock q vars blocks)).Perm (vars.idents ++ boundBy blocks) := by
  induction blocks generalizing vars with
  | nil => exact .refl _
  | cons block rest ih =>
    rw [mergeBlock]
    split
    · rw [boundBy_cons, ← List.append_assoc] at nodup ⊢
      have apart := (List.nodup_append.1 nodup).1
      have union : (vars.union block.2).idents.Perm (vars.idents ++ block.2.idents) := by
        refine (List.perm_ext_iff_of_nodup (VarSet.nodup_idents _) apart).2 fun x => ?_
        rw [List.mem_append]
        exact VarSet.mem_union
      have merged := union.append_right (boundBy rest)
      exact (ih (merged.nodup_iff.2 nodup)).trans merged
    · exact .refl _

theorem binders_of_quantifierFree {f : Formula} (free : f.QuantifierFree) : f.binders = [] := by
  induction f with
  | atom a => rfl
  | junction c parts ih =>
    rw [binders_junction, List.flatMap_eq_nil_iff]
    exact fun f hf => ih f hf (quantifierFree_junction.1 free f hf)
  | neg body ih => exact ih (quantifierFree_neg.1 free)
  | quant q vars body => exact absurd free not_quantifierFree_quant

theorem binders_wrapBlocks (free : matrix.QuantifierFree) :
    (wrapBlocks blocks matrix).binders = boundBy blocks := by
  induction blocks with
  | nil => exact binders_of_quantifierFree free
  | cons block rest ih =>
    rw [wrapBlocks_cons, binders, ih]
    rfl

theorem unbound_wrapBlocks :
    Unbound x (wrapBlocks blocks matrix) ↔ Unbound x matrix ∧ x ∉ boundBy blocks := by
  induction blocks with
  | nil => exact (and_iff_left List.not_mem_nil).symm
  | cons block rest ih =>
    rw [wrapBlocks_cons, unbound_quant, ih, boundBy_cons, List.mem_append, not_or, and_assoc,
      and_comm (a := x ∉ boundBy rest)]
    rfl

end Blocks

/-! ## Variables bound by a hoisted formula -/

theorem binders_hoist (f : Formula) : f.hoist.binders = boundBy f.hoist.splitBlocks.1 := by
  have split : (wrapBlocks f.hoist.splitBlocks.1 f.hoist.splitBlocks.2).binders =
      boundBy f.hoist.splitBlocks.1 := binders_wrapBlocks (hoisted_hoist.{0} f).free
  rwa [wrapBlocks_splitBlocks] at split

theorem perm_boundAs (f : Formula) (q : Quantifier) :
    (f.boundAs q ++ f.boundAs q.dual).Perm f.binders := by
  induction f generalizing q with
  | atom a => exact .refl _
  | junction c parts ih =>
    rw [boundAs, boundAs, boundAsAll_eq_flatMap, boundAsAll_eq_flatMap, binders_junction]
    exact (List.flatMap_append_perm parts _ _).trans
      (List.Perm.flatMap_left parts fun f hf => ih f hf q)
  | neg body ih => exact ih q.dual
  | quant r vars body ih =>
    rcases Quantifier.eq_or_eq_dual r q with rfl | rfl
    · rw [boundAs_quant_of_ne r.dual_ne.symm, boundAs, if_pos rfl, List.append_assoc]
      exact (ih r).append_left vars.idents
    · have outer : (quant q.dual vars body).boundAs q.dual =
          vars.idents ++ body.boundAs q.dual := by
        rw [boundAs, if_pos rfl]
      rw [boundAs_quant_of_ne q.dual_ne, outer]
      -- the variables move from the second list to the front
      calc
        _ = (body.boundAs q ++ vars.idents) ++ body.boundAs q.dual := (List.append_assoc ..).symm
        _ |>.Perm ((vars.idents ++ body.boundAs q) ++ body.boundAs q.dual) :=
          List.perm_append_comm.append_right _
        _ |>.Perm (vars.idents ++ body.binders) := by
          rw [List.append_assoc]
          exact (ih q).append_left vars.idents

theorem nodup_boundAs {f : Formula} (nodup : f.binders.Nodup) (q : Quantifier) :
    (f.boundAs q).Nodup :=
  (List.nodup_append.1 ((perm_boundAs f q).nodup_iff.2 nodup)).1

/-- The blocks of a junction gather what its parts bind as one kind and as the other. -/
theorem perm_binders_junction {c : Connective} {parts : List Formula}
    (nodup : (junction c parts).binders.Nodup) :
    (junction c parts).hoist.binders.Perm (junction c parts).binders := by
  have each : ∀ f ∈ parts, Hoisted.{0} f f.hoist := fun f _ => hoisted_hoist f
  have gathered : ∀ q,
      (gatherBlocks q ((parts.map hoist).flatMap fun g => g.splitBlocks.1)).idents.Perm
        ((junction c parts).boundAs q) := by
    intro q
    refine (List.perm_ext_iff_of_nodup (VarSet.nodup_idents _) (nodup_boundAs nodup q)).2 ?_
    intro x
    exact mem_gatherBlocks.trans (boundIn_parts each)
  have pooled : ∀ blocks, boundBy (pooledBlocks blocks) =
      (gatherBlocks .exist blocks).idents ++ (gatherBlocks .forAll blocks).idents := by
    intro blocks
    rw [pooledBlocks, boundBy_dropVacuous, boundBy_cons, boundBy_dropVacuous, boundBy_cons]
    exact congrArg _ (List.append_nil _)
  rw [hoist, hoistAll_eq_map, prenexJunction_eq_wrapBlocks,
    binders_wrapBlocks (quantifierFree_parts each), pooled]
  exact ((gathered .exist).append (gathered .forAll)).trans (perm_boundAs (junction c parts) .exist)

theorem perm_binders_hoist {f : Formula} (nodup : f.binders.Nodup) :
    f.hoist.binders.Perm f.binders := by
  induction f with
  | atom a => exact .refl _
  | junction c parts ih => exact perm_binders_junction nodup
  | neg body ih =>
    have free := quantifierFree_neg.2 (hoisted_hoist.{0} body).free
    have same : (neg body).hoist.binders = body.hoist.binders := by
      rw [binders_hoist body, ← boundBy_dual]
      exact binders_wrapBlocks free.unwrap
    rw [same]
    exact ih nodup
  | quant q vars body ih =>
    have hoisted := hoisted_hoist.{0} body
    rcases exists_flattenRoot_wrapBlocks.{0} q vars hoisted.free hoisted.filled
      with ⟨m, flat, free, -⟩
    rw [wrapBlocks_splitBlocks] at flat
    have inner : body.hoist.binders.Perm body.binders := ih (List.nodup_append.1 nodup).2.1
    rw [binders_hoist] at inner
    have outer := inner.append_left vars.idents
    rw [hoist, flat, binders_wrapBlocks free, boundBy_dropVacuous]
    exact (perm_boundBy_mergeBlock (outer.nodup_iff.2 nodup)).trans outer

/-! ## Unbound variables of a hoisted formula -/

theorem QuantifierFree.unbound_iff {f : Formula} (free : f.QuantifierFree) {x : Ident} :
    Unbound x f ↔ x ∈ f.vars := by
  constructor
  · exact Unbound.mem_vars
  · intro occurs
    refine (unbound_or_binder occurs).resolve_right fun bound => ?_
    rw [binders_of_quantifierFree free] at bound
    exact List.not_mem_nil bound

theorem mem_vars_of_atoms {f g : Formula} (same : g.atoms = f.atoms) {x : Ident} :
    x ∈ g.vars ↔ x ∈ f.vars := by
  rw [mem_vars, mem_vars, same]

/-- A quantifier in front binds its variables wherever they occur. -/
theorem unbound_hoist {f : Formula} (nodup : f.binders.Nodup) {x : Ident} :
    Unbound x f.hoist ↔ x ∈ f.vars ∧ x ∉ f.binders := by
  have matrix := (hoisted_hoist.{0} f).free
  calc
    Unbound x f.hoist
      ↔ Unbound x (wrapBlocks f.hoist.splitBlocks.1 f.hoist.splitBlocks.2) := by
        rw [wrapBlocks_splitBlocks]
    _ ↔ x ∈ f.hoist.splitBlocks.2.vars ∧ x ∉ f.hoist.binders := by
        rw [unbound_wrapBlocks, matrix.unbound_iff, binders_hoist]
    _ ↔ x ∈ f.vars ∧ x ∉ f.binders := by
        rw [mem_vars_of_atoms ((atoms_matrix f.hoist).trans (atoms_hoist f)),
          (perm_binders_hoist nodup).mem_iff]

/-! ## Prenex forms -/

theorem perm_binders_prenex (alphabet : Alphabet) (f : Formula) :
    (f.prenex alphabet).binders.Perm (f.renameApart alphabet).binders :=
  perm_binders_hoist (nodup_names_renameApart alphabet f).of_map

/-- Moving quantifiers to the front draws no names of its own. -/
theorem mem_names_prenex {alphabet : Alphabet} {f : Formula} {n : String} :
    n ∈ (f.prenex alphabet).names ↔ n ∈ (f.renameApart alphabet).names := by
  have atoms : (f.prenex alphabet).atoms = (f.renameApart alphabet).atoms := atoms_hoist _
  simp only [mem_names, mem_vars_of_atoms atoms, (perm_binders_prenex alphabet f).mem_iff]

theorem blankFree_prenex {alphabet : Alphabet} {f : Formula} (named : f.BlankFree)
    (blank : Variable.blankName ∉ alphabet.symbols) : (f.prenex alphabet).BlankFree :=
  fun occurs => blankFree_renameApart named blank (mem_names_prenex.1 occurs)

/-- The quantifiers in front do not capture a free variable, since none of them has its name. -/
theorem mem_free_prenex {alphabet : Alphabet} {f : Formula} {x : Ident} :
    x ∈ (f.prenex alphabet).free ↔ x ∈ f.free := by
  have nodup := (nodup_names_renameApart alphabet f).of_map
  rw [mem_free_iff, mem_free_iff, prenex, unbound_hoist nodup]
  refine and_congr_left fun named => ?_
  constructor
  · rintro ⟨occurs, unbound⟩
    exact unbound_renameApart.1 ((unbound_or_binder occurs).resolve_right unbound)
  · intro unbound
    refine ⟨(unbound_renameApart.2 unbound).mem_vars, fun bound => ?_⟩
    exact name_ne_of_binder bound (mem_free_iff.2 ⟨unbound, named⟩) rfl

/-- A prenex form consists of blocks of quantifiers, none of them empty, in front of a matrix
without quantifiers. It has the free variables of the formula. No name is bound twice, neither in
one block nor in two of them, and none that a free variable has. -/
theorem prenex_shape (alphabet : Alphabet) (f : Formula) :
    ∃ blocks matrix, f.prenex alphabet = wrapBlocks blocks matrix ∧ matrix.QuantifierFree ∧
      (∀ block ∈ blocks, block.2.isEmpty = false) ∧
      (∀ x, x ∈ (f.prenex alphabet).free ↔ x ∈ f.free) ∧
      ((boundBy blocks).map Ident.name).Nodup ∧
      ∀ x ∈ boundBy blocks, ∀ y, y ∈ f.free → x.name ≠ y.name := by
  have hoisted := hoisted_hoist.{0} (f.renameApart alphabet)
  have bound := perm_binders_prenex alphabet f
  rw [prenex, binders_hoist] at bound
  refine ⟨_, _, (wrapBlocks_splitBlocks _).symm, hoisted.free, hoisted.filled,
    fun x => mem_free_prenex, ?_, fun x hx y hy => ?_⟩
  · exact (bound.map Ident.name).nodup_iff.2 (nodup_names_renameApart alphabet f)
  · exact name_ne_of_binder (bound.mem_iff.1 hx) hy

end Formula
end QueryCalculus
