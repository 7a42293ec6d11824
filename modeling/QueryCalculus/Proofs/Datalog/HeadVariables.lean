import Mathlib.Data.List.Dedup
import QueryCalculus.Proofs.Datalog.Grammar
import QueryCalculus.Proofs.Formula.Binding

/-!
# The head variables of a query

- `mem_free_of_parse` : the head variables of a query that was read occur in its body
- `scope_of_parse` : the variables of a query that was read belong to its scope
- `mem_free_toFormula`, `free_toFormula_perm` : the free variables of a query are its head variables
- `mem_bound_toFormula` : all other variables but the blanks are bound
- `parse_binds` : which variables of a query that was read are free and which are bound
- `anchored_toFormula` : head variables in predicate atoms
-/

namespace QueryCalculus
namespace Datalog
namespace Query

/-! ## Reading queries -/

theorem mem_free_of_parse {check : Iri.Check} {signature : Option Signature} {scope : Nat}
    {text : String} {q : Query} (read : parse signature scope text check = .ok q) :
    ∀ x ∈ q.head, x.toIdent ∈ q.body.free := by
  rcases parse_ok_iff.1 read with ⟨tokens, -, accepted⟩
  rcases ofLexemes_ok_iff.1 accepted with ⟨head, atoms, ⟨-, bound⟩, rfl⟩
  intro x hx
  exact mem_free_conjunction_iff.2 (occursIn_inferred_iff.2 (bound x hx))

theorem scope_of_parse {check : Iri.Check} {signature : Option Signature} {scope : Nat}
    {text : String} {q : Query} (read : parse signature scope text check = .ok q) :
    q.scope = scope ∧ (∀ x ∈ q.head, x.scope = some scope) ∧
      ∀ a ∈ q.atoms, ∀ x, .var x ∈ a.terms → x.scope = some scope := by
  rcases parse_ok_iff.1 read with ⟨tokens, -, accepted⟩
  rcases ofLexemes_ok_iff.1 accepted with ⟨head, atoms, ⟨phrase, -⟩, rfl⟩
  refine ⟨rfl, phrase.scope_head, fun b hb x hx => ?_⟩
  -- type inference keeps the identities of the variables
  rcases List.mem_map.1 hb with ⟨a, ha, rfl⟩
  rw [Atom.terms_mapTerms] at hx
  rcases exists_var_of_untyped (map_inferredTerm_untyped _ a.terms) hx with ⟨y, hy, same⟩
  rw [← same]
  exact phrase.scope_atoms a ha y hy

/-! ## Queries as formulas -/

theorem atoms_toFormula (q : Query) : q.toFormula.atoms = q.atoms := by
  simp only [toFormula]
  split
  · exact atoms_conjunction q.atoms
  · exact atoms_conjunction q.atoms

theorem mem_hidden {q : Query} {x : Ident} :
    x ∈ q.body.free.filter (!q.head.contains ·) ↔
      x ∈ q.body.free ∧ x ∉ q.head.map Variable.toIdent := by
  refine VarSet.mem_filter (p := fun x => x ∉ q.head.map Variable.toIdent) fun y => ?_
  have listed : q.head.contains y = true ↔ y.toIdent ∈ q.head.map Variable.toIdent := by
    rw [List.contains_iff_exists_mem_beq, List.mem_map]
    simp only [Variable.beq_iff, eq_comm (a := y.toIdent)]
  rw [← listed]
  simp

theorem mem_free_toFormula {q : Query} {x : Ident} :
    x ∈ q.toFormula.free ↔ x ∈ q.body.free ∧ x ∈ q.head.map Variable.toIdent := by
  have hidden := mem_hidden (q := q) (x := x)
  simp only [toFormula]
  split
  · rename_i empty
    have visible := VarSet.isEmpty_iff.1 empty x
    rw [hidden] at visible
    tauto
  · rw [Formula.mem_free_quant, hidden]
    tauto

/-- A query that was read has its head variables free. -/
theorem mem_head_iff_of_parse {check : Iri.Check} {signature : Option Signature} {scope : Nat}
    {text : String} {q : Query} (read : parse signature scope text check = .ok q) {x : Ident} :
    x ∈ q.toFormula.free ↔ x ∈ q.head.map Variable.toIdent := by
  rw [mem_free_toFormula]
  refine ⟨And.right, fun head => ⟨?_, head⟩⟩
  rcases List.mem_map.1 head with ⟨y, hy, rfl⟩
  exact mem_free_of_parse read y hy

theorem free_toFormula_perm {check : Iri.Check} {signature : Option Signature} {scope : Nat}
    {text : String} {q : Query} (read : parse signature scope text check = .ok q) :
    q.toFormula.free.idents.Perm (q.head.map Variable.toIdent).dedup := by
  rw [List.perm_ext_iff_of_nodup (VarSet.nodup_idents _) (List.nodup_dedup _)]
  intro x
  rw [List.mem_dedup, VarSet.mem_idents, mem_head_iff_of_parse read]

theorem binders_body (q : Query) : q.body.binders = [] := by
  rw [body, Formula.binders_junction, List.flatMap_eq_nil_iff]
  intro f hf
  rcases List.mem_map.1 hf with ⟨a, -, rfl⟩
  rfl

theorem mem_bound_toFormula {q : Query} {x : Ident} :
    x ∈ q.toFormula.bound ↔ x ∈ q.body.free ∧ x ∉ q.head.map Variable.toIdent := by
  rw [Formula.mem_bound, ← mem_hidden]
  simp only [toFormula]
  split
  · rename_i empty
    simp [binders_body, VarSet.isEmpty_iff.1 empty x]
  · simp [Formula.mem_binders_quant, binders_body]

/-- All variables of a query that was read belong to its scope. Its head variables occur in the body
and are free, and the other variables of the body are bound except for the blanks. -/
theorem parse_binds {check : Iri.Check} {signature : Option Signature} {scope : Nat}
    {text : String} {q : Query} (read : parse signature scope text check = .ok q) :
    q.scope = scope ∧
    (∀ x ∈ q.head, x.scope = some q.scope) ∧
    (∀ a ∈ q.atoms, ∀ x, .var x ∈ a.terms → x.scope = some q.scope) ∧
    (∀ x ∈ q.head, OccursIn x q.atoms) ∧
    (∀ x : Ident, x ∈ q.toFormula.free ↔ x ∈ q.head.map Variable.toIdent) ∧
    ∀ x : Variable, x.toIdent ∈ q.toFormula.bound ↔
      OccursIn x q.atoms ∧ x.toIdent ∉ q.head.map Variable.toIdent := by
  rcases scope_of_parse read with ⟨rfl, inHead, inAtoms⟩
  have occurs (x : Variable) : x.toIdent ∈ q.body.free ↔ OccursIn x q.atoms :=
    mem_free_conjunction_iff
  refine ⟨rfl, inHead, inAtoms, fun x hx => (occurs x).1 (mem_free_of_parse read x hx),
    fun x => mem_head_iff_of_parse read, fun x => ?_⟩
  rw [mem_bound_toFormula, occurs]

/-- A repeated head variable, blanks, and variables that occur in comparisons only. -/
def mixed : String :=
  "Q(x, x) :- R(x, _), y = z, _ != y ."

theorem mixed_binds :
    ∃ q, parse none 7 mixed = .ok q ∧ (∀ x : Ident, x ∈ q.toFormula.free ↔ x = ⟨"x", some 7⟩) ∧
      ∀ x : Variable, x.toIdent ∈ q.toFormula.bound ↔
        OccursIn x q.atoms ∧ x.toIdent ≠ ⟨"x", some 7⟩ := by
  have found : (parse none 7 mixed).toOption.map (fun q => q.head.map Variable.toIdent) =
      some [⟨"x", some 7⟩, ⟨"x", some 7⟩] := by decide +kernel
  rcases exists_ok_of_map found with ⟨q, read, head⟩
  have binds := parse_binds read
  rw [head] at binds
  exact ⟨q, read, by simpa using binds.2.2.2.2.1, by simpa using binds.2.2.2.2.2⟩

theorem anchored_toFormula {q : Query} {x : Ident} {a : PredicateAtom}
    (head : x ∈ q.head.map Variable.toIdent) (ha : Atom.predicate a ∈ q.atoms)
    (hx : x ∈ (Formula.predicate a).free) : Formula.Anchored x q.toFormula := by
  have body : Formula.Anchored x q.body :=
    .part (List.mem_map_of_mem ha) (.atom hx)
  simp only [toFormula]
  split
  · exact body
  · exact .quant (fun h => (mem_hidden.1 h).2 head) body

end Query
end Datalog
end QueryCalculus
