import QueryCalculus.Formula.Basic

/-!
# The formulas inside of a formula

- `Formula.nodes` : a formula and all formulas inside of it
- `forall_nodes_junction`, `forall_nodes_neg`, `forall_nodes_quant` : what holds at every node, from
  the root and the parts
-/

namespace QueryCalculus
namespace Formula

mutual

/-- The formula and all formulas inside of it, depth first. -/
def nodes : Formula → List Formula
  | .atom a => [.atom a]
  | .junction c parts => .junction c parts :: nodesAll parts
  | .neg body => .neg body :: body.nodes
  | .quant q vars body => .quant q vars body :: body.nodes

def nodesAll : List Formula → List Formula
  | [] => []
  | f :: fs => f.nodes ++ nodesAll fs

end

theorem nodesAll_eq_flatMap (fs : List Formula) : nodesAll fs = fs.flatMap nodes := by
  induction fs with
  | nil => rfl
  | cons f fs ih => simp [nodesAll, ih]

theorem mem_nodes_junction {c : Connective} {parts : List Formula} {g : Formula} :
    g ∈ (Formula.junction c parts).nodes ↔ g = .junction c parts ∨ ∃ f ∈ parts, g ∈ f.nodes := by
  rw [nodes, nodesAll_eq_flatMap, List.mem_cons, List.mem_flatMap]

theorem self_mem_nodes (f : Formula) : f ∈ f.nodes := by
  cases f <;> simp [nodes]

section Throughout

variable {P : Formula → Prop}

theorem forall_nodes_atom {a : Atom} : (∀ g ∈ (Formula.atom a).nodes, P g) ↔ P (.atom a) :=
  List.forall_mem_singleton

theorem forall_nodes_junction {c : Connective} {parts : List Formula} :
    (∀ g ∈ (Formula.junction c parts).nodes, P g) ↔
      P (.junction c parts) ∧ ∀ f ∈ parts, ∀ g ∈ f.nodes, P g := by
  rw [nodes, nodesAll_eq_flatMap, List.forall_mem_cons, List.forall_mem_flatMap]

theorem forall_nodes_neg {body : Formula} :
    (∀ g ∈ (Formula.neg body).nodes, P g) ↔ P (.neg body) ∧ ∀ g ∈ body.nodes, P g :=
  List.forall_mem_cons

theorem forall_nodes_quant {q : Quantifier} {vars : VarSet} {body : Formula} :
    (∀ g ∈ (Formula.quant q vars body).nodes, P g) ↔
      P (.quant q vars body) ∧ ∀ g ∈ body.nodes, P g :=
  List.forall_mem_cons

end Throughout

end Formula
end QueryCalculus
