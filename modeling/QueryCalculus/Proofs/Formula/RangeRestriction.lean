import QueryCalculus.Proofs.Formula.FreeVariables

/-!
# Range restriction

- `Formula.rangeRestricted` : whatever a formula compares or negates has got its values before
-/

namespace QueryCalculus
namespace Formula

mutual

/-- Whether a formula without disjunctions is range restricted, when the given variables have their
values: these may be compared and may occur in negations, the parts of a conjunction have values for
all that it can select, and what a quantifier binds can be selected from its body. -/
def rangeRestricted : VarSet → Formula → Bool
  | known, .atom (.comparison c) =>
    (variablesOf [c.left, c.right]).all fun x => !x.isBlank && known.contains x
  | _, .atom _ => true
  | known, .junction .and parts =>
    rangeRestrictedAll (known.union (Formula.junction .and parts).selectable) parts
  | _, .junction .or _ => false
  | known, .neg body => body.free.isSubset known && rangeRestricted known body
  | known, .quant .exist vars body =>
    (vars.inter body.free).isSubset body.selectable && rangeRestricted (known.diff vars) body
  | _, .quant .forAll _ _ => false

def rangeRestrictedAll : VarSet → List Formula → Bool
  | _, [] => true
  | known, f :: fs => rangeRestricted known f && rangeRestrictedAll known fs

end

theorem rangeRestrictedAll_eq_all (known : VarSet) (fs : List Formula) :
    rangeRestrictedAll known fs = fs.all (rangeRestricted known) := by
  induction fs with
  | nil => rfl
  | cons f fs ih => simp [rangeRestrictedAll, ih]

variable {known : VarSet} {parts : List Formula} {body : Formula}

theorem rangeRestricted_comparison {c : Comparison}
    (h : rangeRestricted known (.atom (.comparison c)) = true) {x : Variable}
    (hx : Term.var x ∈ [c.left, c.right]) : x.isBlank = false := by
  rw [rangeRestricted, List.all_eq_true] at h
  have test := h x (mem_variablesOf.2 hx)
  rw [Bool.and_eq_true] at test
  simpa using test.1

theorem rangeRestricted_and :
    rangeRestricted known (.junction .and parts) = true ↔
      ∀ f ∈ parts,
        rangeRestricted (known.union (Formula.junction .and parts).selectable) f = true := by
  rw [rangeRestricted, rangeRestrictedAll_eq_all, List.all_eq_true]

theorem rangeRestricted_neg :
    rangeRestricted known (.neg body) = true ↔
      (∀ x : Ident, x ∈ body.free → x ∈ known) ∧ rangeRestricted known body = true := by
  rw [rangeRestricted, Bool.and_eq_true, VarSet.isSubset_iff]

theorem rangeRestricted_exist {vars : VarSet} :
    rangeRestricted known (.quant .exist vars body) = true ↔
      (∀ x : Ident, x ∈ vars → x ∈ body.free → x ∈ body.selectable) ∧
        rangeRestricted (known.diff vars) body = true := by
  rw [rangeRestricted, Bool.and_eq_true, VarSet.isSubset_iff]
  simp only [VarSet.mem_inter, and_imp]

end Formula
end QueryCalculus
