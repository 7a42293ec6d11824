import QueryCalculus.Proofs.Sparql.Representation
import QueryCalculus.Proofs.Sparql.Selections

/-!
# Formulas that can be answered

- `Formula.grounded` : what is compared or negated gets its values from the same conjunction
- `Formula.binds` : every solution of the pattern of a formula has a value for one of some variables
- `Formula.linkedAt`, `Formula.namedAt` : what is removed has variables in common with the
  conjunction, and names tell the free variables apart
- `Formula.probes`, `Formula.legalAt` : where a constant stands for a sub-query without variables
- `Formula.Answerable` : a formula whose free variables a query can select
- `vars_of_grounded` : the pattern of a grounded formula binds all free variables
- `pattern_shows` : which patterns may be written
-/

namespace QueryCalculus

/-! ## Conditions on formulas -/

namespace Formula

mutual

/-- Whether all that is compared, or free in a negated part, is known: the parts of a conjunction
know what it can select, and any other part knows nothing. -/
def grounded : VarSet → Formula → Bool
  | known, .atom (.comparison c) =>
    (variablesOf [c.left, c.right]).all fun x => !x.isBlank && known.contains x
  | _, .atom _ => true
  | _, .junction .and parts => groundedAll (Formula.junction .and parts).selectable parts
  | _, .junction .or parts => groundedAll ∅ parts
  | known, .neg body => body.free.isSubset known && grounded ∅ body
  | _, .quant _ _ body => grounded ∅ body

def groundedAll : VarSet → List Formula → Bool
  | _, [] => true
  | known, f :: fs => grounded known f && groundedAll known fs

end

mutual

/-- Whether every solution has a value for one of the variables. -/
def binds : VarSet → Formula → Bool
  | vars, .atom (.predicate a) => (namedVariables a.terms).any vars.contains
  | _, .atom (.truth b) => !b
  | _, .atom (.comparison _) => false
  | vars, .junction .and parts => bindsSome vars parts
  | vars, .junction .or parts => bindsEach vars parts
  | _, .neg _ => false
  | vars, .quant _ bound body => binds (vars.diff bound) body

def bindsSome : VarSet → List Formula → Bool
  | _, [] => false
  | vars, f :: fs => binds vars f || bindsSome vars fs

def bindsEach : VarSet → List Formula → Bool
  | _, [] => true
  | vars, f :: fs => binds vars f && bindsEach vars fs

end

/-- A negated formula has a value for one of its free variables in every solution. -/
def linkedAt : Formula → Bool
  | .neg body => binds body.free body
  | _ => true

/-- The free variables have different names, and none has the name of the constant. -/
def namedAt (f : Formula) : Bool :=
  decide (Sparql.dummy :: f.free.names).Nodup

mutual

/-- Whether a sub-query without variables is in sight. -/
def probes : Formula → Bool
  | .junction _ parts => probesSome parts
  | .quant q vars body => (Formula.quant q vars body).free.isEmpty
  | _ => false

def probesSome : List Formula → Bool
  | [] => false
  | f :: fs => f.probes || probesSome fs

end

/-- In a sub-query without variables there is no other one in sight. -/
def legalAt : Formula → Bool
  | .quant q vars body => !((Formula.quant q vars body).free.isEmpty && body.probes)
  | _ => true

/-- The predicates are classes and properties, all free variables are selectable, and what is
compared or negated gets its values from the same conjunction. -/
structure Answerable (f : Formula) : Prop where
  arities : ∀ a, Atom.predicate a ∈ f.atoms → a.arity = 1 ∨ a.arity = 2
  safe : ∀ x : Ident, x ∈ f.free → x ∈ f.selectable
  grounded : f.grounded ∅ = true

/-- Whether a formula is answerable can be computed. -/
theorem answerable_of_checks {f : Formula}
    (arities : f.atoms.all (fun a => a.predicate?.all fun a => a.arity == 1 || a.arity == 2) = true)
    (safe : f.free.isSubset f.selectable = true) (grounded : f.grounded ∅ = true) :
    f.Answerable := by
  refine ⟨fun a ha => ?_, VarSet.isSubset_iff.1 safe, grounded⟩
  simpa [Atom.predicate?] using List.all_eq_true.1 arities _ ha

theorem groundedAll_eq_all (known : VarSet) (fs : List Formula) :
    groundedAll known fs = fs.all (grounded known) := by
  induction fs with
  | nil => rfl
  | cons f fs ih => exact congrArg (grounded known f && ·) ih

theorem bindsSome_eq_any (vars : VarSet) (fs : List Formula) :
    bindsSome vars fs = fs.any (binds vars) := by
  induction fs with
  | nil => rfl
  | cons f fs ih => exact congrArg (binds vars f || ·) ih

theorem bindsEach_eq_all (vars : VarSet) (fs : List Formula) :
    bindsEach vars fs = fs.all (binds vars) := by
  induction fs with
  | nil => rfl
  | cons f fs ih => exact congrArg (binds vars f && ·) ih

theorem probesSome_eq_any (fs : List Formula) : probesSome fs = fs.any probes := by
  induction fs with
  | nil => rfl
  | cons f fs ih => exact congrArg (f.probes || ·) ih

variable {known vars : VarSet} {c : Connective} {parts : List Formula} {f body : Formula}

theorem grounded_comparison {c : Comparison} :
    grounded known (.atom (.comparison c)) = true ↔
      ∀ x, Term.var x ∈ [c.left, c.right] → x.isBlank = false ∧ x.toIdent ∈ known := by
  show ((variablesOf [c.left, c.right]).all fun x => !x.isBlank && known.contains x) = true ↔ _
  simp only [List.all_eq_true, mem_variablesOf, Bool.and_eq_true, VarSet.contains_iff,
    Bool.not_eq_true']

theorem grounded_and :
    grounded known (.junction .and parts) = true ↔
      ∀ f ∈ parts, grounded (Formula.junction .and parts).selectable f = true := by
  show groundedAll (Formula.junction .and parts).selectable parts = true ↔ _
  rw [groundedAll_eq_all, List.all_eq_true]

theorem grounded_or :
    grounded known (.junction .or parts) = true ↔ ∀ f ∈ parts, grounded ∅ f = true := by
  show groundedAll ∅ parts = true ↔ _
  rw [groundedAll_eq_all, List.all_eq_true]

theorem grounded_neg :
    grounded known (.neg body) = true ↔
      (∀ x : Ident, x ∈ body.free → x ∈ known) ∧ grounded ∅ body = true := by
  show (body.free.isSubset known && grounded ∅ body) = true ↔ _
  rw [Bool.and_eq_true, VarSet.isSubset_iff]

theorem binds_predicate {a : PredicateAtom} :
    binds vars (.predicate a) = true ↔ ∃ x ∈ namedVariables a.terms, x.toIdent ∈ vars := by
  show (namedVariables a.terms).any vars.contains = true ↔ _
  simp only [List.any_eq_true, VarSet.contains_iff]

theorem binds_and :
    binds vars (.junction .and parts) = true ↔ ∃ f ∈ parts, binds vars f = true := by
  show bindsSome vars parts = true ↔ _
  rw [bindsSome_eq_any, List.any_eq_true]

theorem binds_or :
    binds vars (.junction .or parts) = true ↔ ∀ f ∈ parts, binds vars f = true := by
  show bindsEach vars parts = true ↔ _
  rw [bindsEach_eq_all, List.all_eq_true]

theorem apart_of_namedAt (named : f.namedAt = true) : Sparql.Apart f.free :=
  Sparql.apart_of_nodup (of_decide_eq_true named)

end Formula

namespace Sparql

variable {known : VarSet} {f : Formula} {s : Selection}

/-! ## Variables of a pattern -/

/-- A free variable is in the pattern unless it is compared or negated, and then it is known. -/
theorem vars_or_known (compiled : pattern f = .ok s) :
    ∀ known, f.grounded known = true → ∀ x : Ident, x ∈ f.free → x ∈ s.vars ∨ x ∈ known := by
  refine pattern_induction (motive := fun f s => ∀ known, f.grounded known = true →
    ∀ x : Ident, x ∈ f.free → x ∈ s.vars ∨ x ∈ known)
    ?truth ?falsity ?comparison ?instanceOf ?property ?and ?or ?neg ?exist compiled
  case truth | falsity => exact fun known _ x hx => absurd hx (VarSet.not_mem_empty x)
  case comparison =>
    intro c known grounded x hx
    rcases Formula.mem_free_atom.1 hx with ⟨y, hy, -, rfl⟩
    exact .inr (Formula.grounded_comparison.1 grounded y hy).2
  case instanceOf => exact fun a t _ known _ x hx => .inl hx
  case property => exact fun a t u _ known _ x hx => .inl hx
  case and =>
    intro parts rs each known grounded x hx
    rcases Formula.mem_free_junction.1 hx with ⟨f, hf, hx⟩
    rcases forall₂_exists_left each.flip (mem_arranged.2 hf) with ⟨r, hr, -, inside⟩
    rcases inside _ (Formula.grounded_and.1 grounded f hf) x hx with bound | selectable
    · exact .inl (mem_vars_join.2 ⟨r, hr, bound⟩)
    · -- what the part itself does not bind another part selects
      have whole := pattern_and_eq_ok_iff.2 ⟨rs, each.imp fun f r both => both.1, rfl⟩
      exact .inl (mem_vars_of_selectable whole x selectable)
  case or =>
    intro parts rs each known grounded x hx
    rcases Formula.mem_free_junction.1 hx with ⟨f, hf, hx⟩
    rcases forall₂_exists_left each.flip hf with ⟨r, hr, -, inside⟩
    rcases inside _ (Formula.grounded_or.1 grounded f hf) x hx with bound | none
    · exact .inl (mem_vars_union.2 ⟨r, hr, bound⟩)
    · exact absurd none (VarSet.not_mem_empty x)
  case neg =>
    intro body r _ inside known grounded x hx
    exact .inr ((Formula.grounded_neg.1 grounded).1 x hx)
  case exist =>
    intro vars body r _ inside known grounded x hx
    rcases Formula.mem_free_quant.1 hx with ⟨hx, unbound⟩
    rcases inside ∅ grounded x hx with bound | none
    · exact .inl (VarSet.mem_diff.2 ⟨bound, unbound⟩)
    · exact absurd none (VarSet.not_mem_empty x)

theorem vars_of_grounded (compiled : pattern f = .ok s) (grounded : f.grounded ∅ = true) :
    s.vars.idents = f.free.idents := by
  refine VarSet.idents_eq fun x => ⟨mem_free_of_vars compiled x, fun hx => ?_⟩
  exact (vars_or_known compiled ∅ grounded x hx).resolve_right (VarSet.not_mem_empty x)

/-! ## Legal patterns -/

theorem isEmpty_remaining {body : Formula} {r : Selection} (compiled : pattern body = .ok r)
    (grounded : body.grounded ∅ = true) (vars : VarSet) :
    (r.vars.diff vars).isEmpty = (Formula.quant .exist vars body).free.isEmpty := by
  have whole : pattern (.quant .exist vars body) = .ok _ :=
    pattern_exist_eq_ok_iff.2 ⟨r, compiled, rfl⟩
  exact VarSet.isEmpty_eq (vars_of_grounded whole grounded)

theorem scope_join {name : String} {rs : List Selection} :
    name ∈ (Selection.join rs).pattern.scope ↔ ∃ r ∈ rs, name ∈ r.pattern.scope := by
  cases rs with
  | nil => simp [Selection.join, Pattern.scope]
  | cons r rs => simp [Selection.join, Pattern.scope, Pattern.scopeAll_eq_flatMap]

theorem scope_union {name : String} {rs : List Selection} :
    name ∈ (Selection.union rs).pattern.scope ↔ ∃ r ∈ rs, name ∈ r.pattern.scope := by
  cases rs with
  | nil => simp [Selection.union, Pattern.scope]
  | cons r rs => simp [Selection.union, Pattern.scope, Pattern.scopeAll_eq_flatMap]

theorem legal_join {rs : List Selection} :
    (Selection.join rs).pattern.legal = true ↔ ∀ r ∈ rs, r.pattern.legal = true := by
  cases rs with
  | nil => simp [Selection.join, Pattern.legal]
  | cons r rs => simp [Selection.join, Pattern.legal, Pattern.legalAll_eq_all]

theorem legal_union {rs : List Selection} :
    (Selection.union rs).pattern.legal = true ↔ ∀ r ∈ rs, r.pattern.legal = true := by
  cases rs with
  | nil => simp [Selection.union, Pattern.legal]
  | cons r rs => simp [Selection.union, Pattern.legal, Pattern.legalAll_eq_all]

/-- What the pattern of a formula says about constants. -/
structure Shows (f : Formula) (s : Selection) : Prop where
  scope_iff : dummy ∈ s.pattern.scope ↔ f.probes = true
  legal_iff : s.pattern.legal = true ↔ ∀ h ∈ f.nodes, h.legalAt = true

theorem Shows.contains_eq (h : Shows f s) : s.pattern.scope.contains dummy = f.probes := by
  rw [Bool.eq_iff_iff, List.contains_iff_mem]
  exact h.scope_iff

theorem shows_junction {c : Connective} {parts fs : List Formula} {rs : List Selection}
    (each : List.Forall₂ Shows fs rs) (listed : ∀ f, f ∈ fs ↔ f ∈ parts)
    (scope : dummy ∈ s.pattern.scope ↔ ∃ r ∈ rs, dummy ∈ r.pattern.scope)
    (legal : s.pattern.legal = true ↔ ∀ r ∈ rs, r.pattern.legal = true) :
    Shows (.junction c parts) s where
  scope_iff := by
    rw [scope, Formula.probes, Formula.probesSome_eq_any, List.any_eq_true]
    constructor
    · rintro ⟨r, hr, shown⟩
      rcases forall₂_exists_left each hr with ⟨f, hf, inside⟩
      exact ⟨f, (listed f).1 hf, inside.scope_iff.1 shown⟩
    · rintro ⟨f, hf, probes⟩
      rcases forall₂_exists_left each.flip ((listed f).2 hf) with ⟨r, hr, inside⟩
      exact ⟨r, hr, inside.scope_iff.2 probes⟩
  legal_iff := by
    rw [legal, Formula.forall_nodes_junction]
    refine Iff.trans ?_ (and_iff_right rfl).symm
    constructor
    · intro all f hf
      rcases forall₂_exists_left each.flip ((listed f).2 hf) with ⟨r, hr, inside⟩
      exact inside.legal_iff.1 (all r hr)
    · intro all r hr
      rcases forall₂_exists_left each hr with ⟨f, hf, inside⟩
      exact inside.legal_iff.2 (all f ((listed f).1 hf))

theorem shows_atom {a : Atom} (scope : dummy ∉ s.pattern.scope)
    (legal : s.pattern.legal = true) : Shows (.atom a) s where
  scope_iff := iff_of_false scope nofun
  legal_iff := iff_of_true legal (Formula.forall_nodes_atom.2 rfl)

theorem dummy_not_mem_terms {a : PredicateAtom} {terms : List Term} (written : a.terms = terms)
    (named : (Formula.predicate a).namedAt = true) : dummy ∉ Pattern.termNames terms := by
  subst written
  intro listed
  rcases List.mem_map.1 listed with ⟨x, hx, same⟩
  have free : x.toIdent ∈ (Formula.predicate a).free := VarSet.mem_ofList.2 ⟨x, hx, rfl⟩
  exact (Formula.apart_of_namedAt named).named _ free same

theorem shows_exist {vars : VarSet} {body : Formula} {r : Selection}
    (compiled : pattern body = .ok r) (inside : Shows body r) (grounded : body.grounded ∅ = true)
    (named : (Formula.quant .exist vars body).namedAt = true) :
    Shows (.quant .exist vars body)
      ⟨.select (r.vars.diff vars) r.pattern, r.vars.diff vars⟩ where
  scope_iff := by
    have whole : pattern (.quant .exist vars body) = .ok _ :=
      pattern_exist_eq_ok_iff.2 ⟨r, compiled, rfl⟩
    have remaining := isEmpty_remaining compiled grounded vars
    -- a selection without variables shows the dummy, which is the name of no variable
    rw [Formula.probes, ← remaining, Pattern.scope]
    split
    · rename_i empty
      exact iff_of_true List.mem_cons_self empty
    · rename_i filled
      refine iff_of_false (fun listed => ?_) filled
      rcases mem_names.1 listed with ⟨x, hx, same⟩
      exact (Formula.apart_of_namedAt named).named x (mem_free_of_vars whole x hx) same
  legal_iff := by
    have remaining := isEmpty_remaining compiled grounded vars
    rw [Formula.forall_nodes_quant, ← inside.legal_iff, Pattern.legal, remaining,
      inside.contains_eq, Bool.and_eq_true]
    rfl

/-- The pattern of a formula shows a constant for every sub-query without variables in sight, and it
is legal unless one of these is in sight of another. -/
theorem pattern_shows (compiled : pattern f = .ok s) :
    (∀ h ∈ f.nodes, h.namedAt = true) → ∀ known, f.grounded known = true → Shows f s := by
  refine pattern_induction (motive := fun f s => (∀ h ∈ f.nodes, h.namedAt = true) →
    ∀ known, f.grounded known = true → Shows f s)
    ?truth ?falsity ?comparison ?instanceOf ?property ?and ?or ?neg ?exist compiled
  case truth | falsity => exact fun _ _ _ => shows_atom nofun rfl
  case comparison => exact fun c _ _ _ => shows_atom nofun rfl
  case instanceOf =>
    intro a t terms named _ _
    exact shows_atom (dummy_not_mem_terms terms (Formula.forall_nodes_atom.1 named)) rfl
  case property =>
    intro a t u terms named _ _
    exact shows_atom (dummy_not_mem_terms terms (Formula.forall_nodes_atom.1 named)) rfl
  case and =>
    intro parts rs each named known grounded
    have inside := (Formula.forall_nodes_junction.1 named).2
    refine shows_junction (Sql.forall₂_imp_mem each fun f hf r both => ?_) (fun f => mem_arranged)
      scope_join legal_join
    have hf := mem_arranged.1 hf
    exact both.2 (inside f hf) _ (Formula.grounded_and.1 grounded f hf)
  case or =>
    intro parts rs each named known grounded
    have inside := (Formula.forall_nodes_junction.1 named).2
    refine shows_junction (Sql.forall₂_imp_mem each fun f hf r both => ?_) (fun f => Iff.rfl)
      scope_union legal_union
    exact both.2 (inside f hf) _ (Formula.grounded_or.1 grounded f hf)
  case neg =>
    intro body r _ inside named known grounded
    have below := inside (Formula.forall_nodes_neg.1 named).2 ∅ (Formula.grounded_neg.1 grounded).2
    refine ⟨iff_of_false nofun nofun, ?_⟩
    rw [Formula.forall_nodes_neg]
    exact below.legal_iff.trans (and_iff_right rfl).symm
  case exist =>
    intro vars body r compiled inside named known grounded
    rcases Formula.forall_nodes_quant.1 named with ⟨here, below⟩
    exact shows_exist compiled (inside below ∅ grounded) grounded here

end Sparql
end QueryCalculus
