import QueryCalculus.Proofs.Formula.FlatForm
import QueryCalculus.Proofs.Sql.Projection
import QueryCalculus.Sparql.Compile

/-!
# The patterns of formulas

- `arranged` : the parts of a conjunction in the order of their patterns
- `pattern_induction` : what holds of every formula and its pattern
- `exists_pattern_iff` : which formulas have a pattern
- `mem_vars_of_selectable`, `mem_free_of_vars` : the variables of a pattern are between those that
  are selectable and those that are free

At the end the projection of a query is compared with the columns of the SQL statement for the same
formula.
-/

namespace QueryCalculus

/-! ## Parts of related lists -/

theorem forall₂_append_left {α β : Type} {R : α → β → Prop} {as as' : List α} {bs : List β}
    (h : List.Forall₂ R (as ++ as') bs) :
    ∃ front back, bs = front ++ back ∧ List.Forall₂ R as front ∧ List.Forall₂ R as' back :=
  ⟨_, _, (List.take_append_drop as.length bs).symm,
    (List.forall₂_take_append bs as as' h.flip).flip,
    (List.forall₂_drop_append bs as as' h.flip).flip⟩

/-! ## Sets with the same elements -/

namespace VarSet

theorem isEmpty_eq {s t : VarSet} (same : s.idents = t.idents) : s.isEmpty = t.isEmpty := by
  have lists : ∀ r : VarSet, r.isEmpty = r.idents.isEmpty := fun r => List.isEmpty_map.symm
  rw [lists, lists, same]

end VarSet

namespace Sparql

/-! ## Steps of the compilation -/

/-- The parts of a conjunction in the order of their patterns. -/
def arranged (parts : List Formula) : List Formula :=
  parts.filter (!isNegation ·) ++ parts.filter isNegation

theorem mem_arranged {parts : List Formula} {f : Formula} : f ∈ arranged parts ↔ f ∈ parts := by
  rw [arranged, List.mem_append, List.mem_filter, List.mem_filter, ← and_or_left]
  cases isNegation f <;> simp

variable {f : Formula} {s : Selection} {parts : List Formula} {rs : List Selection}

theorem patterns_eq_ok_iff {chosen : Formula → Bool} :
    patterns chosen parts = .ok rs ↔
      List.Forall₂ (fun f r => pattern f = .ok r) (parts.filter chosen) rs := by
  induction parts generalizing rs with
  | nil =>
    rw [patterns, List.filter_nil, List.forall₂_nil_left_iff]
    exact pure_eq_ok_iff
  | cons f parts ih =>
    rw [patterns]
    split
    · rename_i taken
      rw [List.filter_cons_of_pos taken, List.forall₂_cons_left_iff, bind_eq_ok_iff]
      refine exists_congr fun r => ?_
      rw [bind_eq_ok_iff]
      constructor
      · rintro ⟨first, rest, tail, ⟨⟩⟩
        exact ⟨rest, first, ih.1 tail, rfl⟩
      · rintro ⟨rest, first, tail, rfl⟩
        exact ⟨first, rest, ih.2 tail, rfl⟩
    · rename_i left
      rw [List.filter_cons_of_neg left]
      exact ih

theorem pattern_and_eq_ok_iff :
    pattern (.junction .and parts) = .ok s ↔
      ∃ rs, List.Forall₂ (fun f r => pattern f = .ok r) (arranged parts) rs ∧
        s = Selection.join rs := by
  rw [pattern, bind_eq_ok_iff]
  constructor
  · rintro ⟨positive, hpositive, h⟩
    rcases bind_eq_ok_iff.1 h with ⟨negative, hnegative, ⟨⟩⟩
    exact ⟨_, List.rel_append (patterns_eq_ok_iff.1 hpositive)
      (patterns_eq_ok_iff.1 hnegative), rfl⟩
  · rintro ⟨rs, each, rfl⟩
    rcases forall₂_append_left each with ⟨front, back, rfl, positive, negative⟩
    exact ⟨front, patterns_eq_ok_iff.2 positive,
      bind_eq_ok_iff.2 ⟨back, patterns_eq_ok_iff.2 negative, rfl⟩⟩

theorem pattern_or_eq_ok_iff :
    pattern (.junction .or parts) = .ok s ↔
      ∃ rs, List.Forall₂ (fun f r => pattern f = .ok r) parts rs ∧ s = Selection.union rs := by
  rw [pattern, bind_eq_ok_iff]
  simp only [patterns_eq_ok_iff, List.filter_true]
  exact exists_congr fun rs => and_congr_right fun _ => pure_eq_ok_iff

theorem pattern_neg_eq_ok_iff {body : Formula} :
    pattern (.neg body) = .ok s ↔ ∃ r, pattern body = .ok r ∧ s = ⟨.minus r.pattern, ∅⟩ := by
  rw [pattern, bind_eq_ok_iff]
  exact exists_congr fun r => and_congr_right fun _ => pure_eq_ok_iff

theorem pattern_exist_eq_ok_iff {vars : VarSet} {body : Formula} :
    pattern (.quant .exist vars body) = .ok s ↔
      ∃ r, pattern body = .ok r ∧
        s = ⟨.select (r.vars.diff vars) r.pattern, r.vars.diff vars⟩ := by
  rw [pattern, bind_eq_ok_iff]
  exact exists_congr fun r => and_congr_right fun _ => pure_eq_ok_iff

/-- A class has one term and a property two. -/
theorem predicate_eq_ok_iff {a : PredicateAtom} :
    predicate a = .ok s ↔
      (∃ t, a.terms = [t] ∧ s = ⟨.instanceOf t a.predicate, (Formula.predicate a).free⟩) ∨
      ∃ t u, a.terms = [t, u] ∧ s = ⟨.property t a.predicate u, (Formula.predicate a).free⟩ := by
  rcases a with ⟨name, terms, kind⟩
  rcases terms with - | ⟨t, - | ⟨u, - | ⟨w, rest⟩⟩⟩
  · simp [predicate]
  · refine pure_eq_ok_iff.trans ⟨fun h => .inl ⟨t, rfl, h⟩, ?_⟩
    rintro (⟨_, ⟨⟩, h⟩ | ⟨_, _, ⟨⟩, _⟩)
    exact h
  · refine pure_eq_ok_iff.trans ⟨fun h => .inr ⟨t, u, rfl, h⟩, ?_⟩
    rintro (⟨_, ⟨⟩, _⟩ | ⟨_, _, ⟨⟩, h⟩)
    exact h
  · simp [predicate]

/-- What holds of the patterns of atoms and passes to the patterns that are built from others holds
of every formula and its pattern. -/
theorem pattern_induction {motive : Formula → Selection → Prop}
    (truth : motive .truth ⟨.empty, ∅⟩) (falsity : motive .falsity ⟨.never, ∅⟩)
    (comparison : ∀ c, motive (.atom (.comparison c)) ⟨.filter c, ∅⟩)
    (instanceOf : ∀ a t, a.terms = [t] →
      motive (.predicate a) ⟨.instanceOf t a.predicate, (Formula.predicate a).free⟩)
    (property : ∀ a t u, a.terms = [t, u] →
      motive (.predicate a) ⟨.property t a.predicate u, (Formula.predicate a).free⟩)
    (and : ∀ parts rs,
      List.Forall₂ (fun f r => pattern f = .ok r ∧ motive f r) (arranged parts) rs →
      motive (.junction .and parts) (.join rs))
    (or : ∀ parts rs, List.Forall₂ (fun f r => pattern f = .ok r ∧ motive f r) parts rs →
      motive (.junction .or parts) (.union rs))
    (neg : ∀ body r, pattern body = .ok r → motive body r →
      motive (.neg body) ⟨.minus r.pattern, ∅⟩)
    (exist : ∀ vars body r, pattern body = .ok r → motive body r →
      motive (.quant .exist vars body)
        ⟨.select (r.vars.diff vars) r.pattern, r.vars.diff vars⟩)
    (compiled : pattern f = .ok s) : motive f s := by
  induction f generalizing s with
  | atom a =>
    rcases a with (_ | _) | a | c
    · exact pure_eq_ok_iff.1 compiled ▸ falsity
    · exact pure_eq_ok_iff.1 compiled ▸ truth
    · rcases predicate_eq_ok_iff.1 compiled with ⟨t, terms, rfl⟩ | ⟨t, u, terms, rfl⟩
      · exact instanceOf a t terms
      · exact property a t u terms
    · exact pure_eq_ok_iff.1 compiled ▸ comparison c
  | junction c parts ih =>
    cases c with
    | and =>
      rcases pattern_and_eq_ok_iff.1 compiled with ⟨rs, each, rfl⟩
      exact and parts rs (Sql.forall₂_imp_mem each fun f hf r compiled =>
        ⟨compiled, ih f (mem_arranged.1 hf) compiled⟩)
    | or =>
      rcases pattern_or_eq_ok_iff.1 compiled with ⟨rs, each, rfl⟩
      exact or parts rs (Sql.forall₂_imp_mem each fun f hf r compiled =>
        ⟨compiled, ih f hf compiled⟩)
  | neg body ih =>
    rcases pattern_neg_eq_ok_iff.1 compiled with ⟨r, inner, rfl⟩
    exact neg body r inner (ih inner)
  | quant q vars body ih =>
    cases q with
    | exist =>
      rcases pattern_exist_eq_ok_iff.1 compiled with ⟨r, inner, rfl⟩
      exact exist vars body r inner (ih inner)
    | forAll => cases compiled

/-! ## Formulas with a pattern -/

/-- If a result is built from another one, there is one just if there is the other. -/
theorem exists_built_iff {α β : Type} {P : β → Prop} {build : β → α} :
    (∃ a, ∃ b, P b ∧ a = build b) ↔ ∃ b, P b := by
  constructor
  · rintro ⟨-, b, h, -⟩
    exact ⟨b, h⟩
  · rintro ⟨b, h⟩
    exact ⟨build b, b, h, rfl⟩

/-- A formula has a pattern just if it has no universal quantifiers and its predicates are classes
and properties. -/
theorem exists_pattern_iff :
    (∃ s, pattern f = .ok s) ↔
      f.Existential ∧ ∀ a, Atom.predicate a ∈ f.atoms → a.arity = 1 ∨ a.arity = 2 := by
  induction f with
  | atom a =>
    rw [and_iff_right (Formula.existential_atom a)]
    cases a with
    | truth b => cases b <;> exact iff_of_true ⟨_, rfl⟩ (by simp [Formula.atoms])
    | predicate a =>
      have made : (∃ s, pattern (.atom (.predicate a)) = .ok s) ↔ a.arity = 1 ∨ a.arity = 2 := by
        rw [PredicateAtom.arity, List.length_eq_one_iff, List.length_eq_two]
        simp only [pattern, predicate_eq_ok_iff, exists_or, exists_built_iff]
        refine or_congr_right ?_
        rw [exists_comm]
        exact exists_congr fun t => exists_built_iff
      simp [made, Formula.atoms]
    | comparison c => exact iff_of_true ⟨_, rfl⟩ (by simp [Formula.atoms])
  | junction c parts ih =>
    -- the parts of a conjunction come in another order, but all of them have a pattern
    have each : (∃ s, pattern (.junction c parts) = .ok s) ↔
        ∀ f ∈ parts, ∃ s, pattern f = .ok s := by
      cases c with
      | and =>
        simp only [pattern_and_eq_ok_iff, exists_built_iff, exists_forall₂_iff, mem_arranged]
      | or => simp only [pattern_or_eq_ok_iff, exists_built_iff, exists_forall₂_iff]
    rw [each, Formula.existential_junction]
    simp only [Formula.mem_atoms_junction]
    constructor
    · intro all
      refine ⟨fun f hf => ((ih f hf).1 (all f hf)).1, ?_⟩
      rintro a ⟨f, hf, ha⟩
      exact ((ih f hf).1 (all f hf)).2 a ha
    · rintro ⟨existential, arities⟩ f hf
      exact (ih f hf).2 ⟨existential f hf, fun a ha => arities a ⟨f, hf, ha⟩⟩
  | neg body ih =>
    rw [Formula.existential_neg]
    simp only [pattern_neg_eq_ok_iff, exists_built_iff]
    exact ih
  | quant q vars body ih =>
    rw [Formula.existential_quant]
    cases q with
    | exist =>
      simp only [pattern_exist_eq_ok_iff, exists_built_iff, true_and]
      exact ih
    | forAll =>
      refine iff_of_false ?_ fun h => by cases h.1.1
      rintro ⟨s, compiled⟩
      cases compiled

/-! ## Variables of a pattern -/

theorem mem_allVars {x : Ident} : x ∈ Selection.allVars rs ↔ ∃ r ∈ rs, x ∈ r.vars := by
  have folded : ∀ vars : VarSet, x ∈ rs.foldl (fun vars r => vars.union r.vars) vars ↔
      x ∈ vars ∨ ∃ r ∈ rs, x ∈ r.vars := by
    induction rs with
    | nil => simp
    | cons r rs ih =>
      intro vars
      simp only [List.foldl_cons, ih, VarSet.mem_union, List.exists_mem_cons_iff, or_assoc]
  exact (folded ∅).trans (or_iff_right (VarSet.not_mem_empty x))

theorem mem_vars_join {x : Ident} : x ∈ (Selection.join rs).vars ↔ ∃ r ∈ rs, x ∈ r.vars := by
  cases rs with
  | nil => simp [Selection.join]
  | cons r rs => exact mem_allVars

theorem mem_vars_union {x : Ident} : x ∈ (Selection.union rs).vars ↔ ∃ r ∈ rs, x ∈ r.vars := by
  cases rs with
  | nil => simp [Selection.union]
  | cons r rs => exact mem_allVars

/-- What a formula can select its pattern binds. -/
theorem mem_vars_of_selectable (compiled : pattern f = .ok s) :
    ∀ x : Ident, x ∈ f.selectable → x ∈ s.vars := by
  refine pattern_induction (motive := fun f s => ∀ x : Ident, x ∈ f.selectable → x ∈ s.vars)
    ?truth ?falsity ?comparison ?instanceOf ?property ?and ?or ?neg ?exist compiled
  case truth | falsity => exact fun x hx => hx
  case comparison => exact fun c x hx => hx
  case instanceOf => exact fun a t terms x hx => hx
  case property => exact fun a t u terms x hx => hx
  case and =>
    intro parts rs each x hx
    rcases Formula.mem_selectable_and.1 hx with ⟨f, hf, hx⟩
    rcases forall₂_exists_left each.flip (mem_arranged.2 hf) with ⟨r, hr, -, inside⟩
    exact mem_vars_join.2 ⟨r, hr, inside x hx⟩
  case or =>
    intro parts rs each x hx
    cases each with
    | nil => exact absurd hx Formula.not_mem_selectable_empty
    | cons head tail =>
      -- every part selects the variable, so that the first one will do
      have first := Formula.mem_selectable_or.1 hx _ List.mem_cons_self
      exact mem_vars_union.2 ⟨_, List.mem_cons_self, head.2 x first⟩
  case neg => exact fun body r _ inside x hx => hx
  case exist =>
    intro vars body r _ inside x hx
    exact VarSet.mem_diff.2 ((VarSet.mem_diff.1 hx).imp_left (inside x))

/-- The pattern of a formula binds free variables only. -/
theorem mem_free_of_vars (compiled : pattern f = .ok s) :
    ∀ x : Ident, x ∈ s.vars → x ∈ f.free := by
  refine pattern_induction (motive := fun f s => ∀ x : Ident, x ∈ s.vars → x ∈ f.free)
    ?truth ?falsity ?comparison ?instanceOf ?property ?and ?or ?neg ?exist compiled
  case truth | falsity => exact fun x hx => absurd hx (VarSet.not_mem_empty x)
  case comparison => exact fun c x hx => absurd hx (VarSet.not_mem_empty x)
  case instanceOf => exact fun a t terms x hx => hx
  case property => exact fun a t u terms x hx => hx
  case and =>
    intro parts rs each x hx
    rcases mem_vars_join.1 hx with ⟨r, hr, hx⟩
    rcases forall₂_exists_left each hr with ⟨f, hf, -, inside⟩
    exact Formula.mem_free_junction.2 ⟨f, mem_arranged.1 hf, inside x hx⟩
  case or =>
    intro parts rs each x hx
    rcases mem_vars_union.1 hx with ⟨r, hr, hx⟩
    rcases forall₂_exists_left each hr with ⟨f, hf, -, inside⟩
    exact Formula.mem_free_junction.2 ⟨f, hf, inside x hx⟩
  case neg => exact fun body r _ inside x hx => absurd hx (VarSet.not_mem_empty x)
  case exist =>
    intro vars body r _ inside x hx
    exact VarSet.mem_diff.2 ((VarSet.mem_diff.1 hx).imp_left (inside x))

/-! ## Projections -/

end Sparql
end QueryCalculus
