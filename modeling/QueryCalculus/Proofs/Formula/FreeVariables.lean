import Mathlib.Data.List.Forall2
import Mathlib.Data.List.Nodup
import QueryCalculus.Formula.Prepared

/-!
# Free, selectable and shared variables

- `mem_free_junction`, `mem_selectable_and`, ... : the variable sets of a formula from those of its
  parts, by identity
- `find?_entry_eq_none_iff`, `mem_of_find?_entry` : what a list has for a variable
- `selectable_subset_free` : selectable variables are free
- `mem_shared` : a variable that is free in two parts of a conjunction is shared
- `idents_eq` : sets with the same members list the same identities
- `same_atom_cases`, `same_induction` : two equal atoms, and two equal formulas, case by case
- `same_refl`, `same_trans`, `mem_free_iff_of_same` : equality of formulas is reflexive and
  transitive, and equal formulas have the same free variables
-/

namespace QueryCalculus

universe u

/-! ## Lists -/

theorem map_eq_self_iff {α : Type} {h : α → α} {as : List α} :
    as.map h = as ↔ ∀ a ∈ as, h a = a := by
  calc
    as.map h = as ↔ as.map h = as.map id := by rw [List.map_id]
    _ ↔ ∀ a ∈ as, h a = a := List.map_inj_left

theorem forall₂_exists_left {α : Type} {β : Type u} {R : α → β → Prop} {as : List α} {bs : List β}
    (h : List.Forall₂ R as bs) {b : β} (hb : b ∈ bs) : ∃ a ∈ as, R a b := by
  induction h with
  | nil => simp at hb
  | cons head tail ih =>
    rcases List.mem_cons.1 hb with rfl | hb
    · exact ⟨_, List.mem_cons_self, head⟩
    · rcases ih hb with ⟨a, ha, related⟩
      exact ⟨a, List.mem_cons_of_mem _ ha, related⟩

theorem forall₂_trans {α β γ : Type} {R : α → β → Prop} {S : β → γ → Prop} {T : α → γ → Prop}
    (step : ∀ a b c, R a b → S b c → T a c) {as : List α} {bs : List β} {cs : List γ}
    (left : List.Forall₂ R as bs) (right : List.Forall₂ S bs cs) : List.Forall₂ T as cs := by
  induction left generalizing cs with
  | nil =>
    cases right
    exact .nil
  | cons head tail ih =>
    cases right with
    | cons head' tail' => exact .cons (step _ _ _ head head') (ih tail')

theorem exists_forall₂_iff {α β : Type} {R : α → β → Prop} {as : List α} :
    (∃ bs, List.Forall₂ R as bs) ↔ ∀ a ∈ as, ∃ b, R a b := by
  induction as with
  | nil => exact iff_of_true ⟨[], .nil⟩ (by simp)
  | cons a as ih =>
    rw [List.forall_mem_cons, ← ih]
    constructor
    · rintro ⟨bs, each⟩
      cases each with
      | cons head tail => exact ⟨⟨_, head⟩, ⟨_, tail⟩⟩
    · rintro ⟨⟨b, head⟩, ⟨bs, tail⟩⟩
      exact ⟨b :: bs, .cons head tail⟩

/-! ## Sets by their identities -/

namespace VarSet

theorem ext_toList {s t : VarSet} (same : s.toList = t.toList) : s = t := by
  cases s
  cases t
  cases same
  rfl

theorem nodup_idents (s : VarSet) : s.idents.Nodup := by
  refine s.sorted.map Variable.toIdent ?_
  intro x y below same
  rw [same] at below
  exact Ident.lt_irrefl _ below

theorem mem_idents {s : VarSet} {x : Ident} : x ∈ s.idents ↔ x ∈ s :=
  Iff.rfl

theorem idents_eq {s t : VarSet} (same : ∀ x : Ident, x ∈ s ↔ x ∈ t) : s.idents = t.idents := by
  -- sorted lists with the same elements are equal
  have ascending : ∀ r : VarSet, r.idents.Pairwise (· < ·) := fun r => List.pairwise_map.2 r.sorted
  have perm : s.idents.Perm t.idents :=
    (List.perm_ext_iff_of_nodup s.nodup_idents t.nodup_idents).2 same
  refine perm.eq_of_pairwise ?_ (ascending s) (ascending t)
  intro x y _ _ below above
  exact absurd (Ident.lt_trans below above) (Ident.lt_irrefl x)

theorem diff_eq_self {s t : VarSet} (h : ∀ x : Ident, x ∈ s → x ∉ t) : s.diff t = s := by
  have kept : s.toList.filter (fun x => !t.contains x) = s.toList := by
    rw [List.filter_eq_self]
    intro x hx
    have absent : ¬ t.contains x = true := fun found => h _ (toIdent_mem hx) (contains_iff.1 found)
    simpa using absent
  exact ext_toList kept

theorem exists_mem_flatMap {α : Type} {s : α → VarSet} {as : List α} {x : Ident} :
    (∃ y ∈ as.flatMap fun a => (s a).toList, y.toIdent = x) ↔ ∃ a ∈ as, x ∈ s a := by
  simp only [List.mem_flatMap]
  constructor
  · rintro ⟨y, ⟨a, ha, hy⟩, rfl⟩
    exact ⟨a, ha, toIdent_mem hy⟩
  · rintro ⟨a, ha, hx⟩
    obtain ⟨y, hy, rfl⟩ := mem_iff.1 hx
    exact ⟨y, ⟨a, ha, hy⟩, rfl⟩

theorem beq_variables_iff {xs ys : List Variable} :
    (xs == ys) = true ↔ xs.map Variable.toIdent = ys.map Variable.toIdent := by
  induction xs generalizing ys with
  | nil => cases ys <;> simp
  | cons x xs ih =>
    cases ys with
    | nil => simp
    | cons y ys =>
      rw [List.cons_beq_cons, Bool.and_eq_true, Variable.beq_iff, ih, List.map_cons, List.map_cons,
        List.cons.injEq]

theorem beq_iff {s t : VarSet} : (s == t) = true ↔ s.idents = t.idents :=
  beq_variables_iff

theorem beq_trans {s t r : VarSet} (hst : (s == t) = true) (htr : (t == r) = true) :
    (s == r) = true :=
  beq_iff.2 ((beq_iff.1 hst).trans (beq_iff.1 htr))

theorem mem_iff_of_beq {s t : VarSet} (h : (s == t) = true) {x : Ident} : x ∈ s ↔ x ∈ t := by
  rw [← mem_idents, beq_iff.1 h, mem_idents]

end VarSet

/-! ## Entries of variables -/

section Entries

variable {β : Type} {entries : List (Variable × β)} {x y : Variable}

theorem find?_entry_congr (same : x.toIdent = y.toIdent) :
    entries.find? (·.1 == x) = entries.find? (·.1 == y) := by
  have test : ∀ z : Variable, (z == x) = (z == y) := by
    intro z
    rw [Bool.eq_iff_iff, Variable.beq_iff, Variable.beq_iff, same]
  simp only [test]

theorem find?_entry_eq_none_iff :
    (entries.find? (·.1 == x)).map Prod.snd = none ↔
      ∀ entry ∈ entries, entry.1.toIdent ≠ x.toIdent := by
  rw [Option.map_eq_none_iff, List.find?_eq_none]
  simp only [Variable.beq_iff, ne_eq]

theorem mem_of_find?_entry {b : β} (h : (entries.find? (·.1 == x)).map Prod.snd = some b) :
    ∃ z, (z, b) ∈ entries ∧ z.toIdent = x.toIdent := by
  rcases Option.map_eq_some_iff.1 h with ⟨entry, found, rfl⟩
  have same := List.find?_some found
  exact ⟨entry.1, List.mem_of_find?_eq_some found, Variable.beq_iff.1 same⟩

end Entries

/-! ## Variables of terms -/

theorem mem_variablesOf {x : Variable} {terms : List Term} :
    x ∈ variablesOf terms ↔ Term.var x ∈ terms := by
  unfold variablesOf
  rw [List.mem_filterMap]
  constructor
  · rintro ⟨t, ht, found⟩
    cases t with
    | var y => simpa [Term.var?] using (Option.some.inj found) ▸ ht
    | const c => simp [Term.var?] at found
  · intro hx
    exact ⟨.var x, hx, rfl⟩

theorem Term.exists_var_of_key {t : Term} {x : Ident} (h : t.key = .var x) :
    ∃ y, t = .var y ∧ y.toIdent = x := by
  cases t with
  | var y => exact ⟨y, rfl, Term.Key.var.inj h⟩
  | const c => cases c <;> cases h

theorem Atom.terms_mapTerms (h : Term → Term) (a : Atom) :
    (a.mapTerms h).terms = a.terms.map h := by
  cases a <;> rfl

theorem Atom.mapTerms_id (a : Atom) : a.mapTerms id = a := by
  cases a <;> simp [Atom.mapTerms]

namespace Formula

theorem mem_namedVariables {x : Variable} {terms : List Term} :
    x ∈ namedVariables terms ↔ Term.var x ∈ terms ∧ x.isBlank = false := by
  unfold namedVariables
  rw [List.mem_filter, mem_variablesOf]
  simp

/-! ## Free variables -/

theorem mem_free_atom {a : Atom} {x : Ident} :
    x ∈ (Formula.atom a).free ↔
      ∃ y, Term.var y ∈ a.terms ∧ y.isBlank = false ∧ y.toIdent = x := by
  have listed : x ∈ (Formula.atom a).free ↔ ∃ y ∈ namedVariables a.terms, y.toIdent = x :=
    VarSet.mem_ofList
  simp only [listed, mem_namedVariables, and_assoc]

theorem mem_free_junction {c : Connective} {parts : List Formula} {x : Ident} :
    x ∈ (Formula.junction c parts).free ↔ ∃ f ∈ parts, x ∈ f.free := by
  have listed : x ∈ (Formula.junction c parts).free ↔ ∃ y ∈ freeAll parts, y.toIdent = x :=
    VarSet.mem_ofList
  rw [listed, freeAll_eq_flatMap, VarSet.exists_mem_flatMap]

theorem mem_free_neg {body : Formula} {x : Ident} : x ∈ (Formula.neg body).free ↔ x ∈ body.free :=
  Iff.rfl

theorem mem_free_quant {q : Quantifier} {vars : VarSet} {body : Formula} {x : Ident} :
    x ∈ (Formula.quant q vars body).free ↔ x ∈ body.free ∧ x ∉ vars :=
  VarSet.mem_diff

/-- Blanks are never free. -/
theorem isBlank_of_mem_free {f : Formula} {x : Variable} (hx : x.toIdent ∈ f.free) :
    x.isBlank = false := by
  induction f with
  | atom a =>
    -- whether a variable is blank is a matter of its name, which is part of its identity
    obtain ⟨y, -, named, same⟩ := mem_free_atom.1 hx
    have names : y.name = x.name := congrArg Ident.name same
    simpa [Variable.isBlank, names] using named
  | junction c parts ih =>
    obtain ⟨f, hf, hx⟩ := mem_free_junction.1 hx
    exact ih f hf hx
  | neg body ih => exact ih (mem_free_neg.1 hx)
  | quant q vars body ih => exact ih (mem_free_quant.1 hx).1

/-! ## Selectable variables -/

theorem mem_selectable_predicate {a : PredicateAtom} {x : Ident} :
    x ∈ (Formula.atom (.predicate a)).selectable ↔ x ∈ (Formula.atom (.predicate a)).free :=
  Iff.rfl

theorem not_mem_selectable_truth {b : Bool} {x : Ident} :
    x ∉ (Formula.atom (.truth b)).selectable :=
  VarSet.not_mem_empty x

theorem not_mem_selectable_comparison {c : Comparison} {x : Ident} :
    x ∉ (Formula.atom (.comparison c)).selectable :=
  VarSet.not_mem_empty x

theorem not_mem_selectable_neg {body : Formula} {x : Ident} : x ∉ (Formula.neg body).selectable :=
  VarSet.not_mem_empty x

theorem mem_selectable_and {parts : List Formula} {x : Ident} :
    x ∈ (Formula.junction .and parts).selectable ↔ ∃ f ∈ parts, x ∈ f.selectable := by
  have listed : x ∈ (Formula.junction .and parts).selectable ↔
      ∃ y ∈ selectableAny parts, y.toIdent = x :=
    VarSet.mem_ofList
  rw [listed, selectableAny_eq_flatMap, VarSet.exists_mem_flatMap]

theorem mem_selectableEach {common : VarSet} {parts : List Formula} {x : Ident} :
    x ∈ selectableEach common parts ↔ x ∈ common ∧ ∀ f ∈ parts, x ∈ f.selectable := by
  induction parts generalizing common with
  | nil => simpa using show x ∈ selectableEach common [] ↔ x ∈ common from Iff.rfl
  | cons f fs ih =>
    -- the variables that all parts so far can select are carried along
    have step : x ∈ selectableEach common (f :: fs) ↔
        x ∈ selectableEach (common.inter f.selectable) fs := Iff.rfl
    rw [step, ih, VarSet.mem_inter, List.forall_mem_cons, and_assoc]

theorem mem_selectable_or {part : Formula} {parts : List Formula} {x : Ident} :
    x ∈ (Formula.junction .or (part :: parts)).selectable ↔
      ∀ f ∈ part :: parts, x ∈ f.selectable := by
  rw [List.forall_mem_cons]
  exact mem_selectableEach

theorem mem_selectable_single {c : Connective} {part : Formula} {x : Ident} :
    x ∈ (Formula.junction c [part]).selectable ↔ x ∈ part.selectable := by
  cases c with
  | and => simp [mem_selectable_and]
  | or => simp [mem_selectable_or]

theorem not_mem_selectable_empty {c : Connective} {x : Ident} :
    x ∉ (Formula.junction c []).selectable := by
  cases c with
  | and => simp [mem_selectable_and]
  | or => exact VarSet.not_mem_empty x

theorem mem_selectable_quant {q : Quantifier} {vars : VarSet} {body : Formula} {x : Ident} :
    x ∈ (Formula.quant q vars body).selectable ↔ x ∈ body.selectable ∧ x ∉ vars :=
  VarSet.mem_diff

theorem selectable_subset_free {f : Formula} {x : Ident} (hx : x ∈ f.selectable) : x ∈ f.free := by
  induction f with
  | atom a =>
    cases a with
    | truth b => exact absurd hx not_mem_selectable_truth
    | predicate a => exact mem_selectable_predicate.1 hx
    | comparison c => exact absurd hx not_mem_selectable_comparison
  | junction c parts ih =>
    rw [mem_free_junction]
    cases c with
    | and =>
      obtain ⟨f, hf, hx⟩ := mem_selectable_and.1 hx
      exact ⟨f, hf, ih f hf hx⟩
    | or =>
      cases parts with
      | nil => exact absurd hx not_mem_selectable_empty
      | cons part parts =>
        -- any part will do, since what a disjunction selects all its parts select
        have hpart := List.mem_cons_self (a := part) (l := parts)
        exact ⟨part, hpart, ih part hpart (mem_selectable_or.1 hx part hpart)⟩
  | neg body ih => exact absurd hx not_mem_selectable_neg
  | quant q vars body ih =>
    have h := mem_selectable_quant.1 hx
    exact mem_free_quant.2 ⟨ih h.1, h.2⟩

/-! ## Shared variables -/

theorem countP_pos_of_mem_free {parts : List Formula} {f : Formula} {x : Variable} (hf : f ∈ parts)
    (hx : x.toIdent ∈ f.free) : 0 < (freeAll parts).countP (· == x) := by
  obtain ⟨y, hy, same⟩ := VarSet.mem_iff.1 hx
  rw [freeAll_eq_flatMap, List.countP_pos_iff]
  exact ⟨y, List.mem_flatMap.2 ⟨f, hf, hy⟩, Variable.beq_iff.2 same⟩

theorem one_lt_countP_of_mem_free {parts : List Formula} {x : Variable} {i j : Nat} {f g : Formula}
    (below : i < j) (hi : parts[i]? = some f) (hj : parts[j]? = some g) (hf : x.toIdent ∈ f.free)
    (hg : x.toIdent ∈ g.free) : 1 < (freeAll parts).countP (· == x) := by
  induction parts generalizing i j with
  | nil => simp at hi
  | cons part parts ih =>
    -- the second place is not the first of the list
    obtain ⟨j, rfl⟩ : ∃ k, j = k + 1 := ⟨j - 1, by omega⟩
    simp only [List.getElem?_cons_succ] at hj
    rw [freeAll, List.countP_append]
    cases i with
    | zero =>
      simp only [List.getElem?_cons_zero, Option.some.injEq] at hi
      subst hi
      obtain ⟨y, hy, same⟩ := VarSet.mem_iff.1 hf
      -- one occurrence in the part at the front, and one in a part behind it
      have here : 0 < part.free.toList.countP (· == x) :=
        List.countP_pos_iff.2 ⟨y, hy, Variable.beq_iff.2 same⟩
      have there := countP_pos_of_mem_free (List.mem_of_getElem? hj) hg
      omega
    | succ i =>
      simp only [List.getElem?_cons_succ] at hi
      have later := ih (by omega : i < j) hi hj
      omega

/-- A variable that is free in the parts at two places of a conjunction is shared. -/
theorem mem_shared {parts : List Formula} {x : Ident} {i j : Nat} {f g : Formula} (apart : i ≠ j)
    (hi : parts[i]? = some f) (hj : parts[j]? = some g) (hf : x ∈ f.free) (hg : x ∈ g.free) :
    x ∈ (Formula.junction .and parts).shared := by
  -- it counts how often a variable is free in the parts, whichever of its occurrences is kept
  have often : ∀ y : Variable, y.toIdent = x → 1 < (freeAll parts).countP (· == y) := by
    rintro y rfl
    rcases Nat.lt_or_gt_of_ne apart with below | above
    · exact one_lt_countP_of_mem_free below hi hj hf hg
    · exact one_lt_countP_of_mem_free above hj hi hg hf
  obtain ⟨y, hy, rfl⟩ := VarSet.mem_iff.1 hf
  have occurs : y ∈ freeAll parts := by
    rw [freeAll_eq_flatMap]
    exact List.mem_flatMap.2 ⟨f, List.mem_of_getElem? hi, hy⟩
  obtain ⟨z, hz, same⟩ :=
    VarSet.mem_iff.1 (VarSet.mem_extend (s := VarSet.empty).2 (.inr ⟨y, occurs, rfl⟩))
  refine VarSet.mem_iff.2 ⟨z, ?_, same⟩
  simp only [shared, VarSet.filter]
  exact List.mem_filter.2 ⟨hz, by simpa using often z same⟩

/-! ## Equal formulas -/

theorem beq_terms_iff {ts us : List Term} :
    (ts == us) = true ↔ ts.map Term.key = us.map Term.key := by
  induction ts generalizing us with
  | nil => cases us <;> simp
  | cons t ts ih =>
    cases us with
    | nil => simp
    | cons u us =>
      rw [List.cons_beq_cons, Bool.and_eq_true, Term.beq_iff, ih, List.map_cons, List.map_cons,
        List.cons.injEq]

theorem sameAll_iff {fs gs : List Formula} :
    sameAll fs gs = true ↔ List.Forall₂ (fun f g => f.same g = true) fs gs := by
  induction fs generalizing gs with
  | nil => cases gs <;> simp [sameAll]
  | cons f fs ih => cases gs <;> simp [sameAll, ih]

/-- The free variables of an atom are the named variables among the keys of its terms. -/
theorem mem_free_atom_iff_key {a : Atom} {x : Ident} :
    x ∈ (Formula.atom a).free ↔
      Term.Key.var x ∈ a.terms.map Term.key ∧ x.name ≠ Variable.blankName := by
  rw [mem_free_atom, List.mem_map]
  constructor
  · rintro ⟨y, hy, named, rfl⟩
    exact ⟨⟨.var y, hy, rfl⟩, by simpa [Variable.isBlank] using named⟩
  · rintro ⟨⟨t, ht, same⟩, named⟩
    obtain ⟨y, rfl, rfl⟩ := Term.exists_var_of_key same
    exact ⟨y, ht, by simpa [Variable.isBlank] using named, rfl⟩

theorem same_predicate_iff {a b : PredicateAtom} :
    (Atom.predicate a).same (.predicate b) = true ↔
      a.predicate = b.predicate ∧ a.terms.map Term.key = b.terms.map Term.key ∧
        a.kind = b.kind := by
  show (a.predicate == b.predicate && a.terms == b.terms && a.kind == b.kind) = true ↔ _
  simp only [Bool.and_eq_true, beq_iff_eq, beq_terms_iff, and_assoc]

/-- The sides of a comparison may be swapped. -/
theorem same_comparison_iff {c d : Comparison} :
    (Atom.comparison c).same (.comparison d) = true ↔
      c.relation = d.relation ∧
        (c.left.key = d.left.key ∧ c.right.key = d.right.key ∨
          c.left.key = d.right.key ∧ c.right.key = d.left.key) := by
  show (c.relation == d.relation && (c.left == d.left && c.right == d.right ||
    c.left == d.right && c.right == d.left)) = true ↔ _
  simp only [Bool.and_eq_true, Bool.or_eq_true, Term.beq_iff, beq_iff_eq]

/-- Equal atoms have the same form, so only the pairs of one form are left to look at. -/
theorem same_atom_cases {P : Atom → Atom → Prop} (truth : ∀ p, P (.truth p) (.truth p))
    (predicate : ∀ a b : PredicateAtom, a.predicate = b.predicate →
      a.terms.map Term.key = b.terms.map Term.key → a.kind = b.kind →
        P (.predicate a) (.predicate b))
    (comparison : ∀ c d : Comparison, c.relation = d.relation →
      (c.left.key = d.left.key ∧ c.right.key = d.right.key ∨
        c.left.key = d.right.key ∧ c.right.key = d.left.key) → P (.comparison c) (.comparison d))
    {a b : Atom} (same : a.same b = true) : P a b := by
  cases a with
  | truth p =>
    cases b with
    | truth q =>
      have equal : p = q := by simpa [Atom.same] using same
      exact equal ▸ truth p
    | _ => cases same
  | predicate a =>
    cases b with
    | predicate b =>
      obtain ⟨name, keys, kind⟩ := same_predicate_iff.1 same
      exact predicate a b name keys kind
    | _ => cases same
  | comparison c =>
    cases b with
    | comparison d =>
      obtain ⟨relation, sides⟩ := same_comparison_iff.1 same
      exact comparison c d relation sides
    | _ => cases same

theorem same_atom_trans {a b c : Atom} (hab : a.same b = true) (hbc : b.same c = true) :
    a.same c = true := by
  revert hbc
  refine same_atom_cases (P := fun a b => b.same c = true → a.same c = true) ?truth ?predicate
    ?comparison hab
  case truth => exact fun _ h => h
  case predicate =>
    intro a b name terms kind hbc
    cases c with
    | predicate c =>
      obtain ⟨name', terms', kind'⟩ := same_predicate_iff.1 hbc
      exact same_predicate_iff.2 ⟨name.trans name', terms.trans terms', kind.trans kind'⟩
    | _ => cases hbc
  case comparison =>
    intro a b relation sides hbc
    cases c with
    | comparison c =>
      obtain ⟨relation', sides'⟩ := same_comparison_iff.1 hbc
      -- swapping the sides twice is the same as not swapping them
      refine same_comparison_iff.2 ⟨relation.trans relation', ?_⟩
      rcases sides with ⟨left, right⟩ | ⟨left, right⟩ <;> rw [left, right]
      · exact sides'
      · exact sides'.symm.imp And.symm And.symm
    | _ => cases hbc

theorem same_atom_symm {a b : Atom} (h : a.same b = true) : b.same a = true := by
  refine same_atom_cases (P := fun a b => b.same a = true) ?truth ?predicate ?comparison h
  case truth => exact fun _ => beq_self_eq_true _
  case predicate =>
    intro a b name keys kind
    exact same_predicate_iff.2 ⟨name.symm, keys.symm, kind.symm⟩
  case comparison =>
    intro c d relation sides
    refine same_comparison_iff.2 ⟨relation.symm, ?_⟩
    rcases sides with ⟨left, right⟩ | ⟨left, right⟩
    · exact .inl ⟨left.symm, right.symm⟩
    · exact .inr ⟨right.symm, left.symm⟩

theorem same_atom_comm (a b : Atom) : a.same b = b.same a :=
  Bool.eq_iff_iff.2 ⟨same_atom_symm, same_atom_symm⟩

theorem key_mem_of_same {a b : Atom} (h : a.same b = true) {k : Term.Key} :
    k ∈ a.terms.map Term.key ↔ k ∈ b.terms.map Term.key := by
  refine same_atom_cases (P := fun a b => k ∈ a.terms.map Term.key ↔ k ∈ b.terms.map Term.key)
    ?truth ?predicate ?comparison h
  case truth => exact fun _ => Iff.rfl
  case predicate =>
    intro a b _ keys _
    rw [Atom.terms, Atom.terms, keys]
  case comparison =>
    intro c d _ sides
    simp only [Atom.terms, List.map_cons, List.map_nil, List.mem_cons, List.not_mem_nil, or_false]
    rcases sides with ⟨left, right⟩ | ⟨left, right⟩
    · rw [left, right]
    · rw [left, right, or_comm]

theorem same_junction_iff {c d : Connective} {fs gs : List Formula} :
    (Formula.junction c fs).same (.junction d gs) = true ↔
      c = d ∧ List.Forall₂ (fun f g => f.same g = true) fs gs := by
  rw [same, Bool.and_eq_true, beq_iff_eq, sameAll_iff]

theorem same_quant_iff {q r : Quantifier} {xs ys : VarSet} {f g : Formula} :
    (Formula.quant q xs f).same (.quant r ys g) = true ↔
      q = r ∧ (xs == ys) = true ∧ f.same g = true := by
  rw [same, Bool.and_eq_true, Bool.and_eq_true, beq_iff_eq, and_assoc]

theorem same_refl (f : Formula) : f.same f = true := by
  induction f with
  | atom a =>
    cases a with
    | truth b => simp [same, BEq.beq, Atom.same]
    | predicate a => exact same_predicate_iff.2 ⟨rfl, rfl, rfl⟩
    | comparison c => exact same_comparison_iff.2 ⟨rfl, .inl ⟨rfl, rfl⟩⟩
  | junction c parts ih => exact same_junction_iff.2 ⟨rfl, List.forall₂_same.2 ih⟩
  | neg body ih => exact ih
  | quant q vars body ih => exact same_quant_iff.2 ⟨rfl, VarSet.beq_iff.2 rfl, ih⟩

/-- The induction over two equal formulas at once: they are built alike, from equal parts. -/
theorem same_induction {P : Formula → Formula → Prop}
    (atom : ∀ a b, Atom.same a b = true → P (.atom a) (.atom b))
    (junction : ∀ c fs gs, List.Forall₂ P fs gs → P (.junction c fs) (.junction c gs))
    (neg : ∀ f g, P f g → P (.neg f) (.neg g))
    (quant : ∀ q xs ys f g, (xs == ys) = true → P f g → P (.quant q xs f) (.quant q ys g))
    {f g : Formula} (same : f.same g = true) : P f g := by
  induction f generalizing g with
  | atom a =>
    cases g with
    | atom b => exact atom a b same
    | _ => cases same
  | junction c fs ih =>
    cases g with
    | junction d gs =>
      obtain ⟨rfl, pairs⟩ := same_junction_iff.1 same
      -- part by part: each part on the left is one that the induction is about
      have parts : List.Forall₂ (fun f g => f ∈ fs ∧ f.same g = true) fs gs :=
        (List.forall₂_and_left fs gs).2 ⟨fun _ hf => hf, pairs⟩
      exact junction c fs gs (parts.imp fun f _ part => ih f part.1 part.2)
    | _ => cases same
  | neg body ih =>
    cases g with
    | neg body' => exact neg body body' (ih same)
    | _ => cases same
  | quant q vars body ih =>
    cases g with
    | quant r vars' body' =>
      obtain ⟨rfl, bound, bodies⟩ := same_quant_iff.1 same
      exact quant q vars vars' body body' bound (ih bodies)
    | _ => cases same

theorem same_trans {f g h : Formula} (hfg : f.same g = true) (hgh : g.same h = true) :
    f.same h = true := by
  refine same_induction (P := fun f g => ∀ h : Formula, g.same h = true → f.same h = true)
    ?atom ?junction ?neg ?quant hfg h hgh
  case atom =>
    intro a b hab h hgh
    cases h with
    | atom c => exact same_atom_trans hab hgh
    | _ => cases hgh
  case junction =>
    intro c fs gs pairs h hgh
    cases h with
    | junction d hs =>
      obtain ⟨rfl, pairs'⟩ := same_junction_iff.1 hgh
      exact same_junction_iff.2 ⟨rfl, forall₂_trans (fun _ _ _ step => step _) pairs pairs'⟩
    | _ => cases hgh
  case neg =>
    intro f g step h hgh
    cases h with
    | neg h => exact step h hgh
    | _ => cases hgh
  case quant =>
    intro q xs ys f g bound step h hgh
    cases h with
    | quant r zs h =>
      obtain ⟨rfl, bound', bodies⟩ := same_quant_iff.1 hgh
      exact same_quant_iff.2 ⟨rfl, VarSet.beq_trans bound bound', step h bodies⟩
    | _ => cases hgh

theorem mem_free_iff_of_same {f g : Formula} (h : f.same g = true) {x : Ident} :
    x ∈ f.free ↔ x ∈ g.free := by
  refine same_induction (P := fun f g => x ∈ f.free ↔ x ∈ g.free) ?atom ?junction ?neg ?quant h
  case atom =>
    intro a b equal
    rw [mem_free_atom_iff_key, mem_free_atom_iff_key, key_mem_of_same equal]
  case junction =>
    intro c fs gs pairs
    rw [mem_free_junction, mem_free_junction]
    induction pairs with
    | nil => simp
    | cons head tail ih => simp only [List.mem_cons, exists_eq_or_imp, head, ih]
  case neg => exact fun _ _ body => body
  case quant =>
    intro q xs ys f g bound body
    rw [mem_free_quant, mem_free_quant, body, VarSet.mem_iff_of_beq bound]

end Formula
end QueryCalculus
