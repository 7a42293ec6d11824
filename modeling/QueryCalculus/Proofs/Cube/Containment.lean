import QueryCalculus.Proofs.Cube.Saturation
import QueryCalculus.Proofs.Substitution

/-!
# Instances of conjunctions

- `Cube.Mentions` : the keys of the terms of a conjunction
- `Cube.Open` : the variables of the predicate atoms of one conjunction that another one does not
  mention
- `Cube.Assigns` : the substitutions of the open variables by terms of the other conjunction
- `Cube.exists_choice_iff` : the search visits all of them, up to equality of terms
- `Cube.Holds.of_instance` : an instance that is implied gives values for the open variables
- `Cube.impliesSome_iff_assignment` : what is found, and what follows from it
-/

namespace QueryCalculus

universe u

variable {D : Type u} {M : Interpretation D} {v : Valuation D}

namespace Cube

variable {c d : Cube} {k : Term.Key} {σ τ : Substitution}

/-! ## Terms and open variables -/

/-- A term of this key occurs in the conjunction. -/
def Mentions (c : Cube) (k : Term.Key) : Prop :=
  ∃ a ∈ c.atoms, k ∈ a.terms.map Term.key

theorem mem_terms : k ∈ c.terms.map Term.key ↔ c.Mentions k := by
  rw [terms, Mentions, List.mem_map]
  constructor
  · rintro ⟨t, ht, rfl⟩
    obtain ⟨a, ha, occurs⟩ := List.mem_flatMap.1 ((Formula.eraseDups_sublist _).subset ht)
    exact ⟨a, ha, List.mem_map_of_mem occurs⟩
  · rintro ⟨a, ha, hk⟩
    obtain ⟨t, occurs, rfl⟩ := List.mem_map.1 hk
    -- of equal terms only the first one is listed
    obtain ⟨s, hs, same⟩ := Formula.exists_mem_eraseDups (List.mem_flatMap.2 ⟨a, ha, occurs⟩)
    exact ⟨s, hs, same.elim (fun e => e ▸ rfl) fun e => (Term.beq_iff.1 e).symm⟩

/-- A variable of the predicate atoms of `d` that `c` does not mention. -/
def Open (c d : Cube) (x : Ident) : Prop :=
  (∃ a, .predicate a ∈ d.atoms ∧ .var x ∈ a.terms.map Term.key) ∧ ¬ c.Mentions (.var x)

theorem mem_openVariables {x : Ident} :
    (∃ y ∈ c.openVariables d, y.toIdent = x) ↔ c.Open d x := by
  have listed : ∀ y : Variable,
      y ∈ (d.predicates.flatMap PredicateAtom.vars).filter (fun y => !c.terms.contains (.var y)) ↔
        (∃ a, .predicate a ∈ d.atoms ∧ .var y ∈ a.terms) ∧ ¬ c.Mentions (.var y.toIdent) := by
    intro y
    rw [List.mem_filter, List.mem_flatMap, ← mem_terms, Bool.not_eq_true', ← Bool.not_eq_true,
      contains_iff]
    simp only [mem_predicates, PredicateAtom.vars, mem_variablesOf, Term.key]
  constructor
  · rintro ⟨y, hy, rfl⟩
    obtain ⟨⟨a, ha, occurs⟩, absent⟩ := (listed y).1 ((Formula.eraseDups_sublist _).subset hy)
    exact ⟨⟨a, ha, List.mem_map_of_mem occurs⟩, absent⟩
  · rintro ⟨⟨a, ha, hx⟩, absent⟩
    obtain ⟨t, occurs, key⟩ := List.mem_map.1 hx
    obtain ⟨y, rfl, rfl⟩ := Term.exists_var_of_key key
    obtain ⟨z, hz, same⟩ :=
      Formula.exists_mem_eraseDups ((listed y).2 ⟨⟨a, ha, occurs⟩, absent⟩)
    exact ⟨z, hz, same.elim (fun e => e ▸ rfl) fun e => (Variable.beq_iff.1 e).symm⟩

/-- The substitution replaces the open variables, and no others, by terms of `c`. -/
structure Assigns (c d : Cube) (σ : Substitution) : Prop where
  domain : ∀ x, σ.find? x ≠ none ↔ c.Open d x.toIdent
  range : ∀ x t, σ.find? x = some t → c.Mentions t.key

/-! ## Instances -/

theorem implies_substitute_iff :
    c.implies (d.substitute σ) = true ↔
      ∀ a ∈ d.atoms, c.impliesAtom (a.mapTerms σ.apply) = true := by
  have respects : ∀ a b : Atom, a.same b = true →
      (c.impliesAtom a = true ↔ c.impliesAtom b = true) := fun a b same =>
    ⟨impliesAtom_of_same same, impliesAtom_of_same (Formula.same_atom_comm a b ▸ same)⟩
  rw [implies_iff, substitute, forall_ofAtoms_iff respects, List.forall_mem_map]

theorem implies_substitute_congr (keys : ∀ t, (σ.apply t).key = (τ.apply t).key)
    (implied : c.implies (d.substitute σ) = true) : c.implies (d.substitute τ) = true := by
  rw [implies_substitute_iff] at implied ⊢
  exact fun a ha => impliesAtom_of_same (Atom.same_mapTerms fun t _ => keys t) (implied a ha)

/-- The open variables may take the values of the terms that replace them. -/
theorem Holds.of_instance (holds : c.Holds M v) (names : M.UniqueNames)
    (implied : c.implies (d.substitute σ) = true) : d.Holds M (σ.valuation M v) := by
  intro a ha
  have instance_true : (a.mapTerms σ.apply).Holds M v :=
    holds.of_impliesAtom names (implies_substitute_iff.1 implied a ha)
  exact Substitution.holds_mapTerms_apply_iff.1 instance_true

/-! ## The search -/

theorem mem_choices_terms {vars : List Variable} {chosen : List Term} :
    chosen ∈ choices (vars.map fun _ => c.terms) ↔
      List.Forall₂ (fun _ t => t ∈ c.terms) vars chosen := by
  rw [mem_choices, List.forall₂_map_right_iff]
  exact ⟨List.Forall₂.flip, List.Forall₂.flip⟩

/-- A list of terms, one for each open variable, is an assignment. -/
theorem assigns_zip {chosen : List Term}
    (listed : chosen ∈ choices ((c.openVariables d).map fun _ => c.terms)) :
    c.Assigns d ((c.openVariables d).zip chosen) := by
  have terms := mem_choices_terms.1 listed
  constructor
  · intro x
    rw [← mem_openVariables, ne_eq, Substitution.find?_eq_none_iff]
    push Not
    constructor
    · rintro ⟨entry, he, same⟩
      exact ⟨entry.1, (List.of_mem_zip he).1, same⟩
    · rintro ⟨y, hy, same⟩
      -- there are as many terms as variables
      rw [← List.map_fst_zip terms.length_eq.le] at hy
      obtain ⟨entry, he, rfl⟩ := List.mem_map.1 hy
      exact ⟨entry, he, same⟩
  · intro x t found
    obtain ⟨y, hy, -⟩ := Substitution.mem_of_find? found
    exact mem_terms.1 (List.mem_map_of_mem ((List.forall₂_iff_zip.1 terms).2 hy))

/-- Every assignment is one of the listed ones, up to the annotations of its terms. -/
theorem Assigns.exists_chosen (assigns : c.Assigns d σ) :
    ∃ chosen ∈ choices ((c.openVariables d).map fun _ => c.terms),
      ∀ t, (σ.apply t).key = (Substitution.apply ((c.openVariables d).zip chosen) t).key := by
  -- the assignment may use a term of `c` with other annotations than the listed one
  have pick : ∀ y ∈ c.openVariables d, ∃ t ∈ c.terms, t.key = (σ.apply (.var y)).key := by
    intro y hy
    obtain ⟨t, found⟩ := Option.ne_none_iff_exists'.1
      ((assigns.domain y).2 (mem_openVariables.1 ⟨y, hy, rfl⟩))
    rw [Substitution.apply_var_of_some found, ← List.mem_map, mem_terms]
    exact assigns.range y t found
  obtain ⟨chosen, each⟩ := exists_forall₂_iff.2 pick
  have listed := mem_choices_terms.2 (each.imp fun _ _ h => h.1)
  refine ⟨chosen, listed, fun t => ?_⟩
  cases t with
  | const p => rfl
  | var x =>
    cases found : Substitution.find? ((c.openVariables d).zip chosen) x with
    | none =>
      -- neither of the two substitutions replaces the variable
      have kept : σ.find? x = none := by
        by_contra replaced
        exact ((assigns_zip listed).domain x).2 ((assigns.domain x).1 replaced) found
      rw [Substitution.apply_var_of_none found, Substitution.apply_var_of_none kept]
    | some t =>
      -- the listed variable is the same one, perhaps with another type
      obtain ⟨y, hy, same⟩ := Substitution.mem_of_find? found
      have key := ((List.forall₂_iff_zip.1 each).2 hy).2
      rw [Substitution.apply_var_of_some found, key]
      exact Substitution.key_apply_congr (congrArg Term.Key.var same.symm)

/-- The search visits all assignments. -/
theorem exists_choice_iff :
    (∃ chosen ∈ choices ((c.openVariables d).map fun _ => c.terms),
        c.implies (d.substitute ((c.openVariables d).zip chosen)) = true) ↔
      ∃ σ, c.Assigns d σ ∧ c.implies (d.substitute σ) = true := by
  constructor
  · rintro ⟨chosen, listed, implied⟩
    exact ⟨_, assigns_zip listed, implied⟩
  · rintro ⟨σ, assigns, implied⟩
    obtain ⟨chosen, listed, keys⟩ := assigns.exists_chosen
    exact ⟨chosen, listed, implies_substitute_congr keys implied⟩

/-- A tautology has no open variables, and is implied as it stands. -/
theorem exists_assigns_of_isTautology (valid : d.isTautology = true) :
    ∃ σ, c.Assigns d σ ∧ c.implies (d.substitute σ) = true := by
  have trivial : ∀ a ∈ d.atoms, a.isTautology = true := List.all_eq_true.1 valid
  -- nothing has to be replaced: no predicate atom is a tautology
  refine ⟨[], ⟨fun x => iff_of_false (fun h => h rfl) ?_, fun x t found => by cases found⟩, ?_⟩
  · rintro ⟨⟨a, ha, -⟩, -⟩
    cases trivial _ ha
  · rw [implies_substitute_iff, Substitution.apply_nil]
    intro a ha
    rw [Atom.mapTerms_id]
    exact impliesAtom_iff.2 (.inr (entails_of_isTautology (trivial a ha)))

theorem impliesSome_iff :
    c.impliesSome d = true ↔
      c.isContradiction = true ∨ ∃ σ, c.Assigns d σ ∧ c.implies (d.substitute σ) = true := by
  rw [impliesSome]
  split
  · next early =>
    -- a tautology is accepted without a search, but the search would find it
    rw [Bool.or_eq_true] at early
    exact iff_of_true rfl (early.imp_right exists_assigns_of_isTautology)
  · next late =>
    rw [Bool.or_eq_true, not_or] at late
    rw [List.any_eq_true, or_iff_right late.1, exists_choice_iff]

/-- The search finds an instance if there is one: a conjunction implies another one under some
substitution just if it is a contradiction, or implies the other one with its open variables
replaced by own terms. Wherever it is true, the open variables then have values that make the other
one true. -/
theorem impliesSome_iff_assignment (c d : Cube) :
    (c.impliesSome d = true ↔
      c.isContradiction = true ∨ ∃ σ, c.Assigns d σ ∧ c.implies (d.substitute σ) = true) ∧
    (c.impliesSome d = true →
      ∀ (D : Type u) (M : Interpretation D) (v : Valuation D), M.UniqueNames → c.Holds M v →
        ∃ w : Valuation D, (∀ x, ¬ c.Open d x → w x = v x) ∧ d.Holds M w) := by
  refine ⟨impliesSome_iff, fun found D M v names holds => ?_⟩
  have consistent := isContradiction_eq_false names holds
  obtain ⟨σ, assigns, implied⟩ := (impliesSome_iff.1 found).resolve_left (by simp [consistent])
  refine ⟨σ.valuation M v, fun x closed => ?_, holds.of_instance names implied⟩
  have kept : σ.find? { x with type := .undefined } = none := by
    by_contra replaced
    exact closed ((assigns.domain _).1 replaced)
  exact Substitution.valuation_of_none kept

/-- `R(z, z)` -/
def loop : Cube :=
  ofAtoms [
    .predicate ⟨"R", [.var ⟨⟨"z", none⟩, .undefined⟩, .var ⟨⟨"z", none⟩, .undefined⟩], .role⟩]

/-- `R(x, y), R(y, z)` -/
def path : Cube :=
  ofAtoms [
    .predicate ⟨"R", [.var ⟨⟨"x", none⟩, .undefined⟩, .var ⟨⟨"y", none⟩, .undefined⟩], .role⟩,
    .predicate ⟨"R", [.var ⟨⟨"y", none⟩, .undefined⟩, .var ⟨⟨"z", none⟩, .undefined⟩], .role⟩]

/-- A loop is a path that ends where the loop is, but not the other way round. -/
theorem loop_contained_in_path :
    loop.impliesSome path = true ∧ path.impliesSome loop = false ∧
    ∀ (D : Type) (M : Interpretation D) (v : Valuation D), M.UniqueNames → loop.Holds M v →
      ∃ w : Valuation D, w ⟨"z", none⟩ = v ⟨"z", none⟩ ∧ path.Holds M w := by
  have found : loop.impliesSome path = true := by decide
  refine ⟨found, by decide, fun D M v names holds => ?_⟩
  obtain ⟨w, kept, holds⟩ := (loop.impliesSome_iff_assignment path).2 found D M v names holds
  have mentioned : loop.Mentions (.var ⟨"z", none⟩) := mem_terms.1 (by decide)
  exact ⟨w, kept _ fun free => free.2 mentioned, holds⟩

end Cube
end QueryCalculus
