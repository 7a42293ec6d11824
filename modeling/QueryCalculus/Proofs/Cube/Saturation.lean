import QueryCalculus.Proofs.Cube.Consequence

/-!
# Saturated conjunctions

- `mem_choices`, `choices_map`, `mem_pairs` : what the combinations of lists are
- `Cube.mem_equivalentTerms` : the class of a term
- `Cube.exists_saturatePredicate_iff`, `Cube.exists_saturateInequality_iff`,
  `Cube.exists_pairs_iff` : what one atom, or one class, adds to the saturation
- `Cube.saturation_lists_implied` : the saturation lists the implied atoms

An atom is listed if the saturation has an equal one. Two predicate atoms are compared by their
predicates and terms: the saturation takes over the kinds of the atoms that it starts from.
-/

namespace QueryCalculus

/-! ## Combinations -/

section Combinations

variable {α β : Type} {lists : List (List α)} {row l : List α} {x y : α}

theorem mem_choices : row ∈ choices lists ↔ List.Forall₂ (· ∈ ·) row lists := by
  induction lists generalizing row with
  | nil => simp [choices]
  | cons xs rest ih =>
    simp only [choices, List.mem_flatMap, List.mem_map, ih]
    constructor
    · rintro ⟨x, hx, row, hrow, rfl⟩
      exact .cons hx hrow
    · rintro (_ | ⟨hx, hrow⟩)
      exact ⟨_, hx, _, hrow, rfl⟩

theorem choices_map (f : α → β) (lists : List (List α)) :
    choices (lists.map (List.map f)) = (choices lists).map (List.map f) := by
  induction lists with
  | nil => rfl
  | cons xs rest ih =>
    simp only [List.map_cons, choices, ih, List.flatMap_map, List.map_flatMap, List.map_map]
    rfl

theorem mem_pairs : (x, y) ∈ pairs l ↔ [x, y].Sublist l := by
  induction l with
  | nil => simp [pairs]
  | cons z l ih =>
    rw [List.cons_sublist_cons', List.singleton_sublist, ← ih, or_comm]
    simp [pairs, eq_comm, and_comm]

/-- Of two different elements one comes first. -/
theorem mem_pairs_or (hx : x ∈ l) (hy : y ∈ l) (differ : x ≠ y) :
    (x, y) ∈ pairs l ∨ (y, x) ∈ pairs l := by
  induction l with
  | nil => cases hx
  | cons z l ih =>
    simp only [pairs, List.mem_append, List.mem_map, Prod.mk.injEq]
    rcases List.mem_cons.1 hx with rfl | later
    · have later := (List.mem_cons.1 hy).resolve_left differ.symm
      exact .inl (.inl ⟨y, later, rfl, rfl⟩)
    rcases List.mem_cons.1 hy with rfl | hy
    · exact .inr (.inl ⟨x, later, rfl, rfl⟩)
    · exact (ih later hy).imp .inr .inr

end Combinations

/-! ## Atoms without kinds -/

/-- The atom without the kind of its predicate. -/
def Atom.eraseKind : Atom → Atom
  | .predicate a => .predicate { a with kind := .undefined }
  | a => a

theorem Atom.same_eraseKind {a b : Atom} (same : a.same b = true) :
    a.eraseKind.same b.eraseKind = true := by
  cases a with
  | predicate a =>
    cases b with
    | predicate b =>
      obtain ⟨name, keys, -⟩ := Formula.same_predicate_iff.1 same
      exact Formula.same_predicate_iff.2 ⟨name, keys, rfl⟩
    | _ => cases same
  | _ => cases b <;> exact same

theorem Atom.same_eraseKind_comparison {a : Atom} {e : Comparison} :
    a.eraseKind.same (.comparison e) = a.same (.comparison e) := by
  cases a <;> rfl

/-- Whether a conjunction has an atom that is equal up to its kind. -/
def Cube.lists (c : Cube) (a : Atom) : Bool :=
  (c.atoms.map Atom.eraseKind).contains a.eraseKind

namespace Cube

variable {c : Cube} {a : Atom} {t : Term} {k : Term.Key}

theorem mem_equivalentTerms :
    k ∈ (c.equivalentTerms t).map Term.key ↔ Joined c.classes t.key k := by
  rw [equivalentTerms, classIn]
  cases found : c.classes.find? (·.contains t) with
  | none =>
    -- a term without a class stands for itself
    have missed := List.find?_eq_none.1 found
    simp only [Option.getD_none, List.map_singleton, List.mem_singleton]
    constructor
    · rintro rfl
      exact .refl _
    · rintro (same | ⟨g, hg, ht, -⟩)
      · exact same.symm
      · exact (missed g hg (contains_iff.2 ht)).elim
  | some group =>
    have hg := List.mem_of_find?_eq_some found
    have present : group.contains t = true := by simpa using List.find?_some found
    have ht := contains_iff.1 present
    rw [Option.getD_some]
    constructor
    · exact fun hk => .inr ⟨group, hg, ht, hk⟩
    · rintro (rfl | ⟨g, hg', ht', hk⟩)
      · exact ht
      · rwa [c.separate_classes.eq_of_mem hg hg' ht ht']

/-! ## Saturated atoms -/

/-- The terms of a predicate atom are replaced in all ways by equivalent ones. -/
theorem exists_saturatePredicate_iff {own : PredicateAtom} {keys : List Term.Key} :
    (∃ b ∈ c.saturatePredicate own, keys = b.terms.map Term.key) ↔
      List.Forall₂ (Joined c.classes) (own.terms.map Term.key) keys := by
  have rows : (∃ b ∈ c.saturatePredicate own, keys = b.terms.map Term.key) ↔
      keys ∈ (choices (own.terms.map c.equivalentTerms)).map (List.map Term.key) := by
    simp [saturatePredicate, eq_comm]
  rw [rows, ← choices_map, List.map_map, mem_choices, List.forall₂_map_right_iff,
    List.forall₂_map_left_iff]
  simp only [Function.comp_apply, mem_equivalentTerms]
  exact ⟨List.Forall₂.flip, List.Forall₂.flip⟩

theorem predicate_of_mem_saturatePredicate {own b : PredicateAtom}
    (hb : b ∈ c.saturatePredicate own) : b.predicate = own.predicate := by
  obtain ⟨_, -, rfl⟩ := List.mem_map.1 hb
  rfl

theorem exists_saturateInequality_iff {i : Comparison} {k l : Term.Key} :
    (∃ j ∈ c.saturateInequality i, k = j.left.key ∧ l = j.right.key) ↔
      Joined c.classes i.left.key k ∧ Joined c.classes i.right.key l := by
  simp only [← mem_equivalentTerms, List.mem_map, saturateInequality, List.mem_flatMap]
  constructor
  · rintro ⟨_, ⟨left, hl, right, hr, rfl⟩, rfl, rfl⟩
    exact ⟨⟨left, hl, rfl⟩, right, hr, rfl⟩
  · rintro ⟨⟨left, hl, rfl⟩, right, hr, rfl⟩
    exact ⟨_, ⟨left, hl, right, hr, rfl⟩, rfl, rfl⟩

theorem relation_of_mem_saturateInequality {i j : Comparison} (hj : j ∈ c.saturateInequality i) :
    j.relation = .different := by
  simp only [saturateInequality, List.mem_flatMap, List.mem_map] at hj
  obtain ⟨_, -, _, -, rfl⟩ := hj
  rfl

/-- The pairs of terms of one class, in one order or the other. -/
theorem exists_pairs_iff {k l : Term.Key} :
    (∃ group ∈ c.classes, ∃ pair ∈ pairs group,
        k = pair.1.key ∧ l = pair.2.key ∨ k = pair.2.key ∧ l = pair.1.key) ↔
      Joined c.classes k l ∧ k ≠ l := by
  constructor
  · rintro ⟨group, hg, ⟨s, t⟩, hp, keys⟩
    have sub := mem_pairs.1 hp
    have hs : s.key ∈ group.map Term.key := List.mem_map_of_mem (sub.subset (by simp))
    have ht : t.key ∈ group.map Term.key := List.mem_map_of_mem (sub.subset (by simp))
    have differ : s.key ≠ t.key := by
      -- no term occurs twice in a class
      simpa using (c.separate_classes.nodup group hg).sublist (sub.map Term.key)
    rcases keys with ⟨rfl, rfl⟩ | ⟨rfl, rfl⟩
    · exact ⟨.inr ⟨group, hg, hs, ht⟩, differ⟩
    · exact ⟨.inr ⟨group, hg, ht, hs⟩, differ.symm⟩
  · rintro ⟨joined, differ⟩
    obtain ⟨group, hg, hk, hl⟩ := joined.resolve_left differ
    obtain ⟨s, hs, rfl⟩ := List.mem_map.1 hk
    obtain ⟨t, ht, rfl⟩ := List.mem_map.1 hl
    have terms : s ≠ t := fun same => differ (congrArg Term.key same)
    refine ⟨group, hg, ?_⟩
    rcases mem_pairs_or hs ht terms with first | first
    · exact ⟨_, first, .inl ⟨rfl, rfl⟩⟩
    · exact ⟨_, first, .inr ⟨rfl, rfl⟩⟩

/-! ## The saturation -/

/-- An atom is listed for a class, for a predicate atom or for an inequality. -/
theorem saturation_lists_iff :
    c.saturation.lists a = true ↔
      (∃ group ∈ c.classes, ∃ pair ∈ pairs group,
        a.same (.comparison ⟨.equal, pair.1, pair.2⟩) = true) ∨
      (∃ own, .predicate own ∈ c.atoms ∧ ∃ b ∈ c.saturatePredicate own,
        a.eraseKind.same (Atom.predicate b).eraseKind = true) ∨
      ∃ i ∈ c.inequalities, ∃ j ∈ c.saturateInequality i, a.same (.comparison j) = true := by
  -- of equal atoms the saturation keeps one, which is listed for the others
  have respects : ∀ b d : Atom, b.same d = true →
      (a.eraseKind.same b.eraseKind = true ↔ a.eraseKind.same d.eraseKind = true) := by
    intro b d same
    have erased := Atom.same_eraseKind same
    refine ⟨fun h => Formula.same_atom_trans h erased, fun h => Formula.same_atom_trans h ?_⟩
    rwa [Formula.same_atom_comm]
  have found : c.saturation.lists a = true ↔
      ∃ b ∈ c.saturation.atoms, a.eraseKind.same b.eraseKind = true := by
    rw [lists, List.contains_iff_exists_mem_beq]
    simp only [List.mem_map, exists_exists_and_eq_and]
    exact Iff.rfl
  rw [found, saturation, exists_ofAtoms_iff respects]
  simp only [List.mem_append, List.mem_flatMap, List.mem_map, or_and_right, exists_or, or_assoc,
    mem_predicates]
  refine or_congr ?_ (or_congr ?_ ?_)
  · constructor
    · rintro ⟨_, ⟨group, hg, pair, hp, rfl⟩, same⟩
      exact ⟨group, hg, pair, hp, Atom.same_eraseKind_comparison.symm.trans same⟩
    · rintro ⟨group, hg, pair, hp, same⟩
      exact ⟨_, ⟨group, hg, pair, hp, rfl⟩, Atom.same_eraseKind_comparison.trans same⟩
  · constructor
    · rintro ⟨_, ⟨b, ⟨own, present, hb⟩, rfl⟩, same⟩
      exact ⟨own, present, b, hb, same⟩
    · rintro ⟨own, present, b, hb, same⟩
      exact ⟨_, ⟨b, ⟨own, present, hb⟩, rfl⟩, same⟩
  · constructor
    · rintro ⟨_, ⟨j, ⟨i, hi, hj⟩, rfl⟩, same⟩
      exact ⟨i, hi, j, hj, Atom.same_eraseKind_comparison.symm.trans same⟩
    · rintro ⟨i, hi, j, hj, same⟩
      exact ⟨_, ⟨j, ⟨i, hi, hj⟩, rfl⟩, Atom.same_eraseKind_comparison.trans same⟩

theorem saturation_lists_predicate_iff {a : PredicateAtom} :
    c.saturation.lists (.predicate a) = true ↔ c.entails (.predicate a) = true := by
  rw [saturation_lists_iff, entails_predicate_iff]
  simp only [← exists_saturatePredicate_iff]
  constructor
  · rintro (⟨_, _, _, _, same⟩ | ⟨own, present, b, hb, same⟩ | ⟨_, _, _, _, same⟩)
    · cases same
    · obtain ⟨name, keys, -⟩ := Formula.same_predicate_iff.1 same
      have taken := predicate_of_mem_saturatePredicate hb
      exact ⟨own, present, taken.symm.trans (Eq.symm name), b, hb, keys⟩
    · cases same
  · rintro ⟨own, present, name, b, hb, keys⟩
    have taken := predicate_of_mem_saturatePredicate hb
    refine .inr (.inl ⟨own, present, b, hb, Formula.same_predicate_iff.2 ⟨?_, keys, rfl⟩⟩)
    exact name.symm.trans taken.symm

theorem saturation_lists_equal_iff {s t : Term} :
    c.saturation.lists (.comparison ⟨.equal, s, t⟩) = true ↔
      Joined c.classes s.key t.key ∧ s.key ≠ t.key := by
  rw [saturation_lists_iff, ← exists_pairs_iff]
  simp only [Formula.same_comparison_iff, true_and]
  constructor
  · rintro (listed | ⟨_, _, _, _, same⟩ | ⟨_, _, j, hj, same, -⟩)
    · exact listed
    · cases same
    · rw [relation_of_mem_saturateInequality hj] at same
      cases same
  · exact .inl

theorem saturation_lists_different_iff {s t : Term} :
    c.saturation.lists (.comparison ⟨.different, s, t⟩) = true ↔ c.Opposed s.key t.key := by
  rw [saturation_lists_iff]
  simp only [Formula.same_comparison_iff, Opposed, ← exists_saturateInequality_iff]
  constructor
  · rintro (⟨_, _, _, _, same, -⟩ | ⟨_, _, _, _, same⟩ | ⟨i, hi, j, hj, -, sides⟩)
    · cases same
    · cases same
    · rcases sides with ⟨left, right⟩ | ⟨left, right⟩
      · exact ⟨i, hi, .inl ⟨j, hj, left, right⟩⟩
      · exact ⟨i, hi, .inr ⟨j, hj, right, left⟩⟩
  · rintro ⟨i, hi, ⟨j, hj, left, right⟩ | ⟨j, hj, left, right⟩⟩
    · exact .inr (.inr ⟨i, hi, j, hj, (relation_of_mem_saturateInequality hj).symm,
        .inl ⟨left, right⟩⟩)
    · exact .inr (.inr ⟨i, hi, j, hj, (relation_of_mem_saturateInequality hj).symm,
        .inr ⟨right, left⟩⟩)

/-- The saturation lists just the implied atoms, save for those that are true anyway. -/
theorem saturation_lists_iff_entails :
    c.saturation.lists a = true ↔ c.entails a = true ∧ a.isTautology = false := by
  cases a with
  | truth b =>
    rw [saturation_lists_iff]
    -- truth values are not listed: they are true anyway, or they are not implied
    refine iff_of_false ?_ ?_
    · rintro (⟨_, _, _, _, same⟩ | ⟨_, _, _, _, same⟩ | ⟨_, _, _, _, same⟩) <;> cases same
    · cases b <;> simp [entails, Atom.isTautology]
  | predicate a =>
    rw [saturation_lists_predicate_iff]
    exact (and_iff_left rfl).symm
  | comparison e =>
    obtain ⟨relation, s, t⟩ := e
    cases relation with
    | equal =>
      rw [saturation_lists_equal_iff, entails_equal_iff]
      have test : (Atom.comparison ⟨.equal, s, t⟩).isTautology = (s == t) := rfl
      rw [test, ← Bool.not_eq_true, Term.beq_iff]
    | different =>
      rw [saturation_lists_different_iff, entails_different_iff]
      exact (and_iff_left rfl).symm

/-- The saturation of a conjunction that is no contradiction lists just the implied atoms, save for
the tautologies: all predicate atoms, all inequalities and all equalities of different terms. -/
theorem saturation_lists_implied (c : Cube) (consistent : c.isContradiction = false) (a : Atom) :
    c.saturation.lists a = true ↔ c.impliesAtom a = true ∧ a.isTautology = false := by
  rw [saturation_lists_iff_entails, impliesAtom, consistent, Bool.false_or]

/-- The role `R(x, y)` with `x = z` and `y != z`. -/
def linkedRole : Cube :=
  ofAtoms [.predicate ⟨"R", [.var ⟨⟨"x", none⟩, .object⟩, .var ⟨⟨"y", none⟩, .object⟩], .role⟩,
    .comparison ⟨.equal, .var ⟨⟨"x", none⟩, .undefined⟩, .var ⟨⟨"z", none⟩, .undefined⟩⟩,
    .comparison ⟨.different, .var ⟨⟨"y", none⟩, .undefined⟩, .var ⟨⟨"z", none⟩, .undefined⟩⟩]

theorem linkedRole_lists :
    linkedRole.isContradiction = false ∧
    linkedRole.saturation.lists
      (.predicate ⟨"R", [.var ⟨⟨"z", none⟩, .undefined⟩, .var ⟨⟨"y", none⟩, .undefined⟩],
        .undefined⟩) = true ∧
    linkedRole.saturation.lists
      (.comparison ⟨.different, .var ⟨⟨"x", none⟩, .undefined⟩, .var ⟨⟨"y", none⟩, .undefined⟩⟩) =
        true ∧
    linkedRole.impliesAtom
      (.comparison ⟨.equal, .var ⟨⟨"x", none⟩, .undefined⟩, .var ⟨⟨"y", none⟩, .undefined⟩⟩) =
        false := by
  have listed := linkedRole.saturation_lists_implied (by decide)
  refine ⟨by decide, (listed _).2 (by decide), (listed _).2 (by decide), by decide⟩

end Cube
end QueryCalculus
