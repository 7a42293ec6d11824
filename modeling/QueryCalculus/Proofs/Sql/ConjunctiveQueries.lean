import QueryCalculus.Proofs.Failures
import QueryCalculus.Proofs.Sql.Words

/-!
# Conjunctive queries

- `Formula.Conjunction`, `Formula.Conjunctive` : conjunctions of atoms, and those with existential
  quantifiers in front
- `Task.missing_isEmpty` : the joined parts of a conjunction of atoms have all that is wanted of
  them
- `compile_conjunctive_iff` : which conjunctive queries have a statement
-/

namespace QueryCalculus
namespace Formula

variable {f body : Formula} {parts : List Formula} {c : Connective} {q : Quantifier} {vars : VarSet}

/-! ## Formulas without universal quantifiers -/

theorem eliminateForAll_eq_self (existential : f.Existential) : f.eliminateForAll = f := by
  induction f with
  | atom a => rfl
  | junction c parts ih =>
    have kept : parts.map eliminateForAll = parts :=
      map_eq_self_iff.2 fun f hf => ih f hf (existential_junction.1 existential f hf)
    rw [eliminateForAll, eliminateForAllEach_eq_map, kept]
  | neg body ih => rw [eliminateForAll, ih (existential_neg.1 existential)]
  | quant q vars body ih =>
    rcases existential_quant.1 existential with ⟨rfl, inside⟩
    rw [eliminateForAll, ih inside]

theorem atoms_prepared (existential : f.Existential) : f.prepared.atoms = f.atoms := by
  rw [prepared, eliminateForAll_eq_self existential, rewriting_atoms.unwrap,
    rewriting_atoms.flatten]

theorem mem_free_prepared_iff (existential : f.Existential) {x : Ident} :
    x ∈ f.prepared.free ↔ x ∈ f.free := by
  rw [prepared, eliminateForAll_eq_self existential, mem_free_unwrap, mem_free_flatten]

/-! ## Conjunctive formulas -/

/-- Conjunctions of atoms, which may stand inside of each other. -/
inductive Conjunction : Formula → Prop
  | atom (a : Atom) : Conjunction (.atom a)
  | and {parts : List Formula} : (∀ f ∈ parts, Conjunction f) → Conjunction (.junction .and parts)

/-- Conjunctions of atoms with any existential quantifiers in front of them. -/
inductive Conjunctive : Formula → Prop
  | body {f : Formula} : Conjunction f → Conjunctive f
  | exist {vars : VarSet} {f : Formula} : Conjunctive f → Conjunctive (.quant .exist vars f)

theorem conjunction_junction :
    (junction c parts).Conjunction ↔ c = .and ∧ ∀ f ∈ parts, f.Conjunction := by
  constructor
  · rintro (_ | each)
    exact ⟨rfl, each⟩
  · rintro ⟨rfl, each⟩
    exact .and each

theorem conjunctive_junction :
    (junction c parts).Conjunctive ↔ (junction c parts).Conjunction := by
  constructor
  · rintro (conjunction | _)
    exact conjunction
  · exact .body

theorem conjunctive_quant : (quant q vars body).Conjunctive ↔ q = .exist ∧ body.Conjunctive := by
  constructor
  · rintro (⟨⟨⟩⟩ | inside)
    exact ⟨rfl, inside⟩
  · rintro ⟨rfl, inside⟩
    exact .exist inside

theorem not_conjunctive_neg : ¬ (neg body).Conjunctive := by
  rintro (⟨⟨⟩⟩ | _)

theorem Conjunction.existential (conjunction : f.Conjunction) : f.Existential := by
  induction conjunction with
  | atom a => exact existential_atom a
  | and _ ih => exact existential_junction.2 ih

theorem Conjunctive.existential (conjunctive : f.Conjunctive) : f.Existential := by
  induction conjunctive with
  | body conjunction => exact conjunction.existential
  | exist _ ih => exact existential_quant.2 ⟨rfl, ih⟩

theorem conjunction_splice (each : ∀ f ∈ parts, f.Conjunction) (hf : f ∈ splice .and parts) :
    f.Conjunction := by
  refine (forall_mem_splice_iff fun fs => ?_).2 each f hf
  rw [conjunction_junction, and_iff_right rfl]

/-- Flattening keeps conjunctions of atoms, and quantifiers stay in front of them. -/
theorem rewriting_conjunctive : Rewriting fun f g =>
    (f.Conjunction → g.Conjunction) ∧ (f.Conjunctive → g.Conjunctive) where
  refl f := ⟨id, id⟩
  trans hfg hgh := ⟨hgh.1 ∘ hfg.1, hgh.2 ∘ hfg.2⟩
  junction := by
    intro c fs gs each
    -- inside of a junction there is no quantifier, so that only conjunctions count
    have inside : (junction c fs).Conjunction → (junction c gs).Conjunction := by
      intro conjunction
      rcases conjunction_junction.1 conjunction with ⟨rfl, parts⟩
      refine .and fun g hg => ?_
      rcases forall₂_exists_left each hg with ⟨f, hf, step⟩
      exact step.1 (parts f hf)
    exact ⟨inside, fun h => .body (inside (conjunctive_junction.1 h))⟩
  neg _ := ⟨nofun, fun h => absurd h not_conjunctive_neg⟩
  quant step := ⟨nofun, fun h => conjunctive_quant.2 ((conjunctive_quant.1 h).imp_right step.2)⟩
  negNeg f := ⟨nofun, fun h => absurd h not_conjunctive_neg⟩
  single c f := by
    have inside : (junction c [f]).Conjunction → f.Conjunction :=
      fun h => (conjunction_junction.1 h).2 f List.mem_cons_self
    exact ⟨inside, fun h => .body (inside (conjunctive_junction.1 h))⟩
  vacuous q vars f _ := ⟨nofun, fun h => (conjunctive_quant.1 h).2⟩
  nested := by
    intro c parts
    have inside : (junction c parts).Conjunction → (junction c (splice c parts)).Conjunction := by
      intro conjunction
      rcases conjunction_junction.1 conjunction with ⟨rfl, each⟩
      exact .and fun f hf => conjunction_splice each hf
    exact ⟨inside, fun h => .body (inside (conjunctive_junction.1 h))⟩
  repeated q vars inner f := by
    refine ⟨nofun, fun h => ?_⟩
    rcases conjunctive_quant.1 h with ⟨outer, nested⟩
    exact conjunctive_quant.2 ⟨outer, (conjunctive_quant.1 nested).2⟩

theorem conjunctive_prepared (conjunctive : f.Conjunctive) : f.prepared.Conjunctive := by
  rw [prepared, eliminateForAll_eq_self conjunctive.existential]
  exact (rewriting_conjunctive.unwrap _).2 ((rewriting_conjunctive.flatten f).2 conjunctive)

theorem Conjunction.mem_selectable {a : PredicateAtom} {x : Ident} (conjunction : f.Conjunction)
    (ha : Atom.predicate a ∈ f.atoms) (hx : x ∈ (predicate a).free) : x ∈ f.selectable := by
  induction conjunction with
  | atom b =>
    cases List.mem_singleton.1 ha
    exact mem_selectable_predicate.2 hx
  | and each ih =>
    rcases mem_atoms_junction.1 ha with ⟨f, hf, ha⟩
    exact mem_selectable_and.2 ⟨f, hf, ih f hf ha⟩

/-- The free variables of the predicate atoms can be selected. -/
theorem Conjunctive.mem_selectable {a : PredicateAtom} {x : Ident} (conjunctive : f.Conjunctive)
    (ha : Atom.predicate a ∈ f.atoms) (hx : x ∈ (predicate a).free) (free : x ∈ f.free) :
    x ∈ f.selectable := by
  induction conjunctive with
  | body conjunction => exact conjunction.mem_selectable ha hx
  | exist _ ih =>
    rcases mem_free_quant.1 free with ⟨inside, unbound⟩
    exact mem_selectable_quant.2 ⟨ih ha inside, unbound⟩

/-- The parts of a flat conjunction of atoms are atoms. -/
theorem exists_atom_of_flat (flat : (junction c parts).FlatAt)
    (conjunction : (junction c parts).Conjunction) (hf : f ∈ parts) : ∃ a, f = .atom a := by
  rcases conjunction_junction.1 conjunction with ⟨rfl, each⟩
  cases each f hf with
  | atom a => exact ⟨a, rfl⟩
  | and inside => exact absurd rfl (flat.2 _ hf)

end Formula

namespace Sql

/-! ## Tasks for conjunctive formulas -/

namespace Task

variable {t : Task} {f : Formula} {parts : List Formula}

theorem conjunctive_subtask {next : Task × Formula} (h : next ∈ t.subtasks f)
    (conjunctive : f.Conjunctive) : next.2.Conjunctive := by
  have part : ∀ {c : Connective} {parts : List Formula} {f : Formula}, f ∈ parts →
      (Formula.junction c parts).Conjunctive → f.Conjunctive := fun hf h =>
    .body ((Formula.conjunction_junction.1 (Formula.conjunctive_junction.1 h)).2 _ hf)
  revert conjunctive
  refine subtasks_cases (P := fun _ f _ f' => f.Conjunctive → f'.Conjunctive) ?single ?join
    ?condition ?alternative ?negNeg ?neg ?exist h
  case single => exact fun t c f => part (List.mem_singleton_self f)
  case join => exact fun t parts f n several hf => part (mem_of_joined hf)
  case condition => exact fun t parts f n several hf => part (mem_of_conditional hf)
  case alternative => exact fun t parts f n several hf => part (List.fst_mem_of_mem_zipIdx hf)
  case negNeg => exact fun t body h => absurd h Formula.not_conjunctive_neg
  case neg => exact fun t body _ _ h => absurd h Formula.not_conjunctive_neg
  case exist => exact fun t vars body h => (Formula.conjunctive_quant.1 h).2

/-- Only predicate atoms are equal to a predicate atom. -/
theorem exists_predicate_of_same {a : PredicateAtom} {g : Formula}
    (same : Formula.predicate a = g ∨ (Formula.predicate a).same g = true) :
    ∃ b, g = .predicate b := by
  rcases same with rfl | same
  · exact ⟨a, rfl⟩
  · cases g with
    | atom b =>
      cases b with
      | predicate b => exact ⟨b, rfl⟩
      | truth b => cases same
      | comparison c => cases same
    | junction c parts => cases same
    | neg body => cases same
    | quant q vars body => cases same

/-- A predicate atom that has a wanted variable is joined, since it can select all its variables. -/
theorem mem_joined_of_predicate {a : PredicateAtom} {n : Nat} {x : Ident}
    (role : (.predicate a, n) ∈ t.joined parts ∨ (.predicate a, n) ∈ t.conditional parts)
    (free : x ∈ (Formula.predicate a).free) (wanted : x ∈ t.wanted parts) :
    (.predicate a, n) ∈ t.joined parts := by
  refine role.resolve_right fun conditional => ?_
  have join : roleOf (t.wanted parts) (.predicate a) = .join :=
    roleOf_eq_join_iff.2 ⟨⟨x, free, wanted⟩, fun _ hy _ => Formula.mem_selectable_predicate.2 hy⟩
  rw [role_of_conditional conditional] at join
  cases join

/-- The joined parts of a conjunction of atoms have all that is wanted of them. -/
theorem missing_isEmpty (fits : t.Fits (.junction .and parts))
    (atoms : ∀ f ∈ parts, ∃ a, f = .atom a) : (t.missing parts).isEmpty = true := by
  refine VarSet.isEmpty_iff.2 fun x hx => ?_
  simp only [missing, VarSet.mem_diff, VarSet.mem_ofList, List.mem_flatMap] at hx
  rcases hx with ⟨wanted, unjoined⟩
  -- what is wanted can be selected from some part, which is then a predicate atom
  have selectable : x ∈ (Formula.junction .and parts).selectable := by
    rcases mem_wanted (x := ⟨x, .undefined⟩).1 wanted with requested | ⟨⟨-, selectable⟩, -⟩
    · exact fits x requested
    · exact selectable
  rcases Formula.mem_selectable_and.1 selectable with ⟨f, hf, hx⟩
  rcases atoms f hf with ⟨a, rfl⟩
  cases a with
  | truth b => exact Formula.not_mem_selectable_truth hx
  | comparison c => exact Formula.not_mem_selectable_comparison hx
  | predicate a =>
    -- the atom may repeat an earlier one, which has the same variables
    rcases exists_same (t := t) hf with ⟨⟨g, n⟩, role, same⟩
    rcases exists_predicate_of_same same with ⟨b, rfl⟩
    have free : x ∈ (Formula.predicate b).free := by
      rcases same with same | same
      · cases same
        exact hx
      · exact (Formula.mem_free_iff_of_same same).1 hx
    rcases VarSet.mem_iff.1 free with ⟨y, hy, rfl⟩
    exact unjoined ⟨y, ⟨_, mem_joined_of_predicate role free wanted, hy⟩, rfl⟩

/-- Every predicate atom of a flat conjunctive formula comes up, or an equal one does. -/
theorem exists_reached_of_predicate {a : PredicateAtom} (flat : f.Flat)
    (conjunctive : f.Conjunctive) (ha : Atom.predicate a ∈ f.atoms) :
    ∃ t' b, Reaches (t, f) (t', .predicate b) ∧
      (Formula.predicate a = .predicate b ∨
        (Formula.predicate a).same (.predicate b) = true) := by
  induction conjunctive generalizing t with
  | @exist vars f inside ih =>
    rcases ih (t := t.within vars) (Formula.flat_quant.1 flat).2 ha with ⟨t', b, reached, same⟩
    exact ⟨t', b, .head (by simp [subtasks]) reached, same⟩
  | body conjunction =>
    cases conjunction with
    | atom b =>
      cases List.mem_singleton.1 ha
      exact ⟨t, a, .refl, .inl rfl⟩
    | @and parts each =>
      rcases Formula.mem_atoms_junction.1 ha with ⟨f, hf, ha⟩
      rcases Formula.exists_atom_of_flat flat.root (.and each) hf with ⟨b, rfl⟩
      cases List.mem_singleton.1 ha
      -- a flat conjunction with a part has at least two of them
      have several : 1 < parts.length := by
        have some := List.length_pos_of_mem hf
        have root := flat.root.1
        omega
      rcases exists_same (t := t) hf with ⟨⟨g, n⟩, role, same⟩
      rcases exists_predicate_of_same same with ⟨b, rfl⟩
      rcases role with joined | conditional
      · exact ⟨_, b, .single (mem_subtasks_joined several joined), same⟩
      · exact ⟨_, b, .single (mem_subtasks_conditional several conditional), same⟩

end Task

/-! ## Statements for conjunctive queries -/

/-- The only errors that come up for a flat conjunctive formula are about the tables of its
predicates. -/
theorem raises_predicate {ctx : Context} {t : Task} {f : Formula} {goal : Task × Formula}
    {err : Error} (flat : f.Flat) (conjunctive : f.Conjunctive) (fits : t.Fits f)
    (reached : Task.Reaches (t, f) goal) (raised : ctx.Raises goal.1 goal.2 err) :
    ∃ a, Atom.predicate a ∈ f.atoms ∧ ctx.Raises goal.1 (.predicate a) err := by
  have inside : goal.1.Fits goal.2 ∧ goal.2.Conjunctive ∧ goal.2.atoms ⊆ f.atoms :=
    Task.of_reaches
      (P := fun task => task.1.Fits task.2 ∧ task.2.Conjunctive ∧ task.2.atoms ⊆ f.atoms)
      (fun task h next hnext => ⟨h.1.subtask hnext, Task.conjunctive_subtask hnext h.2.1,
        List.Subset.trans (atoms_subtask_subset hnext) h.2.2⟩)
      reached ⟨fits, conjunctive, List.Subset.refl _⟩
  have root : goal.2.FlatAt := flat goal.2 (Task.mem_nodes_of_reaches reached)
  rcases goal with ⟨t', g⟩
  simp only at raised inside root
  rcases inside with ⟨fits, conjunctive, atoms⟩
  cases raised with
  | @noTable a missing => exact ⟨a, atoms (List.mem_singleton_self _), .noTable missing⟩
  | @arity a table found differs =>
    exact ⟨a, atoms (List.mem_singleton_self _), .arity found differs⟩
  | @unselectable parts several incomplete =>
    -- the parts of a flat conjunction are atoms, so that nothing wanted is missing
    have complete := Task.missing_isEmpty fits fun f hf =>
      Formula.exists_atom_of_flat root (Formula.conjunctive_junction.1 conjunctive) hf
    rw [incomplete] at complete
    cases complete
  | @emptyConjunction parts several unjoined unconditional =>
    have some : parts ≠ [] := List.ne_nil_of_length_pos (Nat.lt_of_succ_lt several)
    exact absurd unconditional ((t'.joined_or_conditional some).resolve_left (· unjoined))
  | universal => cases (Formula.conjunctive_quant.1 conjunctive).1

section Compilation

variable {f : Formula} {schema : Schema} {labels : Labels} {distinct : Bool}

/-- The free variables that can be selected are those that occur in a predicate atom. -/
theorem selectable_iff_of_conjunctive (conjunctive : f.Conjunctive) {x : Ident}
    (free : x ∈ f.free) : x ∈ f.prepared.selectable ↔
      ∃ a, Atom.predicate a ∈ f.atoms ∧ x ∈ (Formula.predicate a).free := by
  have atoms := Formula.atoms_prepared conjunctive.existential
  constructor
  · intro hx
    rcases Formula.exists_atom_of_mem_selectable hx with ⟨a, ha, hx⟩
    exact ⟨a, atoms ▸ ha, hx⟩
  · rintro ⟨a, ha, hx⟩
    exact (Formula.conjunctive_prepared conjunctive).mem_selectable (atoms ▸ ha) hx
      ((Formula.mem_free_prepared_iff conjunctive.existential).2 free)

/-- What is reported for a conjunctive query: a variable that occurs in no predicate atom, or a
predicate without a table that fits. -/
theorem compile_error_of_conjunctive (conjunctive : f.Conjunctive) {err : Error}
    (h : compile schema labels distinct f = .error err) :
    (∃ lost, err = .unsafeVariables f.prepared lost ∧ ∃ x : Ident, x ∈ f.free ∧
        ¬ ∃ a, Atom.predicate a ∈ f.atoms ∧ x ∈ (Formula.predicate a).free) ∨
      ∃ a t, Atom.predicate a ∈ f.atoms ∧
        Context.Raises ⟨schema, f.prepared, labels, distinct⟩ t (.predicate a) err := by
  rcases compile_error h with ⟨lost, rfl, x, free, unselectable⟩ | ⟨fits, failed⟩
  · have free := (Formula.mem_free_prepared_iff conjunctive.existential).1 free
    exact .inl ⟨lost, rfl, x, free,
      fun occurs => unselectable ((selectable_iff_of_conjunctive conjunctive free).2 occurs)⟩
  · rcases Context.exists_raised failed with ⟨goal, reached, raised⟩
    rcases raises_predicate f.flat_prepared (Formula.conjunctive_prepared conjunctive) fits reached
      raised with ⟨a, ha, raised⟩
    exact .inr ⟨a, goal.1, Formula.atoms_prepared conjunctive.existential ▸ ha, raised⟩

/-- If a conjunctive query has a statement, each of its predicates has a table that fits. -/
theorem exists_table_of_conjunctive (conjunctive : f.Conjunctive) {e : Expr Nat}
    (compiled : compile schema labels distinct f = .ok e) {a : PredicateAtom}
    (ha : Atom.predicate a ∈ f.atoms) :
    ∃ table, schema.table? a.predicate = some table ∧ table.arity = a.arity := by
  rw [← Formula.atoms_prepared conjunctive.existential] at ha
  rcases Task.exists_reached_of_predicate f.flat_prepared
    (Formula.conjunctive_prepared conjunctive) ha with ⟨t, b, reached, same⟩
  have clear := (exists_compile_iff.1 ⟨e, compiled⟩).2 _ reached
  rcases Context.not_raises_predicate_iff.1 clear with ⟨table, found, fits⟩
  rcases same with same | same
  · cases same
    exact ⟨table, found, fits⟩
  · -- equal atoms have the same predicate and as many terms
    rcases Formula.same_predicate_iff.1 same with ⟨name, terms, -⟩
    have arity : a.arity = b.arity := by
      simpa [PredicateAtom.arity] using congrArg List.length terms
    exact ⟨table, name ▸ found, fits.trans arity.symm⟩

/-- A conjunctive query has a statement just if each of its free variables occurs in a predicate
atom and each of its predicates has a table that fits. Its variables are never found to be
unselectable in a conjunction, and they are unsafe only if they occur in no predicate atom. -/
theorem compile_conjunctive_iff (conjunctive : f.Conjunctive) (schema : Schema) (labels : Labels)
    (distinct : Bool) :
    ((∃ e, compile schema labels distinct f = .ok e) ↔
      (∀ x : Ident, x ∈ f.free →
        ∃ a, Atom.predicate a ∈ f.atoms ∧ x ∈ (Formula.predicate a).free) ∧
      ∀ a, Atom.predicate a ∈ f.atoms →
        ∃ table, schema.table? a.predicate = some table ∧ table.arity = a.arity) ∧
    (∀ query vars part, compile schema labels distinct f ≠
      .error (.unselectable query vars part)) ∧
    ((∀ x : Ident, x ∈ f.free →
        ∃ a, Atom.predicate a ∈ f.atoms ∧ x ∈ (Formula.predicate a).free) →
      ∀ query vars, compile schema labels distinct f ≠ .error (.unsafeVariables query vars)) := by
  refine ⟨⟨?needed, ?enough⟩, ?selectable, ?safe⟩
  case needed =>
    rintro ⟨e, compiled⟩
    refine ⟨fun x free => ?_, fun a ha => exists_table_of_conjunctive conjunctive compiled ha⟩
    have prepared := (Formula.mem_free_prepared_iff conjunctive.existential).2 free
    exact (selectable_iff_of_conjunctive conjunctive free).1
      ((exists_compile_iff.1 ⟨e, compiled⟩).1 x prepared)
  case enough =>
    rintro ⟨safe, tables⟩
    cases result : compile schema labels distinct f with
    | ok e => exact ⟨e, rfl⟩
    | error err =>
      rcases compile_error_of_conjunctive conjunctive result with
        ⟨-, -, x, free, absent⟩ | ⟨a, t, ha, raised⟩
      · exact absurd (safe x free) absent
      · exact absurd raised (Context.not_raises_predicate_iff.2 (tables a ha) err)
  case selectable =>
    intro query vars part failed
    rcases compile_error_of_conjunctive conjunctive failed with ⟨lost, other, -⟩ | ⟨a, t, -, raised⟩
    · cases other
    · cases raised
  case safe =>
    intro safe query vars failed
    rcases compile_error_of_conjunctive conjunctive failed with
      ⟨-, -, x, free, absent⟩ | ⟨a, t, -, raised⟩
    · exact absent (safe x free)
    · cases raised

end Compilation

/-- `∃ y (R(x, y) ∧ R(x, y) ∧ y ≠ x ∧ S(x, _, "a"))` -/
def linked : Formula :=
  .quant .exist (VarSet.ofList [⟨⟨"y", none⟩, .undefined⟩])
    (.junction .and [
      .predicate
        ⟨"R", [.var ⟨⟨"x", none⟩, .undefined⟩, .var ⟨⟨"y", none⟩, .undefined⟩], .undefined⟩,
      .predicate
        ⟨"R", [.var ⟨⟨"x", none⟩, .undefined⟩, .var ⟨⟨"y", none⟩, .undefined⟩], .undefined⟩,
      .atom (.comparison
        ⟨.different, .var ⟨⟨"y", none⟩, .undefined⟩, .var ⟨⟨"x", none⟩, .undefined⟩⟩),
      .predicate
        ⟨"S", [.var ⟨⟨"x", none⟩, .undefined⟩, .var ⟨⟨"_", none⟩, .undefined⟩,
          .const (.data "a" .string)], .undefined⟩])

theorem linked_compiles :
    linked.Conjunctive ∧
      ∃ e, compile ⟨[⟨"R", ["from", "to"]⟩, ⟨"T", ["a", "b", "c"]⟩], [("S", "T")]⟩
        [(⟨⟨"x", none⟩, .undefined⟩, "start")] true linked = .ok e := by
  have conjunctive : linked.Conjunctive := by
    refine .exist (.body (.and ?_))
    simp only [List.forall_mem_cons, List.not_mem_nil, false_implies, implies_true, and_true]
    exact ⟨.atom _, .atom _, .atom _, .atom _⟩
  refine ⟨conjunctive, (compile_conjunctive_iff conjunctive _ _ _).1.2 ⟨?safe, ?tables⟩⟩
  case safe =>
    have idents : linked.free.idents = [⟨"x", none⟩] := rfl
    intro x free
    rw [← VarSet.mem_idents, idents, List.mem_singleton] at free
    subst free
    exact ⟨_, List.mem_cons_self, by decide⟩
  case tables =>
    intro a ha
    simp only [linked, Formula.atoms, Formula.atomsAll, Formula.predicate, List.cons_append,
      List.nil_append, List.mem_cons, List.not_mem_nil, or_false, Atom.predicate.injEq,
      reduceCtorEq, false_or] at ha
    rcases ha with rfl | rfl | rfl
    · exact ⟨⟨"R", ["from", "to"]⟩, rfl, rfl⟩
    · exact ⟨⟨"R", ["from", "to"]⟩, rfl, rfl⟩
    · exact ⟨⟨"T", ["a", "b", "c"]⟩, rfl, rfl⟩

end Sql
end QueryCalculus
