import QueryCalculus.Proofs.Sparql.Selections
import QueryCalculus.Proofs.Sql.Columns

/-!
# Where a compilation fails

- `Context.Raises` : the errors that compiling a part raises by itself
- `Context.exists_raised` : every error is raised at a task that comes up
- `Context.exists_ok_iff`, `exists_compile_iff` : a formula is compiled just if no task that comes
  up raises an error
- `Sparql.pattern_error` : the errors of patterns

At the end the errors that stand for faults of the compilers are shown never to come up.
-/

namespace QueryCalculus

namespace Sql

/-! ## Tasks and their parts -/

namespace Task

theorem sizeOf_subtask {t : Task} {f : Formula} {next : Task × Formula} (h : next ∈ t.subtasks f) :
    sizeOf next.2 < sizeOf f := by
  have inside : ∀ {c : Connective} {parts : List Formula} {part : Formula}, part ∈ parts →
      sizeOf part < sizeOf (Formula.junction c parts) := by
    intro c parts part hpart
    have smaller := List.sizeOf_lt_of_mem hpart
    simp only [Formula.junction.sizeOf_spec]
    omega
  refine subtasks_cases (P := fun _ f _ f' => sizeOf f' < sizeOf f) ?single ?join ?condition
    ?alternative ?negNeg ?neg ?exist h
  case single => exact fun t c part => inside List.mem_cons_self
  case join => exact fun t parts f n several hf => inside (mem_of_joined hf)
  case condition => exact fun t parts f n several hf => inside (mem_of_conditional hf)
  case alternative => exact fun t parts f n several hf => inside (List.fst_mem_of_mem_zipIdx hf)
  case negNeg =>
    intro t body
    simp only [Formula.neg.sizeOf_spec]
    omega
  case neg => exact fun t body _ _ => by simp
  case exist =>
    intro t vars body
    simp only [Formula.quant.sizeOf_spec]
    omega

theorem nodes_subtask_subset {t : Task} {f : Formula} {next : Task × Formula}
    (h : next ∈ t.subtasks f) : next.2.nodes ⊆ f.nodes := by
  have part : ∀ {c : Connective} {parts : List Formula} {f : Formula}, f ∈ parts →
      f.nodes ⊆ (Formula.junction c parts).nodes :=
    fun hf _ hg => Formula.mem_nodes_junction.2 (.inr ⟨_, hf, hg⟩)
  refine subtasks_cases (P := fun _ f _ f' => f'.nodes ⊆ f.nodes) ?single ?join ?condition
    ?alternative ?negNeg ?neg ?exist h
  case single => exact fun t c f => part (List.mem_singleton_self f)
  case join => exact fun t parts f n several hf => part (mem_of_joined hf)
  case condition => exact fun t parts f n several hf => part (mem_of_conditional hf)
  case alternative => exact fun t parts f n several hf => part (List.fst_mem_of_mem_zipIdx hf)
  case negNeg => exact fun t body g hg => List.mem_cons_of_mem _ (List.mem_cons_of_mem _ hg)
  case neg => exact fun t body _ _ g hg => List.mem_cons_of_mem _ hg
  case exist => exact fun t vars body g hg => List.mem_cons_of_mem _ hg

/-- The tasks that come up are for parts of the formula. -/
theorem mem_nodes_of_reaches {t : Task} {f : Formula} {goal : Task × Formula}
    (reached : Reaches (t, f) goal) : goal.2 ∈ f.nodes := by
  have inside : goal.2.nodes ⊆ f.nodes :=
    of_reaches (P := fun task => task.2.nodes ⊆ f.nodes)
      (fun task h next hnext => List.Subset.trans (nodes_subtask_subset hnext) h) reached
      (List.Subset.refl _)
  exact inside goal.2.self_mem_nodes

/-- A conjunction with parts has something to join or a condition: its first part repeats
nothing. -/
theorem joined_or_conditional (t : Task) {parts : List Formula} (some : parts ≠ []) :
    t.joined parts ≠ [] ∨ t.conditional parts ≠ [] := by
  rcases List.exists_mem_of_ne_nil parts some with ⟨f, hf⟩
  rcases exists_same (t := t) hf with ⟨entry, joined | condition, -⟩
  · exact .inl (List.ne_nil_of_mem joined)
  · exact .inr (List.ne_nil_of_mem condition)

end Task

/-! ## Errors of one part -/

namespace Context

variable {ctx : Context} {t : Task} {f : Formula} {err : Error}

/-- The error does not come from the parts below: a predicate has no fitting table, the joined parts
of a conjunction do not have all that is wanted of them, or the compiler finds a formula that it
should never see. -/
inductive Raises (ctx : Context) (t : Task) : Formula → Error → Prop
  | noTable {a : PredicateAtom} (missing : ctx.schema.table? a.predicate = none) :
      Raises ctx t (.predicate a) (.noTable ctx.query a.predicate)
  | arity {a : PredicateAtom} {table : Table} (found : ctx.schema.table? a.predicate = some table)
      (differs : table.arity ≠ a.arity) : Raises ctx t (.predicate a) (.arity ctx.query a table)
  | unselectable {parts : List Formula} (several : 1 < parts.length)
      (incomplete : (t.missing parts).isEmpty = false) :
      Raises ctx t (.junction .and parts)
        (.unselectable ctx.query (t.missing parts) (.junction .and parts))
  | emptyConjunction {parts : List Formula} (several : 1 < parts.length)
      (unjoined : t.joined parts = []) (unconditional : t.conditional parts = []) :
      Raises ctx t (.junction .and parts) (.internal (.emptyConjunction (.junction .and parts)))
  | universal {vars : VarSet} {body : Formula} :
      Raises ctx t (.quant .forAll vars body) (.internal (.universal (.quant .forAll vars body)))

theorem not_raises_predicate_iff {a : PredicateAtom} :
    (∀ err, ¬ Raises ctx t (.predicate a) err) ↔
      ∃ table, ctx.schema.table? a.predicate = some table ∧ table.arity = a.arity := by
  constructor
  · intro clear
    cases found : ctx.schema.table? a.predicate with
    | none => exact absurd (.noTable found) (clear _)
    | some table =>
      by_cases fits : table.arity = a.arity
      · exact ⟨table, rfl, fits⟩
      · exact absurd (.arity found fits) (clear _)
  · rintro ⟨table, found, fits⟩ err raised
    cases raised with
    | noTable missing =>
      rw [found] at missing
      cases missing
    | arity other differs =>
      rw [found] at other
      cases other
      exact differs fits

theorem tableFor_error {a : PredicateAtom} (h : ctx.tableFor a = .error err) :
    Raises ctx t (.predicate a) err := by
  unfold Context.tableFor at h
  split at h
  · rename_i missing
    cases h
    exact .noTable missing
  · rename_i table found
    split at h
    · cases h
    · rename_i differs
      cases h
      exact .arity found differs

theorem joins_error {wanted : VarSet} {n : Nat} {roles : List Role} {parts : List Formula}
    (h : ctx.joins t wanted n roles parts = .error err) :
    ∃ entry ∈ partsWith .join n roles parts,
      ctx.formula (t.join wanted entry.1 entry.2) entry.1 = .error err := by
  induction parts generalizing n roles with
  | nil => simp [Context.joins, pure, Except.pure] at h
  | cons part parts ih =>
    cases roles with
    | nil => cases h
    | cons r roles =>
      cases r with
      | join =>
        rcases error_of_bind_bind_pure h with first | later
        · exact ⟨(part, n), List.mem_cons_self, first⟩
        · rcases ih later with ⟨entry, hentry, failed⟩
          exact ⟨entry, List.mem_cons_of_mem _ hentry, failed⟩
      | condition => exact ih h
      | repeated => exact ih h

theorem conditions_error {providers : Providers} {several : Bool} {n : Nat} {roles : List Role}
    {parts : List Formula} (h : ctx.conditions t providers several n roles parts = .error err) :
    ∃ entry ∈ partsWith .condition n roles parts,
      ctx.formula (t.condition providers entry.2) entry.1 = .error err := by
  induction parts generalizing n roles with
  | nil => simp [Context.conditions, pure, Except.pure] at h
  | cons part parts ih =>
    cases roles with
    | nil => cases h
    | cons r roles =>
      cases r with
      | condition =>
        rcases error_of_bind_bind_pure h with first | later
        · exact ⟨(part, n), List.mem_cons_self, first⟩
        · rcases ih later with ⟨entry, hentry, failed⟩
          exact ⟨entry, List.mem_cons_of_mem _ hentry, failed⟩
      | join => exact ih h
      | repeated => exact ih h

theorem alternatives_error {n : Nat} {parts : List Formula}
    (h : ctx.alternatives t n parts = .error err) :
    ∃ entry ∈ parts.zipIdx n, ctx.formula (t.alternative entry.2) entry.1 = .error err := by
  induction parts generalizing n with
  | nil => cases h
  | cons part parts ih =>
    rcases error_of_bind_bind_pure h with first | later
    · exact ⟨(part, n), List.mem_cons_self, first⟩
    · rcases ih later with ⟨entry, hentry, failed⟩
      exact ⟨entry, List.mem_cons_of_mem _ hentry, failed⟩

theorem conjunction_error {parts : List Formula} {sources conditions : List (Expr Position)}
    (h : ctx.conjunction t parts sources conditions = .error err) :
    sources = [] ∧ conditions = [] ∧
      err = .internal (.emptyConjunction (.junction .and parts)) := by
  cases sources with
  | nil =>
    cases conditions with
    | nil =>
      cases h
      exact ⟨rfl, rfl, rfl⟩
    | cons condition conditions => cases h
  | cons source sources => cases h

theorem and_error {parts : List Formula} (several : 1 < parts.length)
    (h : ctx.formula t (.junction .and parts) = .error err) :
    Raises ctx t (.junction .and parts) err ∨
      ∃ next ∈ t.subtasks (.junction .and parts), ctx.formula next.1 next.2 = .error err := by
  match parts, several with
  | part :: part' :: parts, several =>
    simp only [Context.formula] at h
    split at h
    · rcases bind_eq_error h with failed | ⟨sources, hsources, h⟩
      · rcases joins_error failed with ⟨entry, hentry, failed⟩
        exact .inr ⟨_, Task.mem_subtasks_joined several hentry, failed⟩
      · rcases bind_eq_error h with failed | ⟨conditions, hconditions, h⟩
        · rcases conditions_error failed with ⟨entry, hentry, failed⟩
          exact .inr ⟨_, Task.mem_subtasks_conditional several hentry, failed⟩
        · -- all parts are compiled, so that there are as many expressions as parts with their role
          rcases joins_ok hsources with ⟨queries, rfl, joined⟩
          rcases conditions_ok hconditions with ⟨conditions, rfl, filtered⟩
          rcases conjunction_error h with ⟨unjoined, unconditional, rfl⟩
          exact .inl (.emptyConjunction several
            ((Task.sources_eq_nil_iff joined.length_eq).1 unjoined)
            ((guarded_eq_nil_iff filtered.length_eq).1 unconditional))
    · rename_i incomplete
      cases h
      exact .inl (.unselectable several (by simpa using incomplete))

/-- An error is raised by the part itself or comes from a task right below. -/
theorem raises_or_subtask (h : ctx.formula t f = .error err) :
    Raises ctx t f err ∨ ∃ next ∈ t.subtasks f, ctx.formula next.1 next.2 = .error err := by
  cases f with
  | atom a =>
    cases a with
    | truth b => cases h
    | comparison c => cases h
    | predicate a => exact .inl (tableFor_error (error_of_bind_pure h))
  | junction c parts =>
    rcases parts with _ | ⟨part, _ | ⟨part', parts⟩⟩
    · cases h
    · exact .inr ⟨(t.single, part), by simp [Task.subtasks], h⟩
    · have several : 1 < (part :: part' :: parts).length := by simp
      cases c with
      | and => exact and_error several h
      | or =>
        rcases alternatives_error (error_of_bind_pure h) with ⟨entry, hentry, failed⟩
        exact .inr ⟨_, List.mem_map.2 ⟨entry, hentry, rfl⟩, failed⟩
  | neg body =>
    -- negated comparisons and double negations are compiled in ways of their own
    by_cases plain : ∃ c, body = .atom (.comparison c)
    · rcases plain with ⟨c, rfl⟩
      cases h
    · by_cases negated : ∃ g, body = .neg g
      · rcases negated with ⟨g, rfl⟩
        exact .inr ⟨(t.single.condition t.providers 0, g), by simp [Task.subtasks],
          error_of_bind_pure h⟩
      · have plain := not_exists.1 plain
        have positive := not_exists.1 negated
        rw [formula_neg plain positive] at h
        exact .inr ⟨(t.condition t.providers 0, body),
          by simp [Task.subtasks_neg plain positive], error_of_bind_pure h⟩
  | quant q vars body =>
    cases q with
    | exist => exact .inr ⟨(t.within vars, body), by simp [Task.subtasks], h⟩
    | forAll =>
      cases h
      exact .inl .universal

/-! ## Errors of a compilation -/

/-- Every error is raised at a task that comes up. -/
theorem exists_raised (h : ctx.formula t f = .error err) :
    ∃ goal, Task.Reaches (t, f) goal ∧ Raises ctx goal.1 goal.2 err := by
  -- the parts below are smaller
  induction size : sizeOf f using Nat.strongRecOn generalizing t f with
  | ind n ih =>
    subst size
    rcases raises_or_subtask h with raised | ⟨next, hnext, failed⟩
    · exact ⟨(t, f), .refl, raised⟩
    · rcases ih _ (Task.sizeOf_subtask hnext) failed rfl with ⟨goal, reached, raised⟩
      exact ⟨goal, .head hnext reached, raised⟩

theorem Raises.not_ok (raised : Raises ctx t f err) (e : Expr Position) :
    ctx.formula t f ≠ .ok e := by
  intro compiled
  cases raised with
  | noTable missing =>
    rcases bind_eq_ok_iff.1 compiled with ⟨table, found, -⟩
    simp [Context.tableFor, missing] at found
  | arity found differs =>
    rcases bind_eq_ok_iff.1 compiled with ⟨table, fitting, -⟩
    simp [Context.tableFor, found, differs] at fitting
  | unselectable several incomplete =>
    rcases and_ok several compiled with ⟨complete, -⟩
    rw [incomplete] at complete
    cases complete
  | @emptyConjunction parts several unjoined unconditional =>
    -- every part is joined or is a condition, and there are parts
    have some : parts ≠ [] := by
      rintro rfl
      simp at several
    exact (t.joined_or_conditional some).elim (· unjoined) (· unconditional)
  | universal => cases compiled

/-- A part is compiled just if no task that comes up raises an error. -/
theorem exists_ok_iff :
    (∃ e, ctx.formula t f = .ok e) ↔
      ∀ goal, Task.Reaches (t, f) goal → ∀ err, ¬ Raises ctx goal.1 goal.2 err := by
  constructor
  · intro compiled goal reached err raised
    have below : ∃ e, ctx.formula goal.1 goal.2 = .ok e :=
      Task.of_reaches (P := fun task => ∃ e, ctx.formula task.1 task.2 = .ok e)
        (fun task ⟨e, compiled⟩ next hnext => subtask_ok compiled hnext) reached compiled
    rcases below with ⟨e, compiled⟩
    exact raised.not_ok e compiled
  · intro clear
    cases result : ctx.formula t f with
    | ok e => exact ⟨e, rfl⟩
    | error err =>
      rcases exists_raised result with ⟨goal, reached, raised⟩
      exact absurd raised (clear goal reached err)

/-- A formula without universal quantifiers does not bring about a fault of the compiler. -/
theorem formula_ne_internal (existential : f.Existential) (defect : Defect) :
    ctx.formula t f ≠ .error (.internal defect) := by
  intro failed
  rcases exists_raised failed with ⟨goal, reached, raised⟩
  have inside := existential goal.2 (Task.mem_nodes_of_reaches reached)
  generalize goal.2 = g at raised inside
  cases raised with
  | @emptyConjunction parts several unjoined unconditional =>
    have some : parts ≠ [] := by
      rintro rfl
      simp at several
    exact (goal.1.joined_or_conditional some).elim (· unjoined) (· unconditional)
  | universal => exact inside rfl

end Context

/-- What the compiler reports is about variables that cannot be selected, or it comes up when the
prepared formula is compiled. -/
theorem compile_error {schema : Schema} {labels : Labels} {distinct : Bool} {f : Formula}
    {err : Error} (h : compile schema labels distinct f = .error err) :
    (∃ lost, err = .unsafeVariables f.prepared lost ∧
        ∃ x : Ident, x ∈ f.prepared.free ∧ x ∉ f.prepared.selectable) ∨
      (rootTask f.prepared).Fits f.prepared ∧
        Context.formula ⟨schema, f.prepared, labels, distinct⟩ (rootTask f.prepared) f.prepared =
          .error err := by
  -- the first check never fails
  have checked : f.prepared.selectable.isSubset f.prepared.free = true :=
    VarSet.isSubset_iff.2 fun x => Formula.selectable_subset_free
  simp only [compile, compilePrepared, checked, Bool.not_true, Bool.false_eq_true, if_false] at h
  split at h
  · rename_i safe
    cases compiled : Context.formula ⟨schema, f.prepared, labels, distinct⟩ (rootTask f.prepared)
        f.prepared with
    | error e =>
      rw [compiled] at h
      cases h
      exact .inr ⟨fits_rootTask safe, rfl⟩
    | ok e =>
      rw [compiled] at h
      cases h
  · rename_i lost
    cases h
    rw [VarSet.isEmpty_iff, not_forall] at lost
    rcases lost with ⟨x, hx⟩
    exact .inl ⟨_, rfl, x, VarSet.mem_diff.1 (not_not.1 hx)⟩

/-- A formula has a statement just if all free variables of the prepared formula can be selected and
no task that comes up raises an error. -/
theorem exists_compile_iff {schema : Schema} {labels : Labels} {distinct : Bool} {f : Formula} :
    (∃ e, compile schema labels distinct f = .ok e) ↔
      (∀ x : Ident, x ∈ f.prepared.free → x ∈ f.prepared.selectable) ∧
        ∀ goal, Task.Reaches (rootTask f.prepared, f.prepared) goal → ∀ err,
          ¬ Context.Raises ⟨schema, f.prepared, labels, distinct⟩ goal.1 goal.2 err := by
  constructor
  · rintro ⟨e, compiled⟩
    rcases compile_ok compiled with ⟨e', fits, inside, -⟩
    exact ⟨fits, Context.exists_ok_iff.1 ⟨e', inside⟩⟩
  · rintro ⟨safe, clear⟩
    cases result : compile schema labels distinct f with
    | ok e => exact ⟨e, rfl⟩
    | error err =>
      rcases compile_error result with ⟨-, -, x, free, unselectable⟩ | ⟨-, failed⟩
      · exact absurd (safe x free) unselectable
      · rcases Context.exists_raised failed with ⟨goal, reached, raised⟩
        exact absurd raised (clear goal reached err)

end Sql

/-! ## Patterns -/

namespace Sparql

variable {f : Formula} {err : Error}

theorem predicate_error {a : PredicateAtom} (h : predicate a = .error err) :
    err = .arity a ∧ a.arity ≠ 1 ∧ a.arity ≠ 2 := by
  rcases a with ⟨name, terms, kind⟩
  rcases terms with - | ⟨t, - | ⟨u, - | ⟨w, rest⟩⟩⟩
  · cases h
    exact ⟨rfl, by simp [PredicateAtom.arity], by simp [PredicateAtom.arity]⟩
  · cases h
  · cases h
  · cases h
    exact ⟨rfl, by simp [PredicateAtom.arity], by simp [PredicateAtom.arity]⟩

theorem patterns_error {chosen : Formula → Bool} {parts : List Formula}
    (h : patterns chosen parts = .error err) : ∃ f ∈ parts, pattern f = .error err := by
  induction parts with
  | nil => cases h
  | cons f parts ih =>
    have later : patterns chosen parts = .error err → ∃ g ∈ f :: parts, pattern g = .error err := by
      intro failed
      rcases ih failed with ⟨g, hg, failed⟩
      exact ⟨g, List.mem_cons_of_mem f hg, failed⟩
    rw [patterns] at h
    split at h
    · rcases error_of_bind_bind_pure h with failed | failed
      · exact ⟨f, List.mem_cons_self, failed⟩
      · exact later failed
    · exact later h

theorem junction_error {c : Connective} {parts : List Formula}
    (h : pattern (.junction c parts) = .error err) : ∃ f ∈ parts, pattern f = .error err := by
  cases c with
  | and =>
    rw [pattern] at h
    exact (error_of_bind_bind_pure h).elim patterns_error patterns_error
  | or =>
    rw [pattern] at h
    exact patterns_error (error_of_bind_pure h)

/-- An error is about a predicate of the formula that is neither a class nor a property, or about a
universal quantifier in it. -/
theorem pattern_error (h : pattern f = .error err) :
    (∃ a, err = .arity a ∧ Atom.predicate a ∈ f.atoms ∧ a.arity ≠ 1 ∧ a.arity ≠ 2) ∨
      ∃ g ∈ f.nodes, err = .universal g ∧ g.quantifier? = some .forAll := by
  induction f with
  | atom a =>
    rcases a with (_ | _) | a | c
    · cases h
    · cases h
    · rcases predicate_error h with ⟨rfl, arity⟩
      exact .inl ⟨a, rfl, List.mem_singleton_self _, arity⟩
    · cases h
  | junction c parts ih =>
    rcases junction_error h with ⟨f, hf, failed⟩
    rcases ih f hf failed with ⟨a, same, ha, arity⟩ | ⟨g, hg, found⟩
    · exact .inl ⟨a, same, Formula.mem_atoms_junction.2 ⟨f, hf, ha⟩, arity⟩
    · exact .inr ⟨g, Formula.mem_nodes_junction.2 (.inr ⟨f, hf, hg⟩), found⟩
  | neg body ih =>
    rw [pattern] at h
    rcases ih (error_of_bind_pure h) with arity | ⟨g, hg, found⟩
    · exact .inl arity
    · exact .inr ⟨g, List.mem_cons_of_mem _ hg, found⟩
  | quant q vars body ih =>
    cases q with
    | exist =>
      rw [pattern] at h
      rcases ih (error_of_bind_pure h) with arity | ⟨g, hg, found⟩
      · exact .inl arity
      · exact .inr ⟨g, List.mem_cons_of_mem _ hg, found⟩
    | forAll =>
      cases h
      exact .inr ⟨_, Formula.self_mem_nodes _, rfl, rfl⟩

end Sparql

/-! ## Faults of the compilers -/

/-- The formula that is compiled has no universal quantifier, only free variables can be selected
from it, and every conjunction has something to join or a condition, whatever its task is. So the
errors that stand for faults of the compilers are never reported. -/
theorem no_internal_error (f : Formula) :
    f.prepared.Existential ∧
    (∀ x : Ident, x ∈ f.prepared.selectable → x ∈ f.prepared.free) ∧
    (∀ (t : Sql.Task) (parts : List Formula), parts ≠ [] →
      t.joined parts ≠ [] ∨ t.conditional parts ≠ []) ∧
    (∀ schema labels distinct defect,
      Sql.compileText schema labels distinct f ≠ .error (.internal defect)) ∧
    ∀ g, Sparql.select f ≠ .error (.universal g) := by
  refine ⟨f.existential_prepared, fun x => Formula.selectable_subset_free,
    fun t parts some => t.joined_or_conditional some, ?sql, ?sparql⟩
  case sql =>
    intro schema labels distinct defect failed
    cases compiled : Sql.compile schema labels distinct f with
    | ok e =>
      rw [Sql.compileText, compiled] at failed
      cases failed
    | error err =>
      rw [Sql.compileText, compiled] at failed
      cases failed
      rcases Sql.compile_error compiled with ⟨lost, other, -⟩ | ⟨-, inside⟩
      · cases other
      · exact Sql.Context.formula_ne_internal f.existential_prepared defect inside
  case sparql =>
    intro g failed
    rcases Sparql.pattern_error failed with ⟨a, other, -⟩ | ⟨h, hh, -, universal⟩
    · cases other
    · exact f.existential_prepared h hh universal

end QueryCalculus
