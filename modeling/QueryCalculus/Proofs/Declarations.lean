import Mathlib.Data.List.Induction
import Mathlib.Data.List.Nodup
import QueryCalculus.Schema

/-!
# Schemas declared step by step

- `Schema.Declaration` : a table, or a predicate bound to a table
- `Schema.attempt` : what a declaration reports and the schema it leaves, after success and failure
- `Schema.Attempt` : the four ways an attempt can end
- `Schema.Declaration.report` : what has to be reported after the declarations accepted before
- `Schema.run`, `Schema.accepted` : a history of attempts, and those of them that succeed
- `Schema.Consistent` : table names are different, and bindings lead to declared tables
- `Schema.run_resolves` : what a history that starts with nothing leads to
- `Schema.table?_name_iff` : when a table is found through its own name

Both parts of a schema only grow. Tables keep their first declaration and predicates their last
binding, so a schema can be read off the accepted declarations.
-/

namespace QueryCalculus
namespace Schema

inductive Declaration
  | table (t : Table)
  | binding (predicate target : String)
  deriving DecidableEq, Repr

namespace Declaration

def table? : Declaration → Option Table
  | .table t => some t
  | .binding _ _ => none

def binding? : Declaration → Option (String × String)
  | .table _ => none
  | .binding predicate target => some (predicate, target)

/-- Whether a table of this name is declared. -/
def declares (name : String) : Declaration → Bool
  | .table t => t.name = name
  | .binding _ _ => false

/-- A table must be new, and a binding must lead to a table that was declared before. -/
def report (made : List Declaration) : Declaration → Option Error
  | .table t => if made.any (·.declares t.name) then some (.duplicateTable t.name) else none
  | .binding _ target => if made.any (·.declares target) then none else some (.unknownTable target)

def change : Declaration → Change
  | .table t => declareTable t
  | .binding predicate target => bindPredicate predicate target

end Declaration

/-- The error that the declaration ends with, if any, and the schema afterwards. -/
def attempt (s : Schema) (d : Declaration) : Option Error × Schema :=
  match d.change.run s with
  | .ok _ after => (none, after)
  | .error e after => (some e, after)

/-- The schema after attempts to declare everything in the list, in order. -/
def run (s : Schema) : List Declaration → Schema
  | [] => s
  | d :: ds => (s.attempt d).2.run ds

/-- The declarations of the list that do not end with an error. -/
def accepted (s : Schema) : List Declaration → List Declaration
  | [] => []
  | d :: ds =>
    if (s.attempt d).1.isNone then d :: (s.attempt d).2.accepted ds
    else (s.attempt d).2.accepted ds

/-! ## One attempt -/

inductive Attempt (s : Schema) : Declaration → Option Error → Schema → Prop
  | added {t : Table} : s.named? t.name = none →
      Attempt s (.table t) none { s with tables := s.tables ++ [t] }
  | duplicate {t u : Table} : s.named? t.name = some u →
      Attempt s (.table t) (some (.duplicateTable t.name)) s
  | bound {predicate target : String} {t : Table} : s.named? target = some t →
      Attempt s (.binding predicate target) none
        { s with bindings := (predicate, target) :: s.bindings }
  | unknown {predicate target : String} : s.named? target = none →
      Attempt s (.binding predicate target) (some (.unknownTable target)) s

variable {s s' : Schema} {d : Declaration} {e : Error} {outcome : Option Error}

theorem attempt_spec (s : Schema) (d : Declaration) :
    Attempt s d (s.attempt d).1 (s.attempt d).2 := by
  cases d with
  | table t =>
    cases found : s.named? t.name with
    | none =>
      have added : s.attempt (.table t) = (none, { s with tables := s.tables ++ [t] }) := by
        simp [attempt, Declaration.change, declareTable, found]
      simpa [added] using Attempt.added found
    | some u =>
      have refused : s.attempt (.table t) = (some (.duplicateTable t.name), s) := by
        simp [attempt, Declaration.change, declareTable, found]
      simpa [refused] using Attempt.duplicate found
  | binding predicate target =>
    cases found : s.named? target with
    | none =>
      have refused : s.attempt (.binding predicate target) = (some (.unknownTable target), s) := by
        simp [attempt, Declaration.change, bindPredicate, found]
      simpa [refused] using Attempt.unknown found
    | some t =>
      have bound : s.attempt (.binding predicate target) =
          (none, { s with bindings := (predicate, target) :: s.bindings }) := by
        simp [attempt, Declaration.change, bindPredicate, found]
      simpa [bound] using Attempt.bound found

theorem Attempt.eq_of_error (h : Attempt s d (some e) s') : s' = s := by
  cases h with
  | duplicate _ => rfl
  | unknown _ => rfl

theorem Attempt.tables_eq (h : Attempt s d none s') :
    s'.tables = s.tables ++ d.table?.toList := by
  cases h with
  | added _ => rfl
  | bound _ => exact (List.append_nil s.tables).symm

theorem Attempt.bindings_eq (h : Attempt s d none s') :
    s'.bindings = d.binding?.toList ++ s.bindings := by
  cases h with
  | added _ => rfl
  | bound _ => rfl

/-! ## Tables by name -/

theorem named?_eq_none_iff {name : String} :
    s.named? name = none ↔ ∀ t ∈ s.tables, t.name ≠ name := by
  simp [named?]

theorem mem_of_named? {name : String} {t : Table} (found : s.named? name = some t) :
    t ∈ s.tables ∧ t.name = name := by
  have matched := List.find?_some found
  exact ⟨List.mem_of_find?_eq_some found, by simpa using matched⟩

/-- No two tables have the same name, and every binding leads to a table. -/
structure Consistent (s : Schema) : Prop where
  distinct : (s.tables.map Table.name).Nodup
  declared : ∀ binding ∈ s.bindings, ∃ t, s.named? binding.2 = some t

theorem Consistent.empty : Consistent {} where
  distinct := List.nodup_nil
  declared := List.forall_mem_nil _

theorem Consistent.named?_name (h : s.Consistent) {t : Table} (ht : t ∈ s.tables) :
    s.named? t.name = some t := by
  cases found : s.named? t.name with
  | none => exact absurd rfl (named?_eq_none_iff.1 found t ht)
  | some u =>
    have place := mem_of_named? found
    have same : u = t := List.inj_on_of_nodup_map h.distinct place.1 ht place.2
    exact congrArg some same

/-- A table is never replaced by one that is declared later. -/
theorem Attempt.named?_mono (h : Attempt s d outcome s') {name : String} {t : Table}
    (found : s.named? name = some t) : s'.named? name = some t := by
  cases h with
  | added _ => exact List.find?_append.trans (by simp [show s.tables.find? _ = some t from found])
  | duplicate _ => exact found
  | bound _ => exact found
  | unknown _ => exact found

theorem Attempt.consistent (h : Attempt s d outcome s') (before : s.Consistent) :
    s'.Consistent where
  distinct := by
    cases h with
    | added absent =>
      have others := named?_eq_none_iff.1 absent
      simpa [List.nodup_append, before.distinct] using others
    | duplicate _ => exact before.distinct
    | bound _ => exact before.distinct
    | unknown _ => exact before.distinct
  declared := by
    -- no table is ever taken away
    have old : ∀ binding ∈ s.bindings, ∃ t, s'.named? binding.2 = some t := by
      intro binding listed
      rcases before.declared binding listed with ⟨t, found⟩
      exact ⟨t, h.named?_mono found⟩
    cases h with
    | added _ => exact old
    | duplicate _ => exact old
    | bound found => exact List.forall_mem_cons.2 ⟨⟨_, found⟩, old⟩
    | unknown _ => exact old

/-! ## Histories -/

theorem consistent_run (before : s.Consistent) (ds : List Declaration) :
    (s.run ds).Consistent := by
  induction ds generalizing s with
  | nil => exact before
  | cons d ds ih => exact ih ((attempt_spec s d).consistent before)

theorem run_append (s : Schema) (ds more : List Declaration) :
    s.run (ds ++ more) = (s.run ds).run more := by
  induction ds generalizing s with
  | nil => rfl
  | cons d ds ih => exact ih _

/-- An attempt either changes nothing or is the first of the accepted ones. -/
theorem run_accepted_cases (s : Schema) (d : Declaration) (ds : List Declaration) :
    (s.run (d :: ds) = s.run ds ∧ s.accepted (d :: ds) = s.accepted ds) ∨
      ∃ next, Attempt s d none next ∧ s.attempt d = (none, next) ∧
        s.run (d :: ds) = next.run ds ∧ s.accepted (d :: ds) = d :: next.accepted ds := by
  have spec := attempt_spec s d
  rcases result : s.attempt d with ⟨outcome, next⟩
  rw [result] at spec
  cases outcome with
  | none => exact .inr ⟨next, spec, rfl, by simp [run, result], by simp [accepted, result]⟩
  | some e =>
    cases spec.eq_of_error
    exact .inl ⟨by simp [run, result], by simp [accepted, result]⟩

theorem tables_run (s : Schema) (ds : List Declaration) :
    (s.run ds).tables = s.tables ++ (s.accepted ds).filterMap Declaration.table? := by
  induction ds generalizing s with
  | nil => exact (List.append_nil s.tables).symm
  | cons d ds ih =>
    rcases run_accepted_cases s d ds with ⟨same, skipped⟩ | ⟨next, made, -, after, kept⟩
    · simpa [same, skipped] using ih s
    · have grown := made.tables_eq
      cases shape : d.table? <;> simp [after, kept, ih next, grown, shape]

theorem bindings_run (s : Schema) (ds : List Declaration) :
    (s.run ds).bindings =
      ((s.accepted ds).filterMap Declaration.binding?).reverse ++ s.bindings := by
  induction ds generalizing s with
  | nil => rfl
  | cons d ds ih =>
    rcases run_accepted_cases s d ds with ⟨same, skipped⟩ | ⟨next, made, -, after, kept⟩
    · simpa [same, skipped] using ih s
    · have grown := made.bindings_eq
      cases shape : d.binding? <;> simp [after, kept, ih next, grown, shape]

/-- Attempts that fail might as well be left out. -/
theorem run_accepted (s : Schema) (ds : List Declaration) : s.run (s.accepted ds) = s.run ds := by
  induction ds generalizing s with
  | nil => rfl
  | cons d ds ih =>
    rcases run_accepted_cases s d ds with ⟨same, skipped⟩ | ⟨next, -, result, after, kept⟩
    · simpa [same, skipped] using ih s
    · have first : s.run (d :: next.accepted ds) = next.run (next.accepted ds) := by
        simp [run, result]
      simpa [after, kept, first] using ih next

/-! ## The last binding of a predicate -/

/-- The predicate is bound to this table, and to no other afterwards. -/
def LastBound (made : List Declaration) (predicate target : String) : Prop :=
  ∃ early late, made = early ++ .binding predicate target :: late ∧
    ∀ other, .binding predicate other ∉ late

variable {made : List Declaration} {predicate target : String}

theorem not_lastBound_nil : ¬ LastBound [] predicate target := by
  rintro ⟨early, late, split, -⟩
  cases early <;> cases split

theorem lastBound_snoc :
    LastBound (made ++ [d]) predicate target ↔
      d = .binding predicate target ∨
        (∀ other, d ≠ .binding predicate other) ∧ LastBound made predicate target := by
  constructor
  · rintro ⟨early, late, split, last⟩
    -- the binding is the last declaration, or it is among those before
    rcases List.eq_nil_or_concat late with rfl | ⟨late, final, rfl⟩
    · exact .inl (List.singleton_inj.1 (List.append_inj_right' split rfl))
    · rw [List.concat_eq_append, ← List.cons_append, ← List.append_assoc] at split
      have same : d = final := List.singleton_inj.1 (List.append_inj_right' split rfl)
      have rest : made = early ++ .binding predicate target :: late :=
        List.append_inj_left' split rfl
      refine .inr ⟨fun other bound => ?_, early, late, rest, fun other listed => ?_⟩
      · exact last other (by simp [← same, bound])
      · exact last other (by simp [listed])
  · rintro (rfl | ⟨different, early, late, rfl, last⟩)
    · exact ⟨made, [], rfl, fun other => List.not_mem_nil⟩
    · refine ⟨early, late ++ [d], by simp, fun other listed => ?_⟩
      rcases List.mem_append.1 listed with listed | final
      · exact last other listed
      · exact different other (List.mem_singleton.1 final).symm

/-- The most recent binding is the first one that a look-up meets. -/
theorem find?_bindings_iff :
    ((made.filterMap Declaration.binding?).reverse.find? (·.1 = predicate)).map Prod.snd =
      some target ↔ LastBound made predicate target := by
  -- bindings are stored in the reverse order, so the induction takes declarations off the end
  induction made using List.reverseRecOn with
  | nil => simp [not_lastBound_nil]
  | append_singleton made d ih =>
    rw [lastBound_snoc, List.filterMap_append, List.reverse_append]
    cases d with
    | table t => exact ih.trans (by simp)
    | binding p n =>
      have single : [Declaration.binding p n].filterMap Declaration.binding? = [(p, n)] := rfl
      rw [single]
      by_cases same : p = predicate
      · simp [same]
      · simpa [same] using ih

theorem LastBound.unique {other : String} (one : LastBound made predicate target)
    (two : LastBound made predicate other) : target = other :=
  Option.some.inj ((find?_bindings_iff.2 one).symm.trans (find?_bindings_iff.2 two))

theorem lookup?_of_lastBound (before : s.Consistent) {ds : List Declaration}
    (last : LastBound (s.accepted ds) predicate target) :
    ∃ t, (s.run ds).named? target = some t ∧ (s.run ds).lookup? predicate = some t := by
  rcases Option.map_eq_some_iff.1 (find?_bindings_iff.2 last) with ⟨binding, found, rfl⟩
  have here : (s.run ds).bindings.find? (·.1 = predicate) = some binding := by
    simp [bindings_run, found]
  have listed := List.mem_of_find?_eq_some here
  rcases (consistent_run before ds).declared binding listed with ⟨t, named⟩
  exact ⟨t, named, by simp [lookup?, here, named]⟩

theorem lookup?_of_not_lastBound (unbound : s.bindings = []) {ds : List Declaration}
    (never : ∀ target, ¬ LastBound (s.accepted ds) predicate target) :
    (s.run ds).lookup? predicate = (s.run ds).named? predicate := by
  have missing : (s.run ds).bindings.find? (·.1 = predicate) = none := by
    rw [bindings_run, unbound, List.append_nil]
    refine Option.eq_none_iff_forall_ne_some.2 fun binding found => ?_
    exact never binding.2 (find?_bindings_iff.1 (congrArg _ found))
  simp [lookup?, missing]

/-- The local name is not tried if there is a table for the whole identifier. -/
theorem table?_of_lookup? {t : Table} (found : s.lookup? predicate = some t) :
    s.table? predicate = some t := by
  simp [table?, found]

/-! ## The accepted tables -/

theorem mem_tables_run (ds : List Declaration) (t : Table) :
    t ∈ (run {} ds).tables ↔ .table t ∈ accepted {} ds := by
  have read : ∀ d : Declaration, d.table? = some t ↔ d = .table t := by
    intro d
    cases d <;> simp [Declaration.table?]
  simp [tables_run, read]

theorem any_declares_accepted (ds : List Declaration) (name : String) :
    (accepted {} ds).any (·.declares name) = ((run {} ds).named? name).isSome := by
  have declares (d : Declaration) : d.declares name = true ↔ ∃ t, d = .table t ∧ t.name = name := by
    cases d <;> simp [Declaration.declares]
  rw [Bool.eq_iff_iff, List.any_eq_true, Option.isSome_iff_ne_none, ne_eq, named?_eq_none_iff]
  simp only [declares, mem_tables_run]
  grind

theorem attempt_report (ds : List Declaration) (d : Declaration) :
    ((run {} ds).attempt d).1 = d.report (accepted {} ds) := by
  have spec := attempt_spec (run {} ds) d
  generalize (run {} ds).attempt d = result at spec
  rcases result with ⟨outcome, next⟩
  cases spec with
  | added absent => simp [Declaration.report, any_declares_accepted, absent]
  | duplicate found => simp [Declaration.report, any_declares_accepted, found]
  | bound found => simp [Declaration.report, any_declares_accepted, found]
  | unknown absent => simp [Declaration.report, any_declares_accepted, absent]

theorem countP_declares (name : String) (made : List Declaration) :
    made.countP (·.declares name) =
      ((made.filterMap Declaration.table?).map Table.name).count name := by
  induction made with
  | nil => rfl
  | cons d made ih =>
    rw [List.countP_cons, ih]
    cases d with
    | table t => simp [Declaration.declares, Declaration.table?, List.count_cons]
    | binding p n => rfl

/-- After any attempts to declare tables and to bind predicates, starting with nothing, every table
is stored under its own name as it stands in the one accepted declaration of this name. A bound
predicate leads to the table of its last accepted binding, whatever its local name may be. A table
is accepted just if its name is new, and a binding just if its table was accepted before. An attempt
that ends with an error changes nothing, so that the accepted declarations alone give the same
schema. -/
theorem run_resolves (ds : List Declaration) :
    (∀ t, t ∈ (run {} ds).tables ↔ .table t ∈ accepted {} ds) ∧
    (∀ t ∈ (run {} ds).tables, (run {} ds).named? t.name = some t ∧
      (accepted {} ds).countP (·.declares t.name) = 1) ∧
    (∀ predicate target, LastBound (accepted {} ds) predicate target →
      ∃ t, (run {} ds).named? target = some t ∧ (run {} ds).table? predicate = some t) ∧
    (∀ before d after, ds = before ++ d :: after →
      ((run {} before).attempt d).1 = d.report (accepted {} before)) ∧
    (∀ before d after e, ds = before ++ d :: after → ((run {} before).attempt d).1 = some e →
      ∀ predicate, (run {} (before ++ [d])).table? predicate = (run {} before).table? predicate) ∧
    run {} (accepted {} ds) = run {} ds := by
  have consistent := consistent_run .empty ds
  refine ⟨mem_tables_run ds, fun t ht => ⟨consistent.named?_name ht, ?_⟩, ?_,
    fun before d after _ => attempt_report before d, ?_, run_accepted {} ds⟩
  · have declared : (run {} ds).tables = (accepted {} ds).filterMap Declaration.table? :=
      tables_run {} ds
    rw [countP_declares, ← declared]
    exact List.count_eq_one_of_mem consistent.distinct (List.mem_map_of_mem ht)
  · intro predicate target last
    rcases lookup?_of_lastBound .empty last with ⟨t, named, found⟩
    exact ⟨t, named, table?_of_lookup? found⟩
  · intro before d after e _ failed predicate
    have spec := attempt_spec (run {} before) d
    rw [failed] at spec
    have same : run {} (before ++ [d]) = run {} before := by
      rw [run_append]
      exact spec.eq_of_error
    rw [same]

/-! ## Mapping files -/

theorem declareRecord_cases {fields : List String} (h : (declareRecord fields).run s = .ok () s') :
    s' = s ∨ ∃ t, Attempt s (.table t) none s' := by
  unfold declareRecord at h
  split at h
  · cases h
    exact .inl rfl
  · cases h
  · rename_i name columns _ _
    have spec := attempt_spec s (.table ⟨name, columns⟩)
    have result : s.attempt (.table ⟨name, columns⟩) = (none, s') := by
      simp [attempt, Declaration.change, h]
    rw [result] at spec
    exact .inr ⟨_, spec⟩

/-- What every record preserves holds at the end of the file. -/
theorem forM_preserves {α : Type} {P : Schema → Prop} {step : α → Change}
    (preserved : ∀ {a s s'}, P s → (step a).run s = .ok () s' → P s') {records : List α}
    (before : P s) (h : (records.forM step).run s = .ok () s') : P s' := by
  induction records generalizing s with
  | nil =>
    cases h
    exact before
  | cons record records ih =>
    change (step record >>= fun _ => records.forM step).run s = _ at h
    rw [EStateM.run_bind] at h
    cases read : (step record).run s with
    | error e next =>
      rw [read] at h
      cases h
    | ok _ next =>
      rw [read] at h
      exact ih (preserved before read) h

theorem changed_ok_iff {change : Change} :
    s.changed change = .ok s' ↔ change.run s = .ok () s' := by
  unfold changed
  cases change.run s <;> simp

/-- A mapping file declares tables one after the other and binds nothing. -/
theorem consistent_ofCsv {bytes : Csv.Bytes} {reader : Csv.Reader}
    (loaded : ofCsv bytes reader = .ok s) : s.Consistent ∧ s.bindings = [] := by
  refine forM_preserves (P := fun s => s.Consistent ∧ s.bindings = []) ?_ ⟨.empty, rfl⟩
    (changed_ok_iff.1 loaded)
  intro record s s' before h
  split at h
  · rcases declareRecord_cases h with rfl | ⟨t, spec⟩
    · exact before
    · exact ⟨spec.consistent before.1, spec.bindings_eq.trans before.2⟩
  · cases h

/-! ## Tables found through their names -/

/-- A table name always leads to some table. It leads to its own table exactly if the last accepted
binding of the name, as a predicate, is one to this table, or if there is no such binding. -/
theorem table?_name_iff (start : s = {} ∨ ∃ bytes reader, ofCsv bytes reader = .ok s)
    (ds : List Declaration) {t : Table} (ht : t ∈ (s.run ds).tables) :
    (∃ u ∈ (s.run ds).tables, (s.run ds).table? t.name = some u) ∧
    ((s.run ds).table? t.name = some t ↔
      ∀ target, LastBound (s.accepted ds) t.name target → target = t.name) := by
  have fresh : s.Consistent ∧ s.bindings = [] := by
    rcases start with rfl | ⟨bytes, reader, loaded⟩
    · exact ⟨.empty, rfl⟩
    · exact consistent_ofCsv loaded
  have own := (consistent_run fresh.1 ds).named?_name ht
  by_cases bound : ∃ target, LastBound (s.accepted ds) t.name target
  · -- the binding is consulted before the name, and it leads to `u`
    rcases bound with ⟨target, last⟩
    rcases lookup?_of_lastBound fresh.1 last with ⟨u, named, found⟩
    have leads := table?_of_lookup? found
    have place := mem_of_named? named
    refine ⟨⟨u, place.1, leads⟩, ?_⟩
    constructor
    · intro itself other last'
      have same : u = t := Option.some.inj (leads.symm.trans itself)
      calc
        other = target := last'.unique last
        _ = t.name := same ▸ place.2.symm
    · intro only
      have same : u = t := Option.some.inj (named.symm.trans (only target last ▸ own))
      exact same ▸ leads
  · have never := not_exists.1 bound
    have leads := table?_of_lookup? ((lookup?_of_not_lastBound fresh.2 never).trans own)
    exact ⟨⟨t, ht, leads⟩, iff_of_true leads fun target last => absurd last (never target)⟩

/-- A table that was bound to another one and back is found again. The second attempt to declare it
fails, and so does the binding to a table that is declared too late. -/
theorem rebound_table :
    let ds : List Declaration := [.table ⟨"C", ["a"]⟩, .binding "C" "D", .table ⟨"D", ["b", "c"]⟩,
      .binding "C" "D", .table ⟨"C", ["d"]⟩, .binding "C" "C"]
    ⟨"C", ["a"]⟩ ∈ (run {} ds).tables ∧ (run {} ds).table? "C" = some ⟨"C", ["a"]⟩ := by
  intro ds
  have listed : ⟨"C", ["a"]⟩ ∈ (run {} ds).tables := by decide
  refine ⟨listed, (table?_name_iff (.inl rfl) ds listed).2.2 fun target last => ?_⟩
  have bound : LastBound (accepted {} ds) "C" "C" := by
    refine ⟨[.table ⟨"C", ["a"]⟩, .table ⟨"D", ["b", "c"]⟩, .binding "C" "D"], [], by decide, ?_⟩
    exact fun other => List.not_mem_nil
  exact last.unique bound

/-- A predicate may have the name of a table and be bound to another one. -/
theorem shadowed_table :
    ¬ ∀ (ds : List Declaration), ∀ t ∈ (run {} ds).tables, (run {} ds).table? t.name = some t := by
  intro all
  have found := all [.table ⟨"C", ["a"]⟩, .table ⟨"D", ["b", "c"]⟩, .binding "C" "D"]
    ⟨"C", ["a"]⟩ (by decide)
  revert found
  decide

end Schema
end QueryCalculus
