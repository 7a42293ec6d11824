import QueryCalculus.Proofs.Sql.Statements

/-!
# Scans of tables

- `holds_scan_iff` : the rows of a table that meet the conditions of a scan
- `correct_scan` : the statement of an atom is correct
-/

namespace QueryCalculus
namespace Sql

/-! ## Atoms -/

theorem named?_of_table? {schema : Schema} {predicate : String} {table : Table}
    (h : schema.table? predicate = some table) : schema.named? table.name = some table := by
  have named : ∀ name, schema.named? name = some table → schema.named? table.name = some table := by
    intro name found
    have test := List.find?_some found
    rwa [of_decide_eq_true test]
  have looked : ∀ name, schema.lookup? name = some table →
      schema.named? table.name = some table := by
    intro name found
    unfold Schema.lookup? at found
    split at found
    · exact named _ found
    · exact named _ found
  unfold Schema.table? at h
  cases found : schema.lookup? predicate with
  | some other =>
    rw [found] at h
    cases h
    exact looked predicate found
  | none =>
    rw [found, Option.orElse_eq_orElse, Option.orElse_eq_or, Option.none_or] at h
    rcases Option.bind_eq_some_iff.1 h with ⟨name, -, found⟩
    exact looked name found

/-- The values of a row, column by column. -/
theorem forall₂_iff_lookup {α D : Type} {R : α → D → Prop} {as : List α} {columns : List String}
    {row : List D} (distinct : (columns.map fold).Nodup) (lengths : columns.length = as.length)
    (fits : row.length = columns.length) :
    List.Forall₂ R as row ↔ ∀ a column, (a, column) ∈ as.zip columns →
      ∃ d, (labelled columns row).lookup (fold column) = some d ∧ R a d := by
  induction as generalizing columns row with
  | nil =>
    have none : row = [] := by
      rw [← List.length_eq_zero_iff, fits, lengths]
      rfl
    simp [none]
  | cons a as ih =>
    match columns, row, lengths, fits with
    | column :: columns, d :: row, lengths, fits =>
      rcases List.nodup_cons.1 distinct with ⟨new, distinct⟩
      -- the first column does not hide the others, since their names differ
      have later : ∀ a' column', (a', column') ∈ as.zip columns →
          (labelled (column :: columns) (d :: row)).lookup (fold column') =
            (labelled columns row).lookup (fold column') := by
        intro a' column' there
        have other : fold column' ≠ fold column := fun same =>
          new (same ▸ List.mem_map_of_mem (List.of_mem_zip there).2)
        simp [labelled, List.lookup_cons, beq_false_of_ne other]
      rw [List.forall₂_cons, ih distinct (by simpa using lengths) (by simpa using fits)]
      constructor
      · rintro ⟨head, tail⟩ a' column' there
        rcases List.mem_cons.1 there with here | there
        · cases here
          exact ⟨d, by simp [labelled], head⟩
        · rw [later a' column' there]
          exact tail a' column' there
      · intro each
        refine ⟨?_, ?_⟩
        · rcases each a column List.mem_cons_self with ⟨d', found, head⟩
          have same : d = d' := by simpa [labelled] using found
          exact same ▸ head
        · intro a' column' there
          rw [← later a' column' there]
          exact each a' column' (List.mem_cons_of_mem _ there)

section Scan

variable {schema : Schema} {D : Type} {db : Database schema D} {M : Interpretation D}

theorem value_const {c : Constant} {v : Valuation D} :
    (Term.const c).value M v = M.constant c := by
  cases c <;> rfl

theorem denotes_const_iff {c : Constant} {v : Valuation D} {d : D} :
    (Term.const c).Denotes M v d ↔ M.constant c = d := by
  rw [Formula.denotes_iff (by simp), value_const]

theorem denotes_var_iff {x : Variable} (named : x.isBlank = false) {v : Valuation D} {d : D} :
    (Term.var x).Denotes M v d ↔ v x.toIdent = d := by
  rw [Formula.denotes_iff (by simp [named])]
  rfl

variable [DecidableEq D] {number : Position → Nat} {use : String → Position → Nat} {env : Env D}

/-- A column that is in sight equals an operand just if this has its value. -/
theorem holds_equate_iff {column : String} {value : Operand Position} {d : D}
    (found : env.column? (fold column) = some d) :
    ((Expr.equate column value).map number use).condition.holds db env = true ↔
      (value.map number).scalar.value db env = some d := by
  rw [Expr.map, Expr.condition, Condition.holds, Scalar.value, found]
  cases (value.map number).scalar.value db env with
  | none => simp
  | some e => simp [Relation.decides, eq_comm]

variable {ctx : Context} {t : Task} {a : PredicateAtom} {table : Table} {source : String}
  {row : List D} (distinct : (table.columns.map fold).Nodup)
  (lengths : table.columns.length = a.terms.length) (fits : row.length = table.columns.length)
include distinct lengths fits

omit [DecidableEq D] in
/-- The columns of the table are found in the row. -/
theorem lookup_column {term : Term} {column : String}
    (there : (term, column) ∈ a.terms.zip table.columns) :
    ∃ d, (labelled table.columns row).lookup (fold column) = some d := by
  have any : List.Forall₂ (fun _ _ => True) a.terms row :=
    List.forall₂_iff_zip.2 ⟨by omega, fun _ => trivial⟩
  rcases (forall₂_iff_lookup distinct lengths fits).1 any term column there with ⟨d, found, -⟩
  exact ⟨d, found⟩

omit [DecidableEq D] in
/-- The row fits the terms if the constants and the named variables have the values in their
columns. -/
theorem forall₂_denotes_iff {w : Valuation D} :
    List.Forall₂ (Term.Denotes M w) a.terms row ↔
      (∀ c column, (Term.const c, column) ∈ a.terms.zip table.columns →
        (labelled table.columns row).lookup (fold column) = some (M.constant c)) ∧
      ∀ x column, (Term.var x, column) ∈ a.terms.zip table.columns → x.isBlank = false →
        (labelled table.columns row).lookup (fold column) = some (w x.toIdent) := by
  rw [forall₂_iff_lookup distinct lengths fits]
  constructor
  · intro each
    refine ⟨?_, ?_⟩
    · intro c column there
      rcases each _ _ there with ⟨d, found, value⟩
      rw [found, denotes_const_iff.1 value]
    · intro x column there named
      rcases each _ _ there with ⟨d, found, value⟩
      rw [found, (denotes_var_iff named).1 value]
  · rintro ⟨constants, named⟩ term column there
    cases term with
    | const c => exact ⟨_, constants c column there, denotes_const_iff.2 rfl⟩
    | var x =>
      -- a blank denotes every value, so it is enough that its column has one
      by_cases blank : x.isBlank = true
      · rcases lookup_column distinct lengths fits there with ⟨d, found⟩
        exact ⟨d, found, .inl ⟨x, rfl, blank⟩⟩
      · have notBlank : x.isBlank = false := by simpa using blank
        exact ⟨_, named x column there notBlank, (denotes_var_iff notBlank).2 rfl⟩

omit [DecidableEq D] in
/-- The first occurrence of a variable has its value. -/
theorem lookup_first {w : Valuation D}
    (denotes : List.Forall₂ (Term.Denotes M w) a.terms row) {o : Variable × String}
    (ho : o ∈ Context.firsts [] (a.terms.zip table.columns)) :
    (labelled table.columns row).lookup (fold o.2) = some (w o.1.toIdent) := by
  rcases Context.mem_firsts ho with ⟨there, named, -⟩
  exact ((forall₂_denotes_iff distinct lengths fits).1 denotes).2 o.1 o.2 there named

omit [DecidableEq D] in
/-- Some valuation has the values in the first columns of the variables. -/
theorem exists_first_values [Nonempty D] :
    ∃ w : Valuation D, ∀ o ∈ Context.firsts [] (a.terms.zip table.columns),
      (labelled table.columns row).lookup (fold o.2) = some (w o.1.toIdent) := by
  -- a variable has only one first occurrence
  have unique : ∀ (x : Ident) (d d' : D),
      (∃ o ∈ Context.firsts [] (a.terms.zip table.columns), o.1.toIdent = x ∧
        (labelled table.columns row).lookup (fold o.2) = some d) →
      (∃ o ∈ Context.firsts [] (a.terms.zip table.columns), o.1.toIdent = x ∧
        (labelled table.columns row).lookup (fold o.2) = some d') → d = d' := by
    rintro x d d' ⟨o, ho, same, found⟩ ⟨o', ho', same', found'⟩
    have first := List.inj_on_of_nodup_map (Context.nodup_firsts _ _) ho ho' (same.trans same'.symm)
    rw [first, found'] at found
    exact (Option.some.inj found).symm
  rcases exists_valuation unique with ⟨w, hw⟩
  refine ⟨w, ?_⟩
  intro o ho
  rcases lookup_column distinct lengths fits (Context.mem_firsts ho).1 with ⟨d, found⟩
  rw [found, hw o.1.toIdent d ⟨o, ho, rfl, found⟩]

omit [DecidableEq D] in
theorem column?_table {term : Term} {column : String}
    (there : (term, column) ∈ a.terms.zip table.columns) :
    Env.column? ([(source, labelled table.columns row)] :: env) (fold column) =
      (labelled table.columns row).lookup (fold column) := by
  rcases lookup_column distinct lengths fits there with ⟨d, found⟩
  rw [found]
  exact Env.column?_cons (by simp [Scope.column?, found])

theorem holds_equate_column_iff {term : Term} {column : String} {value : Operand Position}
    (there : (term, column) ∈ a.terms.zip table.columns) :
    ((Expr.equate column value).map number use).condition.holds db
        ([(source, labelled table.columns row)] :: env) = true ↔
      (value.map number).scalar.value db ([(source, labelled table.columns row)] :: env) =
        (labelled table.columns row).lookup (fold column) := by
  rcases lookup_column distinct lengths fits there with ⟨d, found⟩
  rw [holds_equate_iff ((column?_table distinct lengths fits there).trans found), found]

omit [DecidableEq D] distinct lengths fits in
/-- The conditions of a scan refer to the queries around it. -/
theorem reference?_scan (outside : t.Outside)
    (clear : ∀ column key x,
      Expr.equate column (.reference key x) ∈
        (ctx.scan t [] (a.terms.zip table.columns)).conditions → source ≠ queryAlias (number key))
    {o : Variable × String} (ho : o ∈ Context.firsts [] (a.terms.zip table.columns))
    {key : Position} (found : t.providers.find? o.1 = some key) :
    t.provided o.1 o.2 = [.equate o.2 (.reference key o.1)] ∧
      Env.reference? ([(source, labelled table.columns row)] :: env) (queryAlias (number key))
          (fold o.1.name) =
        env.reference? (queryAlias (number key)) (fold o.1.name) := by
  have condition := Task.provided_of_some outside found o.2
  -- the alias of the table is none of the aliases that the conditions mention
  have apart := (@Context.forall_scan_conditions_iff ctx t [] (a.terms.zip table.columns)
    (fun e => ∀ column key x, e = Expr.equate column (.reference key x) →
      source ≠ queryAlias (number key)) (by simp) (by rintro x column - _ _ _ ⟨⟩)).1
    (by rintro e he column key x rfl; exact clear column key x he)
  refine ⟨condition, Env.reference?_cons_of_absent fun entry hentry => ?_⟩
  rw [List.mem_singleton.1 hentry]
  exact apart.2.2 o ho _ (by rw [condition]; exact List.mem_cons_self) _ _ _ rfl

/-- The conditions on the provided variables compare them with the values the queries around the
scan have. -/
theorem holds_provided_iff (outside : t.Outside)
    (clear : ∀ column key x,
      Expr.equate column (.reference key x) ∈
        (ctx.scan t [] (a.terms.zip table.columns)).conditions → source ≠ queryAlias (number key))
    {w : Valuation D} (values : ∀ o ∈ Context.firsts [] (a.terms.zip table.columns),
      (labelled table.columns row).lookup (fold o.2) = some (w o.1.toIdent)) :
    (∀ o ∈ Context.firsts [] (a.terms.zip table.columns), ∀ e ∈ t.provided o.1 o.2,
        (e.map number use).condition.holds db
          ([(source, labelled table.columns row)] :: env) = true) ↔
      t.Sees number (.atom (.predicate a)) env w := by
  -- the condition for a single variable that is provided
  have compared : ∀ o ∈ Context.firsts [] (a.terms.zip table.columns), ∀ key,
      t.providers.find? o.1 = some key →
      ((∀ e ∈ t.provided o.1 o.2,
          (e.map number use).condition.holds db
            ([(source, labelled table.columns row)] :: env) = true) ↔
        env.reference? (queryAlias (number key)) (fold o.1.name) = some (w o.1.toIdent)) := by
    intro o ho key found
    rcases reference?_scan outside clear ho found with ⟨condition, outer⟩
    rw [condition, List.forall_mem_singleton,
      holds_equate_column_iff distinct lengths fits (Context.mem_firsts ho).1, values o ho, ← outer]
    rfl
  constructor
  · intro provided x hx key found
    rcases Context.exists_first_of_free lengths hx with ⟨o, ho, same⟩
    have names : o.1.name = x.name := congrArg Ident.name same
    rw [← Providers.find?_congr same] at found
    rw [← names, ← same]
    exact (compared o ho key found).1 (provided o ho)
  · intro sees o ho
    cases found : t.providers.find? o.1 with
    | none => simp [Task.provided_of_none found]
    | some key =>
      exact (compared o ho key found).2 (sees o.1 (Context.free_of_mem_firsts ho) key found)

/-- A row of a table meets the conditions of a scan if the valuation that has the values in the
first columns of the variables has the provided values too, and gives the terms of the atom the
values of the row. -/
theorem holds_scan_iff_of_values (outside : t.Outside)
    (constants : ∀ c, Term.const c ∈ a.terms → M.constant c = db.literal (constantLiteral c))
    (clear : ∀ column key x,
      Expr.equate column (.reference key x) ∈
        (ctx.scan t [] (a.terms.zip table.columns)).conditions → source ≠ queryAlias (number key))
    {w : Valuation D} (values : ∀ o ∈ Context.firsts [] (a.terms.zip table.columns),
      (labelled table.columns row).lookup (fold o.2) = some (w o.1.toIdent)) :
    (∀ c ∈ (ctx.scan t [] (a.terms.zip table.columns)).conditions,
        (c.map number use).condition.holds db
          ([(source, labelled table.columns row)] :: env) = true) ↔
      t.Sees number (.atom (.predicate a)) env w ∧
        List.Forall₂ (Term.Denotes M w) a.terms row := by
  -- a column has the value that it has
  have refl : ∀ x column, (Term.var x, column) ∈ a.terms.zip table.columns →
      ((Expr.equate column (.column column)).map number use).condition.holds db
        ([(source, labelled table.columns row)] :: env) = true := by
    intro x column there
    exact (holds_equate_column_iff distinct lengths fits there).2
      (column?_table distinct lengths fits there)
  rw [Context.forall_scan_conditions_iff (by simp) refl,
    holds_provided_iff distinct lengths fits outside clear values,
    forall₂_denotes_iff distinct lengths fits, ← and_assoc, and_comm]
  refine and_congr_right fun _ => and_congr ?_ ?_
  · refine forall₃_congr fun c column there => ?_
    rw [holds_equate_column_iff distinct lengths fits there, eq_comm,
      constants c (List.of_mem_zip there).1]
    rfl
  · -- a later occurrence is compared with the first one
    refine forall₄_congr fun x column there named => ?_
    have later : ∀ o ∈ Context.firsts [] (a.terms.zip table.columns), o.1.toIdent = x.toIdent →
        (((Expr.equate column (.column o.2)).map number use).condition.holds db
            ([(source, labelled table.columns row)] :: env) = true ↔
          (labelled table.columns row).lookup (fold column) = some (w x.toIdent)) := by
      intro o ho same
      have first : Env.column? ([(source, labelled table.columns row)] :: env) (fold o.2) =
          some (w o.1.toIdent) :=
        (column?_table distinct lengths fits (Context.mem_firsts ho).1).trans (values o ho)
      rw [holds_equate_column_iff distinct lengths fits there, ← same, eq_comm]
      exact Eq.congr_right first
    rcases Context.exists_first [] there named with ⟨o, ho, same⟩
    constructor
    · intro repeated
      exact (later o (by simpa using ho) same).1 (repeated o ho same)
    · intro value o ho same
      exact (later o (by simpa using ho) same).2 value

/-- A row of a table meets the conditions of a scan if some valuation with the provided values gives
the terms of the atom the values of the row. -/
theorem holds_scan_iff (outside : t.Outside)
    (constants : ∀ c, Term.const c ∈ a.terms → M.constant c = db.literal (constantLiteral c))
    (clear : ∀ column key x,
      Expr.equate column (.reference key x) ∈
        (ctx.scan t [] (a.terms.zip table.columns)).conditions → source ≠ queryAlias (number key)) :
    (∀ c ∈ (ctx.scan t [] (a.terms.zip table.columns)).conditions,
        (c.map number use).condition.holds db
          ([(source, labelled table.columns row)] :: env) = true) ↔
      ∃ w, t.Sees number (.atom (.predicate a)) env w ∧
        List.Forall₂ (Term.Denotes M w) a.terms row := by
  constructor
  · intro holds
    have nonempty := db.nonempty
    rcases exists_first_values distinct lengths fits with ⟨w, values⟩
    refine ⟨w, ?_⟩
    exact (holds_scan_iff_of_values distinct lengths fits outside constants clear values).1 holds
  · rintro ⟨w, sees, denotes⟩
    have values : ∀ o ∈ Context.firsts [] (a.terms.zip table.columns),
        (labelled table.columns row).lookup (fold o.2) = some (w o.1.toIdent) :=
      fun o ho => lookup_first distinct lengths fits denotes ho
    exact (holds_scan_iff_of_values distinct lengths fits outside constants clear values).2
      ⟨sees, denotes⟩

omit [DecidableEq D] in
/-- What is selected from a row are the values of the variables that it fits. -/
theorem project_scan {w : Valuation D} (denotes : List.Forall₂ (Term.Denotes M w) a.terms row) :
    project db ([(source, labelled table.columns row)] :: env)
        (outputsOf (Column.sort (ctx.scan t [] (a.terms.zip table.columns)).columns)) =
      rowOf w (Column.sort (ctx.scan t [] (a.terms.zip table.columns)).columns) := by
  refine project_eq_rowOf fun c hc => ?_
  have hc := (Column.sort_perm _).mem_iff.1 hc
  rw [Context.scan_columns] at hc
  rcases List.mem_flatMap.1 hc with ⟨o, ho, hc⟩
  unfold Context.selected at hc
  split at hc
  · rw [List.mem_singleton.1 hc]
    refine Env.column?_cons ?_
    simp [Scope.column?, lookup_first distinct lengths fits denotes ho]
  · simp at hc

omit distinct lengths fits in
/-- An atom. -/
theorem correct_scan {db : Database ctx.schema D} (settled : t.Settled (.atom (.predicate a)))
    (represents : db.Represents M (.atom (.predicate a))) (found : ctx.tableFor a = .ok table)
    (clear : ∀ column key x,
      Expr.equate column (.reference key x) ∈
        (ctx.scan t [] (a.terms.zip table.columns)).conditions →
      fold (tableAlias table.name (use table.name t.position)) ≠ queryAlias (number key)) :
    Correct db M number use t (.atom (.predicate a))
      (ctx.select t.outermost (ctx.scan t [] (a.terms.zip table.columns)).columns
        [.table table.name t.position] (ctx.scan t [] (a.terms.zip table.columns)).conditions) := by
  rcases Context.tableFor_ok found with ⟨found, lengths⟩
  have named := named?_of_table? found
  have declared : table ∈ ctx.schema.tables := List.mem_of_find?_eq_some named
  have distinct := db.distinct table declared
  have constants : ∀ c, Term.const c ∈ a.terms → M.constant c = db.literal (constantLiteral c) :=
    fun c hc => represents.constant c (List.mem_flatMap.2 ⟨_, List.mem_singleton_self _, hc⟩)
  refine correct_select (Context.offers_scan settled.fits lengths).isEmpty_eq
    fun env supplied result => ?_
  have scopes : (Source.joined ([Expr.table table.name t.position].map fun e =>
        (e.map number use).source)).scopes db env =
      (db.rows table.name).map fun row =>
        [(fold (tableAlias table.name (use table.name t.position)),
          labelled table.columns row)] := by
    simp [Source.joined, Expr.map, Expr.source, Source.scopes, named]
  have holds : ∀ w : Valuation D, (Formula.atom (.predicate a)).HoldsApart M w ↔
      ∃ row ∈ db.rows table.name, List.Forall₂ (Term.Denotes M w) a.terms row := by
    intro w
    have relation := represents.relation a (List.mem_singleton_self _) table found
    simp only [Formula.HoldsApart, Formula.HoldsBy, Atom.HoldsApart, PredicateAtom.HoldsApart,
      relation]
  rw [scopes]
  simp only [List.mem_map]
  constructor
  · rintro ⟨scope, ⟨row, hrow, rfl⟩, conditions, rfl⟩
    have fits := db.fits table declared row hrow
    rcases (holds_scan_iff distinct lengths fits settled.outside constants clear).1 conditions with
      ⟨w, sees, denotes⟩
    exact ⟨w, ⟨sees, (holds w).2 ⟨row, hrow, denotes⟩⟩, project_scan distinct lengths fits denotes⟩
  · rintro ⟨w, ⟨sees, held⟩, rfl⟩
    rcases (holds w).1 held with ⟨row, hrow, denotes⟩
    have fits := db.fits table declared row hrow
    exact ⟨_, ⟨row, hrow, rfl⟩,
      (holds_scan_iff distinct lengths fits settled.outside constants clear).2 ⟨w, sees, denotes⟩,
      (project_scan distinct lengths fits denotes).symm⟩

end Scan

end Sql
end QueryCalculus
