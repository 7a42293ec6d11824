import Mathlib.Data.List.Dedup
import QueryCalculus.Proofs.Sql.Syntax
import QueryCalculus.Semantics

/-!
# What statements return

- `Database` : rows for the tables of a schema, and values for the literals
- `Database.Represents` : the database has the relations and the constants of an interpretation
- `Env` : the rows in sight of a condition, statement by statement
- `Condition.holds`, `Source.scopes`, `Query.rows` : the meaning of what has been read
- `mem_scopes_joined_iff`, `mem_rows_statement_iff` : what is in a natural join and in a statement

Names that are written without quotes have been folded by reading them, and so have the columns of
the tables here. A column without alias is looked up in the innermost statement that has one of this
name; a column with alias in the innermost source of this alias.
-/

namespace QueryCalculus

def Interpretation.constant {D : Type} (M : Interpretation D) : Constant → D
  | .object iri => M.object iri
  | .data value _ => M.data value

namespace Sql

/-! ## Databases -/

/-- Rows for the tables of a schema, and values for the literals. Rows have as many values as their
table has columns, and no table has two columns of the same name. -/
structure Database (schema : Schema) (D : Type) where
  rows : String → List (List D)
  literal : Literal → D
  fits : ∀ t ∈ schema.tables, ∀ row ∈ rows t.name, row.length = t.columns.length
  distinct : ∀ t ∈ schema.tables, (t.columns.map fold).Nodup

variable {schema : Schema} {D : Type}

theorem Database.nonempty (db : Database schema D) : Nonempty D :=
  ⟨db.literal (.truth true)⟩

/-- The tables have the rows for which the predicates of the formula hold, and its constants are
what their literals are in the database. -/
structure Database.Represents (db : Database schema D) (M : Interpretation D) (f : Formula) :
    Prop where
  relation : ∀ a, Atom.predicate a ∈ f.atoms → ∀ t, schema.table? a.predicate = some t →
    ∀ row, M.relation a.predicate row ↔ row ∈ db.rows t.name
  constant : ∀ c, Term.const c ∈ f.terms → M.constant c = db.literal (constantLiteral c)

namespace Database.Represents

variable {db : Database schema D} {M : Interpretation D} {f g : Formula}

theorem of_atoms (h : db.Represents M f) (atoms : g.atoms ⊆ f.atoms) : db.Represents M g where
  relation a ha := h.relation a (atoms ha)
  constant c hc := by
    rcases List.mem_flatMap.1 hc with ⟨a, ha, inside⟩
    exact h.constant c (List.mem_flatMap.2 ⟨a, atoms ha, inside⟩)

theorem comparison {c : Comparison} (h : db.Represents M (.atom (.comparison c))) :
    ∀ d, Term.const d ∈ [c.left, c.right] → M.constant d = db.literal (constantLiteral d) :=
  fun d hd => h.constant d (List.mem_flatMap.2 ⟨_, List.mem_singleton_self _, hd⟩)

end Database.Represents

/-! ## Names in sight -/

/-- Values for the columns, in order. -/
abbrev Row (D : Type) := List (String × D)

/-- One row for each source of a statement, under the alias of the source. -/
abbrev Scope (D : Type) := List (String × Row D)

/-- The scopes of the statements around a condition, innermost first. -/
abbrev Env (D : Type) := List (Scope D)

def Scope.column? (scope : Scope D) (name : String) : Option D :=
  scope.findSome? fun source => source.2.lookup name

namespace Env

def column? : Env D → String → Option D
  | [], _ => none
  | scope :: env, name => scope.column? name <|> column? env name

def reference? : Env D → String → String → Option D
  | [], _, _ => none
  | scope :: env, source, name =>
    match scope.lookup source with
    | some row => row.lookup name
    | none => reference? env source name

end Env

/-- A row of a table with these columns. -/
def labelled (columns : List String) (row : List D) : Row D :=
  (columns.map fold).zip row

/-- The row of a query with these columns that a valuation stands for. -/
def rowOf (v : Valuation D) (columns : List Column) : Row D :=
  columns.map fun c => (fold c.name, v c.carries.toIdent)

def Scalar.value (db : Database schema D) (env : Env D) : Scalar → Option D
  | .literal value => some (db.literal value)
  | .column name => env.column? name
  | .reference source name => env.reference? source name

/-- The row that a statement returns for the rows in sight. What has no name is left out. -/
def project (db : Database schema D) (env : Env D) (outputs : List Output) : Row D :=
  outputs.filterMap fun o => o.name.bind fun name => (o.value.value db env).map fun d => (name, d)

variable [DecidableEq D]

/-! ## Statements and conditions -/

/-- Rows that have the same values in the columns of the same names. -/
def agree (row row' : Row D) : Bool :=
  row.all fun column => (row'.lookup column.1).all (· == column.2)

def Relation.decides (d e : D) : Relation → Bool
  | .equal => d = e
  | .different => d ≠ e

mutual

/-- The truth of a condition. -/
def Condition.holds (db : Database schema D) : Condition → Env D → Bool
  | .truth value, _ => value
  | .compare relation left right, env =>
    match left.value db env, right.value db env with
    | some d, some e => Relation.decides d e relation
    | _, _ => false
  | .both left right, env => left.holds db env && right.holds db env
  | .not condition, env => !condition.holds db env
  | .exist query, env => !(query.rows db env).isEmpty

/-- The choices of rows from a source. The rows of a natural join agree. -/
def Source.scopes (db : Database schema D) : Source → Env D → List (Scope D)
  | .nothing, _ => [[]]
  | .table name label, _ =>
    match schema.named? name with
    | some t => (db.rows name).map fun row => [(label, labelled t.columns row)]
    | none => []
  | .derived query label, env => (query.rows db env).map fun row => [(label, row)]
  | .natural left right, env =>
    (left.scopes db env).flatMap fun scope =>
      ((right.scopes db env).filter fun other =>
        scope.all fun a => other.all fun b => agree a.2 b.2).map (scope ++ ·)

/-- The rows of a statement. -/
def Query.rows (db : Database schema D) : Query → Env D → List (Row D)
  | .select distinct outputs source condition limitOne, env =>
    let scopes := (source.scopes db env).filter fun scope => condition.holds db (scope :: env)
    let rows := scopes.map fun scope => project db (scope :: env) outputs
    let rows := if distinct then rows.dedup else rows
    if limitOne then rows.take 1 else rows

end

/-! ## Looking up names -/

theorem toDigits_injective {i j : Nat} (same : Nat.toDigits 10 i = Nat.toDigits 10 j) : i = j := by
  calc
    i = Nat.ofDigitChars 10 (Nat.toDigits 10 i) 0 := Nat.ofDigitChars_ten_toDigits.symm
    _ = Nat.ofDigitChars 10 (Nat.toDigits 10 j) 0 := by rw [same]
    _ = j := Nat.ofDigitChars_ten_toDigits

theorem queryAlias_injective : Function.Injective queryAlias := by
  intro n m same
  have texts : toString n = toString m := (String.append_right_inj "q").1 same
  rw [Nat.toString_eq_ofList_toDigits, Nat.toString_eq_ofList_toDigits, String.ofList_inj] at texts
  exact toDigits_injective texts

theorem mem_of_lookup {α β : Type} [DecidableEq α] {l : List (α × β)} {a : α} {b : β}
    (h : l.lookup a = some b) : (a, b) ∈ l := by
  rcases List.lookup_eq_some_iff.1 h with ⟨before, behind, rfl, -⟩
  simp

/-- A name is found with its value if it has no other one. -/
theorem lookup_eq_some {α β : Type} [DecidableEq α] {l : List (α × β)} {a : α} {b : β}
    (there : (a, b) ∈ l) (only : ∀ b', (a, b') ∈ l → b' = b) : l.lookup a = some b := by
  cases found : l.lookup a with
  | none =>
    have absent := List.lookup_eq_none_iff.1 found (a, b) there
    simp at absent
  | some b' => rw [only b' (mem_of_lookup found)]

omit [DecidableEq D] in
theorem Scope.column?_eq_some {scope : Scope D} {name : String} {d : D}
    (there : ∃ source ∈ scope, source.2.lookup name = some d)
    (only : ∀ source ∈ scope, ∀ d', source.2.lookup name = some d' → d' = d) :
    scope.column? name = some d := by
  unfold Scope.column?
  -- the first source with the column has the same value as any other
  cases found : scope.findSome? fun source => source.2.lookup name with
  | none =>
    rcases there with ⟨source, hsource, value⟩
    have absent := List.findSome?_eq_none_iff.1 found source hsource
    rw [value] at absent
    cases absent
  | some d' =>
    rcases List.exists_of_findSome?_eq_some found with ⟨source, hsource, value⟩
    rw [only source hsource d' value]

namespace Env

variable {env : Env D} {scope : Scope D} {name : String}

omit [DecidableEq D] in
theorem column?_cons {d : D} (h : scope.column? name = some d) :
    column? (scope :: env) name = some d := by
  simp [column?, h]

omit [DecidableEq D] in
theorem reference?_cons_of_some {source : String} {row : Row D}
    (h : scope.lookup source = some row) :
    reference? (scope :: env) source name = row.lookup name := by
  simp [reference?, h]

omit [DecidableEq D] in
theorem reference?_cons_of_absent {source : String} (h : ∀ entry ∈ scope, entry.1 ≠ source) :
    reference? (scope :: env) source name = env.reference? source name := by
  have absent : scope.lookup source = none := by
    refine List.lookup_eq_none_iff.2 fun entry hentry => ?_
    simpa using (h entry hentry).symm
  simp [reference?, absent]

end Env

omit [DecidableEq D] in
theorem lookup_rowOf {v : Valuation D} {columns : List Column} {c : Column} (hc : c ∈ columns)
    (only : ∀ c' ∈ columns, fold c'.name = fold c.name →
      v c'.carries.toIdent = v c.carries.toIdent) :
    (rowOf v columns).lookup (fold c.name) = some (v c.carries.toIdent) := by
  refine lookup_eq_some (List.mem_map.2 ⟨c, hc, rfl⟩) ?_
  intro d there
  rcases List.mem_map.1 there with ⟨c', hc', pair⟩
  cases Prod.mk.inj pair with
  | intro name value => rw [← value, only c' hc' name]

omit [DecidableEq D] in
/-- A statement returns the row of a valuation if its columns are found with these values. -/
theorem project_eq_rowOf {db : Database schema D} {env : Env D} {v : Valuation D}
    {columns : List Column}
    (h : ∀ c ∈ columns, env.column? (fold c.source) = some (v c.carries.toIdent)) :
    project db env (outputsOf columns) = rowOf v columns := by
  cases columns with
  | nil => rfl
  | cons c cs =>
    rw [outputsOf, project, rowOf, List.filterMap_map, ← List.filterMap_eq_map]
    · refine List.filterMap_congr fun c hc => ?_
      simp [Column.output, Scalar.value, h c hc]
    · exact nofun

/-! ## Natural joins -/

theorem agree_iff {row row' : Row D} :
    agree row row' = true ↔
      ∀ name d, (name, d) ∈ row → ∀ d', row'.lookup name = some d' → d' = d := by
  simp only [agree, List.all_eq_true, Prod.forall]
  refine forall_congr' fun name => forall_congr' fun d => imp_congr_right fun _ => ?_
  cases row'.lookup name <;> simp

section Statements

variable {db : Database schema D} {env : Env D}

theorem mem_scopes_natural_iff {left right : Source} {scope : Scope D} :
    scope ∈ (Source.natural left right).scopes db env ↔
      ∃ a ∈ left.scopes db env, ∃ b ∈ right.scopes db env,
        (∀ x ∈ a, ∀ y ∈ b, agree x.2 y.2 = true) ∧ scope = a ++ b := by
  simp only [Source.scopes, List.mem_flatMap, List.mem_map, List.mem_filter, List.all_eq_true,
    and_assoc, @eq_comm _ scope]

theorem mem_scopes_derived_iff {query : Query} {label : String} {scope : Scope D} :
    scope ∈ (Source.derived query label).scopes db env ↔
      ∃ row ∈ query.rows db env, scope = [(label, row)] := by
  simp only [Source.scopes, List.mem_map, @eq_comm _ scope]

/-- What is joined to a source adds a row of each, such that any two rows agree. -/
theorem mem_scopes_foldl_iff {first : Source} {sources : List Source}
    (single : ∀ s ∈ sources, ∀ scope ∈ s.scopes db env, ∃ entry, scope = [entry])
    {scope : Scope D} :
    scope ∈ (sources.foldl .natural first).scopes db env ↔
      ∃ a ∈ first.scopes db env, ∃ entries : Scope D,
        List.Forall₂ (fun s entry => [entry] ∈ s.scopes db env) sources entries ∧
        (∀ x ∈ a, ∀ y ∈ entries, agree x.2 y.2 = true) ∧
        entries.Pairwise (fun x y => agree x.2 y.2 = true) ∧ scope = a ++ entries := by
  induction sources generalizing first with
  | nil =>
    simp only [List.foldl_nil, List.forall₂_nil_left_iff]
    constructor
    · intro there
      exact ⟨scope, there, [], rfl, by simp, .nil, by simp⟩
    · rintro ⟨a, ha, entries, rfl, -, -, rfl⟩
      simpa using ha
  | cons s sources ih =>
    have later := fun s hs => single s (List.mem_cons_of_mem _ hs)
    rw [List.foldl_cons, ih later]
    constructor
    · rintro ⟨ab, hab, entries, each, across, within, rfl⟩
      rcases mem_scopes_natural_iff.1 hab with ⟨a, ha, b, hb, fit, rfl⟩
      rcases single s List.mem_cons_self b hb with ⟨entry, rfl⟩
      -- the row that comes first is the last of those it has been joined to
      refine ⟨a, ha, entry :: entries, .cons hb each, ?_, .cons ?_ within, by simp⟩
      · intro x hx
        refine List.forall_mem_cons.2 ⟨fit x hx entry (List.mem_singleton_self _), ?_⟩
        exact across x (List.mem_append_left _ hx)
      · exact across entry (List.mem_append_right _ (List.mem_singleton_self _))
    · rintro ⟨a, ha, entries, each, across, within, rfl⟩
      cases each with
      | cons hb each =>
        rename_i entry entries
        rcases List.pairwise_cons.1 within with ⟨head, within⟩
        refine ⟨a ++ [entry], ?_, entries, each, ?_, within, by simp⟩
        · refine mem_scopes_natural_iff.2 ⟨a, ha, [entry], hb, ?_, rfl⟩
          exact fun x hx => List.forall_mem_singleton.2 (across x hx entry List.mem_cons_self)
        · intro x hx
          rcases List.mem_append.1 hx with hx | hx
          · exact fun y hy => across x hx y (List.mem_cons_of_mem _ hy)
          · rw [List.mem_singleton.1 hx]
            exact head

/-- A natural join chooses a row of each source, such that any two of them agree. -/
theorem mem_scopes_joined_iff {sources : List Source}
    (single : ∀ s ∈ sources, ∀ scope ∈ s.scopes db env, ∃ entry, scope = [entry])
    {scope : Scope D} :
    scope ∈ (Source.joined sources).scopes db env ↔
      List.Forall₂ (fun s entry => [entry] ∈ s.scopes db env) sources scope ∧
        scope.Pairwise fun x y => agree x.2 y.2 = true := by
  cases sources with
  | nil =>
    simp only [Source.joined, Source.scopes, List.mem_singleton, List.forall₂_nil_left_iff]
    constructor
    · rintro rfl
      exact ⟨rfl, .nil⟩
    · exact And.left
  | cons s sources =>
    rw [Source.joined, mem_scopes_foldl_iff fun s hs => single s (List.mem_cons_of_mem _ hs)]
    constructor
    · rintro ⟨a, ha, entries, each, across, within, rfl⟩
      rcases single s List.mem_cons_self a ha with ⟨entry, rfl⟩
      exact ⟨.cons ha each, .cons (across entry (List.mem_singleton_self _)) within⟩
    · rintro ⟨each, pairwise⟩
      cases each with
      | cons here each =>
        rename_i entry entries
        rcases List.pairwise_cons.1 pairwise with ⟨head, within⟩
        exact ⟨[entry], here, entries, each, List.forall_mem_singleton.2 head, within, rfl⟩

/-! ## Conditions -/

theorem holds_compare {relation : Relation} {left right : Scalar} {d e : D}
    (hl : left.value db env = some d) (hr : right.value db env = some e) :
    (Condition.compare relation left right).holds db env = Relation.decides d e relation := by
  rw [Condition.holds, hl, hr]

theorem holds_foldl_iff {first : Condition} {conditions : List Condition} :
    (conditions.foldl .both first).holds db env = true ↔
      first.holds db env = true ∧ ∀ c ∈ conditions, c.holds db env = true := by
  induction conditions generalizing first with
  | nil => simp
  | cons c cs ih => simp [ih, Condition.holds, and_assoc]

theorem holds_all_iff {conditions : List Condition} :
    (Condition.all conditions).holds db env = true ↔
      ∀ c ∈ conditions, c.holds db env = true := by
  cases conditions with
  | nil => simp [Condition.all, Condition.holds]
  | cons c cs => rw [Condition.all, holds_foldl_iff, List.forall_mem_cons]

/-! ## Statements -/

/-- The rows of a statement come from the joined rows that meet its conditions. A limit does not
matter where there are no columns, since all rows are the same then. -/
theorem mem_rows_statement_iff {distinct limitOne : Bool} {columns : List Column}
    {sources conditions : List (Expr Nat)} {row : Row D}
    (bounded : limitOne = true → columns = []) :
    row ∈ (Expr.select distinct columns sources conditions limitOne).statement.rows db env ↔
      ∃ scope ∈ (Source.joined (sources.map Expr.source)).scopes db env,
        (∀ c ∈ conditions, c.condition.holds db (scope :: env) = true) ∧
          row = project db (scope :: env) (outputsOf columns) := by
  -- all rows are the empty row, so that the first one stands for all of them
  have limited : ∀ rows : List (Row D), (limitOne = true → ∀ row ∈ rows, row = []) →
      (row ∈ (if limitOne then rows.take 1 else rows) ↔ row ∈ rows) := by
    intro rows same
    split
    · rename_i limit
      cases rows with
      | nil => simp
      | cons first rest =>
        have all := same limit
        constructor
        · exact List.mem_of_mem_take
        · intro there
          simp [all row there, all first List.mem_cons_self]
    · exact Iff.rfl
  have distinguished : ∀ (row : Row D) (rows : List (Row D)),
      row ∈ (if distinct then rows.dedup else rows) ↔ row ∈ rows := by
    intro row rows
    split
    · exact List.mem_dedup
    · exact Iff.rfl
  rw [Expr.statement, Query.rows, limited, distinguished, List.mem_map, sourcesOf_eq_map,
    conditionsOf_eq_map]
  · simp only [List.mem_filter, holds_all_iff, List.forall_mem_map, and_assoc, @eq_comm _ row]
  · intro limit row there
    -- without columns nothing is projected
    rcases List.mem_map.1 ((distinguished row _).1 there) with ⟨scope, -, rfl⟩
    rw [bounded limit]
    rfl

end Statements

end Sql
end QueryCalculus
