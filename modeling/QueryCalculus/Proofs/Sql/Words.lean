import QueryCalculus.Proofs.Formula.NormalForms
import QueryCalculus.Proofs.Sql.Columns

/-!
# The words of compiled statements

- `Expr.Worded` : the names in an expression have one property and its constants another
- `Formula.Worded` : the same for a formula and the tables it uses
- `formula_worded`, `compile_worded` : what holds of the words of a formula holds of those in its
  statement

Statements have no words of their own beside keywords, numbers and aliases.
-/

namespace QueryCalculus

/-! ## Formulas -/

def Term.Worded (K : String → Prop) (C : Constant → Prop) : Term → Prop
  | .var x => K x.name
  | .const c => C c

/-- The names of the variables, tables and columns that a formula uses have the first property and
its constants the second. -/
structure Formula.Worded (schema : Schema) (K : String → Prop) (C : Constant → Prop) (f : Formula) :
    Prop where
  terms : ∀ term ∈ f.terms, term.Worded K C
  tables : ∀ a, Atom.predicate a ∈ f.atoms → ∀ table, schema.table? a.predicate = some table →
    K table.name ∧ ∀ column ∈ table.columns, K column

/-- The words of an atom and of the table it uses. -/
def Atom.TableWorded (schema : Schema) (K : String → Prop) : Atom → Prop
  | .predicate a => ∀ table ∈ schema.table? a.predicate, K table.name ∧ ∀ c ∈ table.columns, K c
  | _ => True

section Decide

variable {schema : Schema} {K : String → Prop} {C : Constant → Prop} [DecidablePred K]

instance [DecidablePred C] : DecidablePred (Term.Worded K C)
  | .var x => inferInstanceAs (Decidable (K x.name))
  | .const c => inferInstanceAs (Decidable (C c))

instance : DecidablePred (Atom.TableWorded schema K)
  | .predicate a => inferInstanceAs (Decidable (∀ table ∈ schema.table? a.predicate,
      K table.name ∧ ∀ c ∈ table.columns, K c))
  | .truth _ => isTrue trivial
  | .comparison _ => isTrue trivial

omit [DecidablePred K] in
theorem Formula.worded_iff {f : Formula} :
    f.Worded schema K C ↔
      (∀ term ∈ f.terms, term.Worded K C) ∧ ∀ a ∈ f.atoms, a.TableWorded schema K := by
  constructor
  · rintro ⟨terms, tables⟩
    refine ⟨terms, fun a ha => ?_⟩
    cases a with
    | predicate a => exact tables a ha
    | _ => trivial
  · rintro ⟨terms, tables⟩
    exact ⟨terms, fun a ha => tables _ ha⟩

instance [DecidablePred C] {f : Formula} : Decidable (f.Worded schema K C) :=
  decidable_of_iff _ Formula.worded_iff.symm

end Decide

namespace Formula.Worded

variable {schema : Schema} {K : String → Prop} {C : Constant → Prop} {f : Formula}

theorem of_atoms {g : Formula} (h : f.Worded schema K C)
    (atoms : ∀ a ∈ g.atoms, a ∈ f.atoms ∨ a = .truth true) : g.Worded schema K C := by
  constructor
  · intro term hterm
    rcases List.mem_flatMap.1 hterm with ⟨a, ha, inside⟩
    rcases atoms a ha with old | rfl
    · exact h.terms term (List.mem_flatMap.2 ⟨a, old, inside⟩)
    · cases inside
  · intro a ha
    rcases atoms _ ha with old | new
    · exact h.tables a old
    · cases new

theorem mono {K' : String → Prop} {C' : Constant → Prop} (h : f.Worded schema K C)
    (names : ∀ name, K name → K' name) (constants : ∀ c, C c → C' c) : f.Worded schema K' C' where
  terms term hterm := by
    cases term with
    | var x => exact names _ (h.terms _ hterm)
    | const c => exact constants _ (h.terms _ hterm)
  tables a ha table found :=
    have words := h.tables a ha table found
    ⟨names _ words.1, fun column hcolumn => names _ (words.2 column hcolumn)⟩

theorem prepared (h : f.Worded schema K C) : f.prepared.Worded schema K C :=
  h.of_atoms fun _ ha => Formula.mem_atoms_of_prepared ha

theorem atom_terms {a : Atom} (h : (Formula.atom a).Worded schema K C) :
    ∀ term ∈ a.terms, term.Worded K C := by
  intro term hterm
  exact h.terms term (List.mem_flatMap.2 ⟨a, List.mem_singleton_self a, hterm⟩)

/-- A free variable has the name of a term. -/
theorem name_free {x : Ident} (h : f.Worded schema K C) (hx : x ∈ f.free) : K x.name := by
  induction f with
  | atom a =>
    rcases Formula.mem_free_atom.1 hx with ⟨y, hy, -, same⟩
    have names : y.name = x.name := congrArg Ident.name same
    exact names ▸ h.atom_terms _ hy
  | junction c parts ih =>
    rcases Formula.mem_free_junction.1 hx with ⟨f, hf, hx⟩
    exact ih f hf (h.of_atoms fun a ha => .inl (Formula.mem_atoms_junction.2 ⟨f, hf, ha⟩)) hx
  | neg body ih => exact ih (h.of_atoms fun _ => .inl) hx
  | quant q vars body ih => exact ih (h.of_atoms fun _ => .inl) (Formula.mem_free_quant.1 hx).1

end Formula.Worded

namespace Sql

/-! ## Expressions -/

variable {κ μ : Type} {K : String → Prop} {C : Constant → Prop}

/-- The names of an operand have the first property and its constants the second. -/
def Operand.Worded (K : String → Prop) (C : Constant → Prop) : Operand κ → Prop
  | .reference _ x | .bare x => K x.name
  | .column name => K name
  | .constant c => C c

/-- The names that stand in an expression itself have the first property and its constants the
second. -/
def Expr.Worded (K : String → Prop) (C : Constant → Prop) : Expr κ → Prop
  | .compare _ left right => left.Worded K C ∧ right.Worded K C
  | .equate column value => K column ∧ value.Worded K C
  | .table name _ => K name
  | .select _ columns _ _ _ => ∀ c ∈ columns, K c.source ∧ ∀ label, c.label = some label → K label
  | _ => True

theorem operand_worded_map {query : κ → μ} {o : Operand κ} (h : o.Worded K C) :
    (o.map query).Worded K C := by
  cases o <;> exact h

theorem worded_map {query : κ → μ} {use : String → κ → μ} {e : Expr κ} (h : e.Worded K C) :
    (e.map query use).Worded K C := by
  cases e with
  | compare relation left right => exact ⟨operand_worded_map h.1, operand_worded_map h.2⟩
  | equate column value => exact ⟨h.1, operand_worded_map h.2⟩
  | table name key => exact h
  | select distinct columns sources conditions limitOne => exact h
  | _ => trivial

/-- The parts of a formula have no other atoms. -/
theorem atoms_subtask_subset {t : Task} {f : Formula} {next : Task × Formula}
    (h : next ∈ t.subtasks f) : next.2.atoms ⊆ f.atoms := by
  have part : ∀ {c : Connective} {parts : List Formula} {f : Formula}, f ∈ parts →
      f.atoms ⊆ (Formula.junction c parts).atoms :=
    fun hf _ ha => Formula.mem_atoms_junction.2 ⟨_, hf, ha⟩
  refine Task.subtasks_cases (P := fun t f t' f' => f'.atoms ⊆ f.atoms) ?single ?join ?condition
    ?alternative ?negNeg ?neg ?exist h
  case single => exact fun t c f => part (List.mem_singleton_self f)
  case join => exact fun t parts f n several hf => part (Task.mem_of_joined hf)
  case condition => exact fun t parts f n several hf => part (Task.mem_of_conditional hf)
  case alternative => exact fun t parts f n several hf => part (List.fst_mem_of_mem_zipIdx hf)
  case negNeg => exact fun t body => List.Subset.refl _
  case neg => exact fun t body plain positive => List.Subset.refl _
  case exist => exact fun t vars body => List.Subset.refl _

/-! ## Compiled parts -/

section Parts

variable {ctx : Context} {t : Task}

theorem worded_label (labels : ∀ entry ∈ ctx.labels, entry.2 ≠ "" → K entry.2) {x : Variable}
    (hx : K x.name) {outermost : Bool} : K (ctx.label outermost x) := by
  unfold Context.label
  split
  · rename_i label found
    rcases Option.map_eq_some_iff.1 found with ⟨entry, member, rfl⟩
    split
    · rename_i shown
      simp only [Bool.and_eq_true, decide_eq_true_eq] at shown
      exact labels entry (List.mem_of_find?_eq_some member) shown.2
    · exact hx
  · exact hx

theorem worded_operand {term : Term} (h : term.Worded K C) {providers : Providers} :
    (operand providers term).Worded K C := by
  cases term with
  | var x =>
    rw [operand]
    split <;> exact h
  | const c => exact h

theorem worded_comparison {c : Comparison} (left : c.left.Worded K C)
    (right : c.right.Worded K C) {providers : Providers} :
    (comparison providers c).Throughout (Expr.Worded K C) :=
  Expr.throughout_leaf rfl ⟨worded_operand left, worded_operand right⟩

theorem worded_conditionOr {c : Expr Position} (h : c.Throughout (Expr.Worded K C))
    {outermost : Bool} : (ctx.conditionOr outermost c).Throughout (Expr.Worded K C) := by
  refine (Context.throughout_conditionOr_iff (fun _ => trivial) fun _ _ => ?_).2 h
  exact fun c hc => absurd hc List.not_mem_nil

/-- The statement that passes on the requested variables. -/
theorem worded_select (labels : ∀ entry ∈ ctx.labels, entry.2 ≠ "" → K entry.2)
    (requested : ∀ x ∈ t.requested.toList, K x.name) {sources conditions : List (Expr Position)}
    (hs : ∀ s ∈ sources, s.Throughout (Expr.Worded K C))
    (hc : ∀ c ∈ conditions, c.Throughout (Expr.Worded K C)) {outermost : Bool} :
    (ctx.select outermost (t.requested.toList.map (ctx.passedOn outermost)) sources
      conditions).Throughout (Expr.Worded K C) := by
  refine (Context.throughout_select_iff fun _ => trivial).2 ⟨?_, hs, hc⟩
  intro c hc
  rcases List.mem_map.1 ((Column.sort_perm _).mem_iff.1 hc) with ⟨x, hx, rfl⟩
  refine ⟨requested x hx, fun label written => ?_⟩
  simp only [Context.passedOn] at written
  split at written
  · cases written
  · cases written
    exact worded_label labels (requested x hx)

section Scan

variable {pairs : List (Term × String)}

theorem worded_firsts
    (words : ∀ term column, (term, column) ∈ pairs → term.Worded K C ∧ K column) :
    ∀ o ∈ Context.firsts [] pairs, K o.1.name ∧ K o.2 := by
  intro o ho
  exact words _ _ (Context.mem_firsts ho).1

theorem worded_scan_conditions
    (words : ∀ term column, (term, column) ∈ pairs → term.Worded K C ∧ K column) :
    ∀ c ∈ (ctx.scan t [] pairs).conditions, c.Throughout (Expr.Worded K C) := by
  have first := worded_firsts words
  have provided : ∀ o ∈ Context.firsts [] pairs, ∀ c ∈ t.provided o.1 o.2, c.Worded K C := by
    intro o ho c hc
    unfold Task.provided at hc
    split at hc
    · split at hc
      · cases hc
      · rw [List.mem_singleton.1 hc]
        exact ⟨(first o ho).2, (first o ho).1⟩
    · cases hc
  have here : ∀ c ∈ (ctx.scan t [] pairs).conditions, c.Worded K C := by
    rw [Context.forall_scan_conditions_iff (by simp)
      fun x column h => ⟨(words _ _ h).2, (words _ _ h).2⟩]
    exact ⟨fun c column h => ⟨(words _ _ h).2, (words _ _ h).1⟩,
      fun x column h named o ho same => ⟨(words _ _ h).2, (first o ho).2⟩, provided⟩
  intro c hc
  rcases Context.scan_conditions_equate c hc with ⟨column, value, rfl⟩
  exact Expr.throughout_leaf rfl (here _ hc)

theorem worded_scan_columns (labels : ∀ entry ∈ ctx.labels, entry.2 ≠ "" → K entry.2)
    (words : ∀ term column, (term, column) ∈ pairs → term.Worded K C ∧ K column) :
    ∀ c ∈ (ctx.scan t [] pairs).columns,
      K c.source ∧ ∀ label, c.label = some label → K label := by
  intro c hc
  rw [Context.scan_columns] at hc
  rcases List.mem_flatMap.1 hc with ⟨o, ho, selected⟩
  have first := worded_firsts words o ho
  unfold Context.selected at selected
  split at selected
  · rw [List.mem_singleton.1 selected]
    refine ⟨first.2, fun label written => ?_⟩
    cases written
    exact worded_label labels first.1
  · cases selected

end Scan

theorem worded_scan (labels : ∀ entry ∈ ctx.labels, entry.2 ≠ "" → K entry.2)
    {a : PredicateAtom} {table : Table} (name : K table.name)
    (columns : ∀ column ∈ table.columns, K column)
    (terms : ∀ term ∈ a.terms, term.Worded K C) :
    (ctx.select t.outermost (ctx.scan t [] (a.terms.zip table.columns)).columns
      [.table table.name t.position]
      (ctx.scan t [] (a.terms.zip table.columns)).conditions).Throughout (Expr.Worded K C) := by
  have words : ∀ term column, (term, column) ∈ a.terms.zip table.columns →
      term.Worded K C ∧ K column := by
    intro term column h
    rcases List.of_mem_zip h with ⟨hterm, hcolumn⟩
    exact ⟨terms term hterm, columns column hcolumn⟩
  have source : (Expr.table table.name t.position).Throughout (Expr.Worded K C) :=
    Expr.throughout_leaf rfl name
  refine (Context.throughout_select_iff fun _ => trivial).2
    ⟨?_, List.forall_mem_singleton.2 source, worded_scan_conditions words⟩
  intro c hc
  exact worded_scan_columns labels words c ((Column.sort_perm _).mem_iff.1 hc)

theorem worded_disjunction (labels : ∀ entry ∈ ctx.labels, entry.2 ≠ "" → K entry.2)
    (requested : ∀ x ∈ t.requested.toList, K x.name) {es : List (Expr Position)}
    (each : ∀ e ∈ es, e.Throughout (Expr.Worded K C)) :
    (ctx.disjunction t es).Throughout (Expr.Worded K C) := by
  unfold Context.disjunction
  split
  · have any : (Expr.any es).Throughout (Expr.Worded K C) :=
      Expr.throughout_iff.2 ⟨trivial, each⟩
    exact worded_conditionOr any
  · have union : (Expr.unionAll es).Throughout (Expr.Worded K C) :=
      Expr.throughout_iff.2 ⟨trivial, each⟩
    split
    · have source : (Expr.derived .block (.unionAll es) t.position).Throughout (Expr.Worded K C) :=
        (Context.throughout_derived_iff trivial).2 union
      exact worded_select labels requested (List.forall_mem_singleton.2 source) (by simp)
    · exact union

theorem formula_worded (labels : ∀ entry ∈ ctx.labels, entry.2 ≠ "" → K entry.2) {f : Formula}
    {e : Expr Position} (compiled : ctx.formula t f = .ok e) (fits : t.Fits f)
    (words : f.Worded ctx.schema K C) : e.Throughout (Expr.Worded K C) := by
  -- requested variables are free
  have requested : ∀ {t : Task} {f : Formula}, t.Fits f → f.Worded ctx.schema K C →
      ∀ x ∈ t.requested.toList, K x.name := by
    intro t f fits words x hx
    exact words.name_free (Formula.selectable_subset_free (fits x.toIdent (VarSet.toIdent_mem hx)))
  have truth : ∀ b, (Expr.truth b : Expr Position).Throughout (Expr.Worded K C) :=
    fun b => Expr.throughout_leaf rfl trivial
  refine Context.formula_induction
    (motive := fun t f e => e.Throughout (Expr.Worded K C))
    (I := fun t f => t.Fits f ∧ f.Worded ctx.schema K C)
    ?step ?truth ?comparison ?predicate ?empty ?single ?filter ?join ?alternatives ?negComparison
    ?negNeg ?neg ?exist compiled ⟨fits, words⟩
  case step =>
    rintro t f ⟨fits, words⟩ next below
    exact ⟨fits.subtask below, words.of_atoms fun a ha => .inl (atoms_subtask_subset below ha)⟩
  case truth => exact fun t b inv => worded_conditionOr (truth b)
  case comparison =>
    intro t c inv
    have both := inv.2.atom_terms
    exact worded_conditionOr (worded_comparison (both _ (by simp [Atom.terms]))
      (both _ (by simp [Atom.terms])))
  case predicate =>
    intro t a table inv found
    have names := inv.2.tables a (List.mem_singleton_self _) table (Context.tableFor_ok found).1
    exact worded_scan labels names.1 names.2 inv.2.atom_terms
  case empty => exact fun t c inv => worded_conditionOr (truth _)
  case single => exact fun t c part e inv ih => ih
  case filter =>
    intro t parts conditions inv several complete unjoined some ih
    exact worded_conditionOr (Context.throughout_guarded (fun _ => trivial) ih)
  case join =>
    intro t parts queries conditions inv several complete joined compiled ih ih'
    have conditional : ∀ c ∈ grouped (guarded (t.several parts) (t.conditional parts) conditions),
        c.Throughout (Expr.Worded K C) :=
      (Context.throughout_grouped_iff trivial).2 (Context.throughout_guarded (fun _ => trivial) ih')
    exact worded_select labels (requested inv.1 inv.2)
      (Context.throughout_sources (fun _ _ _ => trivial) ih) conditional
  case alternatives =>
    intro t parts es inv several compiled ih
    refine worded_disjunction labels (requested inv.1 inv.2) fun e he => ?_
    rcases forall₂_exists_left ih he with ⟨entry, -, h⟩
    exact h
  case negComparison =>
    intro t c inv
    have inside : (Formula.atom (.comparison c)).Worded ctx.schema K C :=
      inv.2.of_atoms fun _ => .inl
    have both := inside.atom_terms
    exact worded_conditionOr (worded_comparison (both _ (by simp [Atom.terms, Comparison.negated]))
      (both _ (by simp [Atom.terms, Comparison.negated])))
  case negNeg => exact fun t body e inv ih => worded_conditionOr ih
  case neg =>
    intro t body e layout inv plain positive ih
    have test : (Expr.not layout e).Throughout (Expr.Worded K C) :=
      Expr.throughout_iff.2 ⟨trivial, List.forall_mem_singleton.2 ih⟩
    exact worded_conditionOr test
  case exist => exact fun t vars body e inv compiled ih => ih

end Parts

theorem compile_worded {schema : Schema} {labels : Labels} {distinct : Bool} {f : Formula}
    {e : Expr Nat} (compiled : compile schema labels distinct f = .ok e)
    (named : ∀ entry ∈ labels, entry.2 ≠ "" → K entry.2) (words : f.Worded schema K C) :
    e.Throughout (Expr.Worded K C) := by
  rcases compile_ok compiled with ⟨e', fits, inside, rfl⟩
  refine Expr.throughout_map_iff.2 fun s occurs => worded_map ?_
  exact formula_worded named inside fits words.prepared s occurs

end Sql
end QueryCalculus
