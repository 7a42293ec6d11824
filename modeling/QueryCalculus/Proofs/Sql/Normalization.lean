import QueryCalculus.Proofs.Datalog.HeadVariables
import QueryCalculus.Proofs.Sql.Projection
import QueryCalculus.Settings

/-!
# Normalization and columns

- `Settings.mem_free_of_normalize`, `Settings.anchored_normalize` : what normalization does to the
  variables of a formula
- `Settings.columns_iff` : the columns of the statement for a normalized formula

A normal form may have fewer free variables than the formula it is made from, and a statement has a
column for each of these. At the end it is said which columns there are, for formulas and for
queries.
-/

namespace QueryCalculus

open Formula

namespace Settings

variable {s : Settings} {f : Formula}

/-! ## Normalization under settings -/

theorem mem_free_of_normalize {x : Ident} (hx : x ∈ (s.normalize f).free) : x ∈ f.free := by
  unfold normalize at hx
  split at hx
  · exact mem_free_flatten.1 (mem_free_of_optimize hx)
  · exact mem_free_flatten.1 hx

theorem mem_atoms_of_normalize {a : Atom} (ha : a ∈ (s.normalize f).atoms) :
    a ∈ f.atoms ∨ a = .truth true := by
  unfold normalize at ha
  split at ha
  · exact (mem_atoms_of_optimize ha).elim mem_atoms_of_flatten .inr
  · exact mem_atoms_of_flatten ha

theorem anchored_normalize {x : Ident} (h : Anchored x f) : Anchored x (s.normalize f) := by
  have flat := simplifying_anchored.flatten f x h
  unfold normalize
  split
  · exact simplifying_anchored.optimize _ x flat
  · exact flat

/-! ## Columns -/

/-- The statement that is emitted, with its columns. -/
theorem sql_ok {schema : Schema} {text : String} (emitted : s.sql schema f = .ok text) :
    ∃ columns sources conditions limitOne,
      Sql.compile schema (s.labels (s.normalize f)) s.distinct (s.normalize f) =
        .ok (.select s.distinct columns sources conditions limitOne) ∧
      text = (Sql.Expr.select s.distinct columns sources conditions limitOne).render ∧
      (columns.map fun c => c.carries.toIdent).Nodup ∧
      ∀ x, (x ∈ columns.map fun c => c.carries.toIdent) ↔ Lasting x (s.normalize f) := by
  simp only [sql, Sql.compileText] at emitted
  cases compiled : Sql.compile schema (s.labels (s.normalize f)) s.distinct (s.normalize f) with
  | error e =>
    rw [compiled] at emitted
    cases emitted
  | ok e =>
    rw [compiled] at emitted
    cases emitted
    rcases Sql.compile_select compiled with ⟨columns, sources, conditions, rfl, offers, -⟩
    refine ⟨columns, sources, conditions, _, rfl, rfl, ?_, fun x => ?_⟩
    · exact offers.carries.nodup_iff.2 (VarSet.nodup_idents _)
    · rw [offers.carries.mem_iff]
      exact mem_free_prepared

/-- What is selected occurs in a predicate atom of the formula. -/
theorem exists_atom_of_lasting {schema : Schema} {labels : Sql.Labels} {distinct : Bool}
    {e : Sql.Expr Nat} (compiled : Sql.compile schema labels distinct (s.normalize f) = .ok e)
    {x : Ident} (hx : Lasting x (s.normalize f)) :
    ∃ a, Atom.predicate a ∈ f.atoms ∧ x ∈ (Formula.predicate a).free := by
  rcases Sql.compile_ok compiled with ⟨-, fits, -, -⟩
  rcases exists_atom_of_mem_selectable (fits x (mem_free_prepared.2 hx)) with ⟨a, ha, hx⟩
  -- the normal form and its prepared form have no predicate atoms of their own
  have normal : Atom.predicate a ∈ (s.normalize f).atoms :=
    (mem_atoms_of_prepared ha).resolve_right (by simp)
  exact ⟨a, (mem_atoms_of_normalize normal).resolve_right (by simp), hx⟩

/-- Every column of an emitted statement is for a different free variable of the formula. There is
one for all of them just if none is lost in the normal form. The variables of the predicate atoms
that are reached through conjunctions and quantifiers are never lost. The statement for a query has
the head variables as its columns just if each of them occurs in a predicate atom. -/
theorem columns_iff {schema : Schema} {text : String} (emitted : s.sql schema f = .ok text) :
    ∃ columns sources conditions limitOne,
      Sql.compile schema (s.labels (s.normalize f)) s.distinct (s.normalize f) =
        .ok (.select s.distinct columns sources conditions limitOne) ∧
      text = (Sql.Expr.select s.distinct columns sources conditions limitOne).render ∧
      (columns.map fun c => c.carries.toIdent).Nodup ∧
      (∀ c ∈ columns, c.carries.toIdent ∈ f.free) ∧
      ((columns.map fun c => c.carries.toIdent).Perm f.free.idents ↔
        ∀ x : Ident, x ∈ f.free → Lasting x (s.normalize f)) ∧
      (∀ x, Anchored x f → ∃ c ∈ columns, c.carries.toIdent = x) ∧
      ∀ check signature scope source query,
        Datalog.Query.parse signature scope source check = .ok query →
        f = query.toFormula →
        f.free.idents.Perm (query.head.map Variable.toIdent).dedup ∧
        ((columns.map fun c => c.carries.toIdent).Perm (query.head.map Variable.toIdent).dedup ↔
          ∀ x ∈ query.head, ∃ a, Atom.predicate a ∈ query.atoms ∧
            x.toIdent ∈ (Formula.predicate a).free) := by
  rcases sql_ok emitted with
    ⟨columns, sources, conditions, limitOne, compiled, rendered, nodup, listed⟩
  have free : ∀ x, (x ∈ columns.map fun c => c.carries.toIdent) → x ∈ f.free :=
    fun x hx => mem_free_of_normalize ((listed x).1 hx).mem_free
  refine ⟨columns, sources, conditions, limitOne, compiled, rendered, nodup, ?free, ?formula,
    ?anchored, ?query⟩
  case free => exact fun c hc => free _ (List.mem_map_of_mem hc)
  case formula =>
    rw [List.perm_ext_iff_of_nodup nodup (VarSet.nodup_idents _)]
    constructor
    · intro same x hx
      exact (listed x).1 ((same x).2 hx)
    · intro lasting x
      exact ⟨free x, fun hx => (listed x).2 (lasting x hx)⟩
  case anchored =>
    intro x hx
    exact List.mem_map.1 ((listed x).2 (anchored_normalize hx).lasting)
  case query =>
    rintro check signature scope source query read rfl
    refine ⟨Datalog.Query.free_toFormula_perm read, ?_⟩
    rw [List.perm_ext_iff_of_nodup nodup (List.nodup_dedup _)]
    simp only [List.mem_dedup]
    constructor
    · intro same x hx
      have lasting := (listed _).1 ((same x.toIdent).2 (List.mem_map_of_mem hx))
      simpa [Datalog.Query.atoms_toFormula] using exists_atom_of_lasting compiled lasting
    · intro occur x
      constructor
      · exact fun hx => (Datalog.Query.mem_free_toFormula.1 (free x hx)).2
      · intro hx
        rcases List.mem_map.1 hx with ⟨y, hy, rfl⟩
        rcases occur y hy with ⟨a, ha, inside⟩
        have anchored := Datalog.Query.anchored_toFormula hx ha inside
        exact (listed _).2 (anchored_normalize anchored).lasting

/-- `(A(x) ∧ x ≠ x) ∨ (B(x) ∧ x ≠ x)` -/
def impossible : Formula :=
  .junction .or [
    .junction .and [.predicate ⟨"A", [.var ⟨⟨"x", none⟩, .undefined⟩], .undefined⟩,
      .atom (.comparison
        ⟨.different, .var ⟨⟨"x", none⟩, .undefined⟩, .var ⟨⟨"x", none⟩, .undefined⟩⟩)],
    .junction .and [.predicate ⟨"B", [.var ⟨⟨"x", none⟩, .undefined⟩], .undefined⟩,
      .atom (.comparison
        ⟨.different, .var ⟨⟨"x", none⟩, .undefined⟩, .var ⟨⟨"x", none⟩, .undefined⟩⟩)]]

/-- Without simplification there is a column for `x`. -/
theorem impossible_columns :
    ∃ text columns sources conditions limitOne,
      Settings.sql { optimize := false } ⟨[⟨"A", ["a"]⟩, ⟨"B", ["b"]⟩], []⟩ impossible = .ok text ∧
      text = (Sql.Expr.select true columns sources conditions limitOne).render ∧
      (columns.map fun c => c.carries.toIdent).Perm [⟨"x", none⟩] := by
  have emitted : Settings.sql { optimize := false } ⟨[⟨"A", ["a"]⟩, ⟨"B", ["b"]⟩], []⟩ impossible =
      .ok _ := rfl
  rcases columns_iff emitted with
    ⟨columns, sources, conditions, limitOne, -, rendered, -, -, complete, -⟩
  have lasting : ∀ x : Ident, x ∈ impossible.free →
      Lasting x (({ optimize := false } : Settings).normalize impossible) := by
    intro x hx
    exact mem_free_prepared.1 hx
  exact ⟨_, columns, sources, conditions, limitOne, emitted, rendered, complete.2 lasting⟩

/-- Both disjuncts are evident contradictions, so the normal form is false and has no variables. -/
theorem impossible_loses_column :
    Settings.sql {} ⟨[⟨"A", ["a"]⟩, ⟨"B", ["b"]⟩], []⟩ impossible =
      .ok "SELECT DISTINCT 1 WHERE FALSE\nLIMIT 1" ∧
    (∃ sources conditions,
      Sql.compile ⟨[⟨"A", ["a"]⟩, ⟨"B", ["b"]⟩], []⟩ [] true
        (({} : Settings).normalize impossible) = .ok (.select true [] sources conditions true)) ∧
    impossible.free.idents = [⟨"x", none⟩] :=
  ⟨rfl, ⟨_, _, rfl⟩, rfl⟩

end Settings
end QueryCalculus
