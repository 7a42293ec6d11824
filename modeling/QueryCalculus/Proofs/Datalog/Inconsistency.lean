import QueryCalculus.Proofs.Cube.Satisfiability
import QueryCalculus.Proofs.Datalog.Typing

/-!
# Inconsistent queries

- `Query.withoutBlanks` : the query without the atoms that have a blank
- `Query.isInconsistent_iff` : a query is reported if it is unsatisfiable with one value for all its
  blanks
- `Query.unsatisfiableApart_iff` : it is unsatisfiable with independent blanks if the query without
  blanks is reported
- `Query.unsatisfiable_iff_reported` : which reports are right

A blank has no value that a comparison could contradict, unless it is taken for the same variable as
another blank.
-/

namespace QueryCalculus

universe u

variable {D : Type u} {M : Interpretation D} {v : Valuation D}

/-! ## Atoms with and without blanks -/

def Term.isBlank : Term → Bool
  | .var x => x.isBlank
  | .const _ => false

def Atom.hasBlank (a : Atom) : Bool :=
  a.terms.any Term.isBlank

theorem Term.denotes_of_isBlank {t : Term} (blank : t.isBlank = true) (d : D) :
    t.Denotes M v d := by
  cases t with
  | var x => exact .inl ⟨x, rfl, blank⟩
  | const c => cases blank

theorem Term.denotes_value (t : Term) : t.Denotes M v (t.value M v) :=
  .inr rfl

theorem Term.value_eq_of_denotes {t : Term} (named : t.isBlank = false) {d : D}
    (denotes : t.Denotes M v d) : t.value M v = d := by
  refine (Formula.denotes_iff ?_).1 denotes
  rintro y rfl
  exact named

/-- A blank may take the value that it has as an ordinary variable. -/
theorem Atom.holdsApart_of_holds {a : Atom} (holds : a.Holds M v) : a.HoldsApart M v := by
  cases a with
  | truth b => exact holds
  | predicate a =>
    refine ⟨_, holds, List.forall₂_map_right_iff.2 (List.forall₂_same.2 fun t _ => ?_)⟩
    exact t.denotes_value
  | comparison c => exact ⟨_, _, c.left.denotes_value, c.right.denotes_value, holds⟩

theorem Atom.holds_of_holdsApart {a : Atom} (named : a.hasBlank = false)
    (holds : a.HoldsApart M v) : a.Holds M v := by
  have sides : ∀ t ∈ a.terms, t.isBlank = false := by
    simpa [Atom.hasBlank] using named
  cases a with
  | truth b => exact holds
  | predicate a =>
    obtain ⟨row, holds, denotes⟩ := holds
    -- a term that is no blank denotes its value only
    have values : a.terms.map (Term.value M v) = row := by
      rw [← List.forall₂_eq_eq_eq, List.forall₂_map_left_iff]
      refine List.forall₂_iff_zip.2 ⟨denotes.length_eq, fun {t d} there => ?_⟩
      exact Term.value_eq_of_denotes (sides t (List.of_mem_zip there).1)
        (List.forall₂_iff_zip.1 denotes |>.2 there)
    rwa [Atom.Holds, PredicateAtom.Holds, values]
  | comparison c =>
    obtain ⟨d, e, left, right, relates⟩ := holds
    rw [Atom.Holds, Comparison.Holds,
      Term.value_eq_of_denotes (sides c.left (by simp [Atom.terms])) left,
      Term.value_eq_of_denotes (sides c.right (by simp [Atom.terms])) right]
    exact relates

/-- With two elements there is always one that stands in a given relation. -/
theorem Interpretation.UniqueNames.exists_relates (names : M.UniqueNames) (r : Relation) (e : D) :
    ∃ d, r.Relates d e := by
  cases r with
  | equal => exact ⟨e, rfl⟩
  | different =>
    by_cases same : M.object "" = e
    · exact ⟨M.data "", fun same' => names.apart "" "" (same.trans same'.symm)⟩
    · exact ⟨M.object "", same⟩

theorem Comparison.holdsApart_of_hasBlank (names : M.UniqueNames) {c : Comparison}
    (blank : (Atom.comparison c).hasBlank = true) : c.HoldsApart M v := by
  simp only [Atom.hasBlank, Atom.terms, List.any_cons, List.any_nil, Bool.or_false,
    Bool.or_eq_true] at blank
  rcases blank with left | right
  · obtain ⟨d, relates⟩ := names.exists_relates c.relation (c.right.value M v)
    exact ⟨d, _, Term.denotes_of_isBlank left d, c.right.denotes_value, relates⟩
  · obtain ⟨e, relates⟩ := names.exists_relates c.relation (c.left.value M v)
    exact ⟨_, e, c.left.denotes_value, Term.denotes_of_isBlank right e,
      Formula.relates_comm.1 relates⟩

namespace Datalog
namespace Query

variable {q : Query}

/-! ## Bodies -/

theorem holds_body_iff : q.body.Holds M v ↔ ∀ a ∈ q.atoms, a.Holds M v := by
  refine (Formula.allHoldBy_iff _).trans ?_
  simp [Formula.HoldsBy]

theorem holdsApart_body_iff : q.body.HoldsApart M v ↔ ∀ a ∈ q.atoms, a.HoldsApart M v := by
  refine (Formula.allHoldBy_iff _).trans ?_
  simp [Formula.HoldsBy]

theorem not_holds_of_isInconsistent (reported : q.isInconsistent = true) (names : M.UniqueNames) :
    ¬ ∀ a ∈ q.atoms, a.Holds M v := by
  intro holds
  have consistent : q.isInconsistent = false :=
    Cube.isContradiction_eq_false names (Cube.holds_ofAtoms_iff.2 holds)
  simp [consistent] at reported

/-- For a report it is enough to look at interpretations in which all predicates are true. -/
theorem isInconsistent_of_not_holds
    (fails : ∀ (D : Type u) (M : Interpretation D) (v : Valuation D), M.UniqueNames →
      (∀ predicate row, M.relation predicate row) → ¬ ∀ a ∈ q.atoms, a.Holds M v) :
    q.isInconsistent = true := by
  refine Cube.isContradiction_of_not_holds fun D M v names all holds => ?_
  exact fails D M v names all (Cube.holds_ofAtoms_iff.1 holds)

theorem isInconsistent_iff : q.isInconsistent = true ↔ q.body.Unsatisfiable.{u} := by
  constructor
  · intro reported D M v names holds
    exact not_holds_of_isInconsistent reported names (holds_body_iff.1 holds)
  · intro unsatisfiable
    refine isInconsistent_of_not_holds fun D M v names _ holds => ?_
    exact unsatisfiable D M v names (holds_body_iff.2 holds)

/-! ## Independent blanks -/

/-- The query without the atoms that have a blank. -/
def withoutBlanks (q : Query) : Query :=
  { q with atoms := q.atoms.filter fun a => !a.hasBlank }

theorem mem_withoutBlanks {a : Atom} :
    a ∈ q.withoutBlanks.atoms ↔ a ∈ q.atoms ∧ a.hasBlank = false := by
  simp [withoutBlanks]

/-- Comparisons with a blank are true for some value of the blank, so they cannot contradict the
other atoms. -/
theorem unsatisfiableApart_iff :
    q.body.UnsatisfiableApart.{u} ↔ q.withoutBlanks.isInconsistent = true := by
  constructor
  · intro unsatisfiable
    refine isInconsistent_of_not_holds fun D M v names all holds => ?_
    refine unsatisfiable D M v names (holdsApart_body_iff.2 fun a ha => ?_)
    -- atoms without blanks are true by assumption, the others whatever they say
    cases blank : a.hasBlank with
    | false => exact a.holdsApart_of_holds (holds a (mem_withoutBlanks.2 ⟨ha, blank⟩))
    | true =>
      cases a with
      | truth b => cases blank
      | predicate a => exact Atom.holdsApart_of_holds (all _ _)
      | comparison c => exact c.holdsApart_of_hasBlank names blank
  · intro reported D M v names holds
    rw [holdsApart_body_iff] at holds
    refine not_holds_of_isInconsistent (v := v) reported names fun a ha => ?_
    obtain ⟨ha, named⟩ := mem_withoutBlanks.1 ha
    exact a.holds_of_holdsApart named (holds a ha)

theorem isInconsistent_of_unsatisfiableApart (unsatisfiable : q.body.UnsatisfiableApart.{u}) :
    q.isInconsistent = true := by
  refine isInconsistent_iff.{u}.2 fun D M v names holds => unsatisfiable D M v names ?_
  rw [holds_body_iff] at holds
  exact holdsApart_body_iff.2 fun a ha => a.holdsApart_of_holds (holds a ha)

/-- Atoms that are no comparisons have no part in a contradiction. -/
theorem withoutBlanks_isInconsistent
    (named : ∀ c, .comparison c ∈ q.atoms → (Atom.comparison c).hasBlank = false)
    (reported : q.isInconsistent = true) : q.withoutBlanks.isInconsistent = true := by
  refine isInconsistent_of_not_holds.{0} fun D M v names all holds => ?_
  refine not_holds_of_isInconsistent (v := v) reported names fun a ha => ?_
  cases a with
  | truth b => exact holds _ (mem_withoutBlanks.2 ⟨ha, rfl⟩)
  | predicate a =>
    -- an atom that was left out, or not, is true with all predicates
    exact all _ _
  | comparison c => exact holds _ (mem_withoutBlanks.2 ⟨ha, named c ha⟩)

/-- A query is reported as inconsistent just if no interpretation and no valuation make its body
true with one value for all blanks. With independent blanks this is so just if already the query
without blanks is reported: every such query is reported, and all reports are right if no comparison
has a blank. -/
theorem unsatisfiable_iff_reported (q : Query) :
    (q.isInconsistent = true ↔ q.body.Unsatisfiable.{u}) ∧
    (q.body.UnsatisfiableApart.{u} ↔ q.withoutBlanks.isInconsistent = true) ∧
    (q.body.UnsatisfiableApart.{u} → q.isInconsistent = true) ∧
    ((∀ c, .comparison c ∈ q.atoms → (Atom.comparison c).hasBlank = false) →
      q.isInconsistent = true → q.body.UnsatisfiableApart.{u}) := by
  refine ⟨isInconsistent_iff, unsatisfiableApart_iff, isInconsistent_of_unsatisfiableApart, ?_⟩
  intro named reported
  exact unsatisfiableApart_iff.2 (withoutBlanks_isInconsistent named reported)

/-- Two variables that are equal to some values of their own may differ, but are reported. -/
theorem sharedBlank_reported :
    ∃ q, parse none 0 "Q() :- R(x, y), x = _, y = _, x != y ." = .ok q ∧
      q.isInconsistent = true ∧ ¬ q.body.UnsatisfiableApart.{0} := by
  have found : (parse none 0 "Q() :- R(x, y), x = _, y = _, x != y .").toOption.map
      (fun q => (q.isInconsistent, q.withoutBlanks.isInconsistent)) = some (true, false) := by
    decide +kernel
  obtain ⟨q, read, answers⟩ := exists_ok_of_map found
  obtain ⟨reported, consistent⟩ := Prod.mk.inj answers
  exact ⟨q, read, reported, fun unsatisfiable =>
    absurd (unsatisfiableApart_iff.1 unsatisfiable) (by simp [consistent])⟩

end Query
end Datalog
end QueryCalculus
