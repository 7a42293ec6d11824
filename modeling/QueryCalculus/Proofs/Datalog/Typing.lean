import QueryCalculus.Datalog.Parser
import QueryCalculus.Proofs.Computations
import QueryCalculus.Proofs.Formula.FreeVariables

/-!
# Types of variables in queries

- `Term.untyped` : a term without the type of its variable
- `classify_ok` : checking terms against a kind changes nothing but types
- `Query.inferred` : the atoms of a body after type inference
- `Query.OccursIn`, `Query.ofParts_ok_iff` : which heads and atoms make a query
-/

namespace QueryCalculus

/-! ## Terms without types -/

/-- The term without the type of its variable. -/
def Term.untyped : Term → Term
  | .var x => .var (x.withType .undefined)
  | .const c => .const c

@[simp] theorem Term.text_untyped (t : Term) : t.untyped.text = t.text := by
  cases t <;> rfl

theorem map_text_of_untyped {terms fitted : List Term}
    (same : fitted.map Term.untyped = terms.map Term.untyped) :
    fitted.map Term.text = terms.map Term.text := by
  simpa [Function.comp_def] using congrArg (List.map Term.text) same

theorem Term.eq_var_of_untyped {t : Term} {y : Variable} (same : t.untyped = (Term.var y).untyped) :
    ∃ x, t = .var x ∧ x.toIdent = y.toIdent := by
  cases t with
  | const c => cases same
  | var x =>
    have inside : x.withType .undefined = y.withType .undefined := Term.var.inj same
    have idents : (x.withType .undefined).toIdent = (y.withType .undefined).toIdent := by
      rw [inside]
    exact ⟨x, rfl, idents⟩

theorem Term.eq_const_of_untyped {t : Term} {c : Constant}
    (same : t.untyped = (Term.const c).untyped) : t = .const c := by
  cases t with
  | var x => cases same
  | const d => exact same

theorem exists_var_of_untyped {terms fitted : List Term}
    (same : fitted.map Term.untyped = terms.map Term.untyped) {y : Variable}
    (hy : .var y ∈ fitted) : ∃ x, .var x ∈ terms ∧ x.toIdent = y.toIdent := by
  have listed : (Term.var y).untyped ∈ terms.map Term.untyped :=
    same ▸ List.mem_map_of_mem hy
  rcases List.mem_map.1 listed with ⟨t, ht, htype⟩
  rcases Term.eq_var_of_untyped htype with ⟨x, rfl, hx⟩
  exact ⟨x, ht, hx⟩

/-! ## Fitting terms to a kind -/

theorem fitTerm_var_ok_iff {predicate : String} {expected : TermType} {x : Variable} {u : Term} :
    fitTerm predicate expected (.var x) = .ok u ↔ x.isBlank = true ∧ u = .var x ∨
      x.isBlank = false ∧ (x.type = .undefined ∨ x.type = expected) ∧
        u = .var (x.withType expected) := by
  have kept : x.type = expected → x.withType expected = x := by
    rintro rfl
    rfl
  unfold fitTerm
  grind

theorem fitTerm_const_ok_iff {predicate : String} {expected : TermType} {c : Constant} {u : Term} :
    fitTerm predicate expected (.const c) = .ok u ↔ c.type = expected ∧ u = .const c := by
  unfold fitTerm
  grind

theorem fitEach_cons_ok_iff {predicate : String} {expected : TermType} {types : List TermType}
    {term : Term} {terms fitted : List Term} :
    fitEach predicate (expected :: types) (term :: terms) = .ok fitted ↔
      ∃ u us, fitTerm predicate expected term = .ok u ∧ fitEach predicate types terms = .ok us ∧
        fitted = u :: us := by
  rw [fitEach]
  cases fitTerm predicate expected term with
  | error e => exact ⟨nofun, nofun⟩
  | ok u =>
    cases fitEach predicate types terms with
    | error e => exact ⟨nofun, nofun⟩
    | ok us =>
      constructor
      · rintro ⟨⟩
        exact ⟨u, us, rfl, rfl, rfl⟩
      · rintro ⟨_, _, ⟨⟩, ⟨⟩, rfl⟩
        rfl

theorem fitTerm_untyped {predicate : String} {expected : TermType} {t u : Term}
    (fit : fitTerm predicate expected t = .ok u) : u.untyped = t.untyped := by
  cases t with
  | var x =>
    rcases fitTerm_var_ok_iff.1 fit with ⟨-, rfl⟩ | ⟨-, -, rfl⟩
    · rfl
    · rfl
  | const c =>
    rcases fitTerm_const_ok_iff.1 fit with ⟨-, rfl⟩
    rfl

theorem fitEach_untyped {predicate : String} {types : List TermType} {terms fitted : List Term}
    (fit : fitEach predicate types terms = .ok fitted) :
    fitted.map Term.untyped = terms.map Term.untyped := by
  induction types generalizing terms fitted with
  | nil =>
    cases fit
    rfl
  | cons expected types ih =>
    cases terms with
    | nil =>
      cases fit
      rfl
    | cons term terms =>
      rcases fitEach_cons_ok_iff.1 fit with ⟨u, us, first, others, rfl⟩
      rw [List.map_cons, List.map_cons, fitTerm_untyped first, ih others]

theorem fitTerms_ok_iff {predicate : String} {kind : PredicateKind} {terms fitted : List Term} :
    fitTerms predicate kind terms = .ok fitted ↔ kind.types? = none ∧ fitted = terms ∨
      ∃ types, kind.types? = some types ∧ terms.length = types.length ∧
        fitEach predicate types terms = .ok fitted := by
  unfold fitTerms
  cases kind.types? with
  | none => simp [eq_comm]
  | some types => by_cases fits : terms.length = types.length <;> simp [fits]

theorem ofKind_ok_iff {predicate : String} {kind : PredicateKind} {terms : List Term}
    {a : PredicateAtom} :
    PredicateAtom.ofKind predicate terms kind = .ok a ↔
      a.predicate = predicate ∧ a.kind = kind ∧ fitTerms predicate kind terms = .ok a.terms := by
  unfold PredicateAtom.ofKind
  cases fitTerms predicate kind terms with
  | error e => exact ⟨nofun, nofun⟩
  | ok fitted =>
    constructor
    · rintro ⟨⟩
      exact ⟨rfl, rfl, rfl⟩
    · rcases a with ⟨name, terms, kind⟩
      rintro ⟨rfl, rfl, ⟨⟩⟩
      rfl

theorem ofKind_untyped {predicate : String} {kind : PredicateKind} {terms : List Term}
    {a : PredicateAtom} (fit : PredicateAtom.ofKind predicate terms kind = .ok a) :
    a.predicate = predicate ∧ a.terms.map Term.untyped = terms.map Term.untyped := by
  rcases ofKind_ok_iff.1 fit with ⟨named, -, fitted⟩
  refine ⟨named, ?_⟩
  rcases fitTerms_ok_iff.1 fitted with ⟨-, same⟩ | ⟨types, -, -, each⟩
  · rw [same]
  · exact fitEach_untyped each

namespace Datalog

theorem classify_none_ok_iff {predicate : String} {terms : List Term} {a : PredicateAtom} :
    classify none predicate terms = .ok a ↔ PredicateAtom.classified predicate terms = .ok a :=
  mapError_ok_iff

/-- With or without a signature the terms are checked against some kind. -/
theorem ofKind_of_classify {signature : Option Signature} {predicate : String} {terms : List Term}
    {a : PredicateAtom} (fit : classify signature predicate terms = .ok a) :
    ∃ kind, PredicateAtom.ofKind predicate terms kind = .ok a := by
  cases signature with
  | none => exact ⟨_, classify_none_ok_iff.1 fit⟩
  | some σ =>
    unfold classify at fit
    cases found : σ.kind? predicate with
    | none =>
      simp only [found] at fit
      cases fit
    | some kind =>
      simp only [found, mapError_ok_iff] at fit
      exact ⟨kind, fit⟩

theorem classify_untyped {signature : Option Signature} {predicate : String} {terms : List Term}
    {a : PredicateAtom} (fit : classify signature predicate terms = .ok a) :
    a.predicate = predicate ∧ a.terms.map Term.untyped = terms.map Term.untyped := by
  rcases ofKind_of_classify fit with ⟨kind, fit⟩
  exact ofKind_untyped fit

namespace Query

/-! ## Bodies -/

theorem atoms_conjunction (atoms : List Atom) :
    (Formula.junction .and (atoms.map .atom)).atoms = atoms := by
  rw [Formula.atoms, Formula.atomsAll_eq_flatMap, List.flatMap_map]
  exact List.flatMap_singleton' atoms

/-- Gives a variable the type of its first typed occurrence. -/
def inferredTerm (occurrences : List Variable) : Term → Term
  | .var x => .var (x.withType ((Formula.firstType? occurrences x).getD x.type))
  | .const c => .const c

/-- The atoms after type inference. -/
def inferred (atoms : List Atom) : List Atom :=
  atoms.map (Atom.mapTerms (inferredTerm (variablesOf (atoms.flatMap Atom.terms))))

theorem inferTypes_conjunction (atoms : List Atom) :
    (Formula.junction .and (atoms.map .atom)).inferTypes =
      .junction .and ((inferred atoms).map .atom) := by
  have same : (Formula.junction .and (atoms.map .atom)).inferTypes =
      (Formula.junction .and (atoms.map .atom)).mapTerms
        (inferredTerm (variablesOf (atoms.flatMap Atom.terms))) := by
    rw [Formula.inferTypes, Formula.terms, atoms_conjunction]
    congr
  rw [same, Formula.mapTerms, Formula.mapTermsAll_eq_map, List.map_map, inferred, List.map_map]
  rfl

theorem inferredTerm_untyped (occurrences : List Variable) (t : Term) :
    (inferredTerm occurrences t).untyped = t.untyped := by
  cases t <;> rfl

theorem map_inferredTerm_untyped (occurrences : List Variable) (terms : List Term) :
    (terms.map (inferredTerm occurrences)).map Term.untyped = terms.map Term.untyped := by
  rw [List.map_map]
  exact List.map_congr_left fun t _ => inferredTerm_untyped occurrences t

/-- The variable is not blank, and an atom holds it. -/
def OccursIn (x : Variable) (atoms : List Atom) : Prop :=
  x.isBlank = false ∧ ∃ a ∈ atoms, ∃ y : Variable, .var y ∈ a.terms ∧ y.toIdent = x.toIdent

theorem isBlank_congr {x y : Variable} (same : x.toIdent = y.toIdent) : x.isBlank = y.isBlank := by
  unfold Variable.isBlank
  rw [same]

theorem mem_free_conjunction_iff {atoms : List Atom} {x : Variable} :
    x.toIdent ∈ (Formula.junction .and (atoms.map .atom)).free ↔ OccursIn x atoms := by
  rw [Formula.mem_free_junction]
  constructor
  · rintro ⟨f, hf, hx⟩
    rcases List.mem_map.1 hf with ⟨a, ha, rfl⟩
    rcases Formula.mem_free_atom.1 hx with ⟨y, hy, named, same⟩
    exact ⟨isBlank_congr same ▸ named, a, ha, y, hy, same⟩
  · rintro ⟨named, a, ha, y, hy, same⟩
    refine ⟨.atom a, List.mem_map_of_mem ha, Formula.mem_free_atom.2 ⟨y, hy, ?_, same⟩⟩
    rw [isBlank_congr same, named]

theorem occursIn_inferred_iff {atoms : List Atom} {x : Variable} :
    OccursIn x (inferred atoms) ↔ OccursIn x atoms := by
  have untyped (a : Atom) :=
    map_inferredTerm_untyped (variablesOf (atoms.flatMap Atom.terms)) a.terms
  refine and_congr Iff.rfl ?_
  constructor
  · rintro ⟨_, ha, y, hy, same⟩
    rcases List.mem_map.1 ha with ⟨a, ha', rfl⟩
    rw [Atom.terms_mapTerms] at hy
    rcases exists_var_of_untyped (untyped a) hy with ⟨z, hz, same'⟩
    exact ⟨a, ha', z, hz, same'.trans same⟩
  · rintro ⟨a, ha, y, hy, same⟩
    rcases exists_var_of_untyped (untyped a).symm hy with ⟨z, hz, same'⟩
    rw [← Atom.terms_mapTerms] at hz
    exact ⟨_, List.mem_map_of_mem ha, z, hz, same'.trans same⟩

theorem ofParts_ok_iff {scope : Nat} {head : List Variable} {atoms : List Atom} {q : Query} :
    ofParts scope head atoms = .ok q ↔
      (∀ x ∈ head, OccursIn x atoms) ∧ q = { head, atoms := inferred atoms, scope } := by
  have bound : (∀ x ∈ head, OccursIn x atoms) ↔ head.find?
      (!(Formula.junction .and ((inferred atoms).map .atom)).free.contains ·) = none := by
    rw [List.find?_eq_none]
    refine forall₂_congr fun x _ => ?_
    rw [← occursIn_inferred_iff, ← mem_free_conjunction_iff, ← VarSet.contains_iff]
    simp
  rw [bound]
  simp only [ofParts, inferTypes_conjunction, atoms_conjunction]
  split
  · rename_i x found
    simp [found]
  · rename_i found
    simp [found, eq_comm]

end Query
end Datalog
end QueryCalculus
