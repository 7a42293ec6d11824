import Mathlib.Data.List.Zip
import QueryCalculus.Proofs.Datalog.Grammar

/-!
# Kinds of the atoms of a query

- `PredicateAtom.Conforms`, `PredicateAtom.Respects` : what the kind of an atom asks of its terms
- `demands` : the variables in positions for which a kind requires a type, with this type
- `AtomPhrase.typedOccurrences_eq` : before type inference a variable is typed just where its type
  is demanded
- `type_inferred` : afterwards a variable has everywhere the type of the first demand
- `Query.parse_respects_iff` : when the atoms of a query that was read respect their kinds

A variable may be demanded as an object at one place and as a value at another one. Type inference
then decides for the first of them.
-/

namespace QueryCalculus

/-! ## Constraints of kinds -/

/-- The term has the given type, or is a blank. -/
def Term.Fits (t : Term) (type : TermType) : Prop :=
  (∃ x, t = .var x ∧ x.isBlank = true) ∨ t.type = type

namespace PredicateAtom

/-- The atom has as many terms as its kind takes, each of which fits the type of its position. -/
def Conforms (fits : Term → TermType → Prop) (a : PredicateAtom) : Prop :=
  match a.kind with
  | .undefined => True
  | .concept => ∃ s, a.terms = [s] ∧ fits s .object
  | .role => ∃ s t, a.terms = [s, t] ∧ fits s .object ∧ fits t .object
  | .attribute => ∃ s t, a.terms = [s, t] ∧ fits s .object ∧ fits t .data

/-- The constraints that a kind puts on the terms of its atoms. -/
def Respects (a : PredicateAtom) : Prop :=
  a.Conforms Term.Fits

/-- The terms in positions for which the kind requires a type, with this type. -/
def positions (a : PredicateAtom) : List (Term × TermType) :=
  a.terms.zip (a.kind.types?.getD [])

theorem conforms_iff {fits : Term → TermType → Prop} {a : PredicateAtom} :
    a.Conforms fits ↔ (∀ types, a.kind.types? = some types → a.terms.length = types.length) ∧
      ∀ p ∈ a.positions, fits p.1 p.2 := by
  rcases a with ⟨name, terms, kind⟩
  cases kind with
  | undefined => simp [Conforms, positions, PredicateKind.types?]
  | concept =>
    rcases terms with _ | ⟨s, _ | ⟨t, terms⟩⟩ <;>
      simp [Conforms, positions, PredicateKind.types?]
  | role =>
    rcases terms with _ | ⟨s, _ | ⟨t, _ | ⟨u, terms⟩⟩⟩ <;>
      simp [Conforms, positions, PredicateKind.types?]
  | «attribute» =>
    rcases terms with _ | ⟨s, _ | ⟨t, _ | ⟨u, terms⟩⟩⟩ <;>
      simp [Conforms, positions, PredicateKind.types?]

theorem positions_mapTerms (h : Term → Term) (a : PredicateAtom) :
    positions { a with terms := a.terms.map h } = a.positions.map (Prod.map h id) :=
  List.zip_map_left

theorem conforms_mono {fits fits' : Term → TermType → Prop} {a : PredicateAtom}
    (h : a.Conforms fits) (imp : ∀ p ∈ a.positions, fits p.1 p.2 → fits' p.1 p.2) :
    a.Conforms fits' := by
  rw [conforms_iff] at h ⊢
  exact ⟨h.1, fun p hp => imp p hp (h.2 p hp)⟩

end PredicateAtom

/-- Only attributes take values, as their second term. -/
theorem PredicateAtom.second_of_position {a : PredicateAtom} {t : Term}
    (h : (t, .data) ∈ a.positions) :
    a.kind = .attribute ∧ ∃ s others, a.terms = s :: t :: others := by
  rcases a with ⟨name, terms, kind⟩
  cases kind with
  | undefined => simp [positions, PredicateKind.types?] at h
  | concept => rcases terms with _ | ⟨s, terms⟩ <;> simp [positions, PredicateKind.types?] at h
  | role =>
    rcases terms with _ | ⟨s, _ | ⟨u, terms⟩⟩ <;> simp [positions, PredicateKind.types?] at h
  | «attribute» =>
    rcases terms with _ | ⟨s, _ | ⟨u, terms⟩⟩ <;>
      simp_all [positions, PredicateKind.types?]

theorem suggested_attribute {terms : List Term}
    (h : PredicateKind.suggested terms = .attribute) :
    ∃ s t, terms = [s, t] ∧ t.type = .data := by
  unfold PredicateKind.suggested at h
  split at h
  · cases h
  · rename_i s t
    refine ⟨s, t, rfl, ?_⟩
    cases type : t.type with
    | data => rfl
    | object => simp [type] at h
    | undefined => simp [type] at h
  · cases h

theorem undefined_not_mem_types {kind : PredicateKind} {types : List TermType}
    (typed : kind.types? = some types) : .undefined ∉ types := by
  cases kind <;> cases typed <;> decide

/-! ## Demanded types -/

/-- A variable that is no blank is demanded to have the type of its position. -/
def Term.demand (type : TermType) : Term → List (Ident × TermType)
  | .var x => if x.isBlank then [] else [(x.toIdent, type)]
  | .const _ => []

def Atom.demands : Atom → List (Ident × TermType)
  | .predicate a => a.positions.flatMap fun p => p.1.demand p.2
  | _ => []

/-- The variables of the atoms in typed positions, in order and with repetitions. -/
def demands (atoms : List Atom) : List (Ident × TermType) :=
  atoms.flatMap Atom.demands

theorem Term.mem_demand {t : Term} {type : TermType} {d : Ident × TermType} :
    d ∈ t.demand type ↔
      ∃ x, t = .var x ∧ x.isBlank = false ∧ d = (x.toIdent, type) := by
  cases t with
  | const c => simp [Term.demand]
  | var x => by_cases blank : x.isBlank = true <;> simp [Term.demand, blank]

theorem Term.demand_congr {t u : Term} (same : t.untyped = u.untyped) (type : TermType) :
    t.demand type = u.demand type := by
  cases u with
  | const c => rw [Term.eq_const_of_untyped same]
  | var y =>
    rcases Term.eq_var_of_untyped same with ⟨x, rfl, idents⟩
    simp only [Term.demand, Datalog.Query.isBlank_congr idents, idents]

theorem mem_demands {atoms : List Atom} {x : Ident} {type : TermType} :
    (x, type) ∈ demands atoms ↔ ∃ a, .predicate a ∈ atoms ∧ ∃ y : Variable,
      (.var y, type) ∈ a.positions ∧ y.isBlank = false ∧ y.toIdent = x := by
  unfold demands
  rw [List.mem_flatMap]
  constructor
  · rintro ⟨a, ha, demanded⟩
    cases a with
    | truth b => cases demanded
    | comparison c => cases demanded
    | predicate a =>
      rcases List.mem_flatMap.1 demanded with ⟨⟨t, type'⟩, position, found⟩
      rcases Term.mem_demand.1 found with ⟨y, rfl, named, same⟩
      cases same
      exact ⟨a, ha, y, position, named, rfl⟩
  · rintro ⟨a, ha, y, position, named, rfl⟩
    refine ⟨.predicate a, ha, List.mem_flatMap.2 ⟨(.var y, type), position, ?_⟩⟩
    exact Term.mem_demand.2 ⟨y, rfl, named, rfl⟩

theorem demands_mapTerms {h : Term → Term} (untyped : ∀ t, (h t).untyped = t.untyped) (a : Atom) :
    (a.mapTerms h).demands = a.demands := by
  cases a with
  | truth b => rfl
  | comparison c => rfl
  | predicate a =>
    show List.flatMap _ (PredicateAtom.positions { a with terms := a.terms.map h }) = _
    rw [PredicateAtom.positions_mapTerms, List.flatMap_map]
    exact List.flatMap_congr fun p _ => Term.demand_congr (untyped p.1) p.2

/-! ## Typed occurrences -/

/-- The variables among the terms that have a type, with this type. -/
def typedOccurrences (terms : List Term) : List (Ident × TermType) :=
  ((variablesOf terms).filter (·.type ≠ .undefined)).map fun x => (x.toIdent, x.type)

theorem typedOccurrences_append (terms others : List Term) :
    typedOccurrences (terms ++ others) = typedOccurrences terms ++ typedOccurrences others := by
  simp [typedOccurrences, variablesOf, List.filterMap_append]

theorem typedOccurrences_flatMap (atoms : List Atom) :
    typedOccurrences (atoms.flatMap Atom.terms) =
      atoms.flatMap fun a => typedOccurrences a.terms := by
  induction atoms with
  | nil => rfl
  | cons a atoms ih => rw [List.flatMap_cons, typedOccurrences_append, ih, List.flatMap_cons]

theorem mem_typedOccurrences {terms : List Term} {x : Variable} (hx : .var x ∈ terms)
    (typed : x.type ≠ .undefined) : (x.toIdent, x.type) ∈ typedOccurrences terms := by
  have kept : x ∈ (variablesOf terms).filter (·.type ≠ .undefined) :=
    List.mem_filter.2 ⟨mem_variablesOf.2 hx, by simpa using typed⟩
  exact List.mem_map_of_mem kept

theorem typedOccurrences_eq_nil {terms : List Term}
    (fresh : ∀ x, .var x ∈ terms → x.type = .undefined) : typedOccurrences terms = [] := by
  unfold typedOccurrences
  rw [List.map_eq_nil_iff, List.filter_eq_nil_iff]
  intro x hx
  simp [fresh x (mem_variablesOf.1 hx)]

/-- The first type of a variable in a list of typed variables. -/
def firstOf (typed : List (Ident × TermType)) (x : Ident) : Option TermType :=
  (typed.find? (·.1 = x)).map Prod.snd

theorem firstOf_of_mem {typed : List (Ident × TermType)} {x : Ident} {type : TermType}
    (listed : (x, type) ∈ typed) : ∃ first, firstOf typed x = some first ∧ (x, first) ∈ typed := by
  unfold firstOf
  cases found : typed.find? (·.1 = x) with
  | none =>
    have absent := List.find?_eq_none.1 found _ listed
    simp at absent
  | some d =>
    have same : d.1 = x := by simpa using List.find?_some found
    exact ⟨d.2, rfl, same ▸ List.mem_of_find?_eq_some found⟩

theorem firstType?_eq (terms : List Term) (x : Variable) :
    Formula.firstType? (variablesOf terms) x = firstOf (typedOccurrences terms) x.toIdent := by
  unfold Formula.firstType? firstOf typedOccurrences
  rw [List.find?_map, List.find?_filter, Option.map_map]
  refine congrArg (Option.map _) (congrArg (fun p => (variablesOf terms).find? p) ?_)
  funext y
  rw [Bool.eq_iff_iff]
  simp [Variable.beq_iff, and_comm]

/-! ## Atoms that were read -/

theorem fitTerm_demand {predicate : String} {type : TermType} {t u : Term}
    (fit : fitTerm predicate type t = .ok u) (known : type ≠ .undefined)
    (fresh : ∀ x, t = .var x → x.type = .undefined) :
    typedOccurrences [u] = u.demand type := by
  cases t with
  | const c =>
    rcases fitTerm_const_ok_iff.1 fit with ⟨-, rfl⟩
    rfl
  | var x =>
    rcases fitTerm_var_ok_iff.1 fit with ⟨blank, rfl⟩ | ⟨named, -, rfl⟩
    · rw [typedOccurrences_eq_nil (by simpa using fresh)]
      simp [Term.demand, blank]
    · have typed : [x.withType type].filter (·.type ≠ .undefined) = [x.withType type] := by
        simpa [Variable.withType] using known
      have occurs : typedOccurrences [.var (x.withType type)] = [(x.toIdent, type)] :=
        congrArg (List.map fun y : Variable => (y.toIdent, y.type)) typed
      have demanded : (x.withType type).isBlank = false := named
      simp only [occurs, Term.demand, demanded]
      rfl

theorem fitEach_demands {predicate : String} {types : List TermType} {terms fitted : List Term}
    (fit : fitEach predicate types terms = .ok fitted) (length : terms.length = types.length)
    (known : .undefined ∉ types) (fresh : ∀ x, .var x ∈ terms → x.type = .undefined) :
    typedOccurrences fitted = (fitted.zip types).flatMap fun p => p.1.demand p.2 := by
  induction types generalizing terms fitted with
  | nil =>
    cases List.length_eq_zero_iff.1 length
    cases fit
    rfl
  | cons type types ih =>
    cases terms with
    | nil => cases length
    | cons t terms =>
      rcases fitEach_cons_ok_iff.1 fit with ⟨u, us, first, others, rfl⟩
      rw [List.mem_cons, not_or] at known
      have here := fitTerm_demand first (Ne.symm known.1) fun x hx =>
        fresh x (hx ▸ List.mem_cons_self)
      have later := ih others (Nat.succ.inj length) known.2 fun x hx =>
        fresh x (List.mem_cons_of_mem t hx)
      rw [List.zip_cons_cons, List.flatMap_cons, ← here, ← later, ← typedOccurrences_append,
        List.singleton_append]

theorem fitEach_length {predicate : String} {types : List TermType} {terms fitted : List Term}
    (fit : fitEach predicate types terms = .ok fitted) : fitted.length = terms.length := by
  simpa using congrArg List.length (fitEach_untyped fit)

/-- Constants are of the required type. -/
def ConstantFits (t : Term) (type : TermType) : Prop :=
  ∀ c, t = .const c → c.type = type

theorem fitEach_constants {predicate : String} {types : List TermType} {terms fitted : List Term}
    (fit : fitEach predicate types terms = .ok fitted) :
    ∀ p ∈ fitted.zip types, ConstantFits p.1 p.2 := by
  induction types generalizing terms fitted with
  | nil => simp
  | cons type types ih =>
    cases terms with
    | nil =>
      cases fit
      simp
    | cons t terms =>
      rcases fitEach_cons_ok_iff.1 fit with ⟨u, us, first, others, rfl⟩
      rw [List.zip_cons_cons, List.forall_mem_cons]
      refine ⟨?_, ih others⟩
      rintro c rfl
      rw [Term.eq_const_of_untyped (fitTerm_untyped first).symm] at first
      exact (fitTerm_const_ok_iff.1 first).1

namespace Datalog

section Phrases

variable {check : Iri.Check} {signature : Option Signature} {scope : Nat} {ts : List Token}

theorem TermPhrase.type_eq {x : Variable} (phrase : TermPhrase check scope ts (.var x)) :
    x.type = .undefined := by
  cases phrase.variablePhrase
  rfl

theorem type_eq_of_separated {terms : List Term}
    (phrases : Separated (TermPhrase check scope) ts terms) :
    ∀ x, .var x ∈ terms → x.type = .undefined := by
  intro x hx
  rcases phrases.exists_phrase hx with ⟨us, -, phrase⟩
  exact phrase.type_eq

/-- What is known of a predicate atom that was read: it has a kind without types, or its terms were
fitted to the types of the kind. -/
theorem fitted_of_admitted {name : String} {terms : List Term} {p : PredicateAtom}
    (admitted : Admitted signature name terms p) :
    p.kind.types? = none ∧ p.terms = terms ∨
      ∃ types, p.kind.types? = some types ∧ terms.length = types.length ∧
        fitEach name types terms = .ok p.terms := by
  rcases ofKind_of_classify admitted with ⟨kind, fit⟩
  rcases ofKind_ok_iff.1 fit with ⟨-, rfl, fitted⟩
  exact fitTerms_ok_iff.1 fitted

/-- A variable that was read has a type just where one is demanded of it. -/
theorem AtomPhrase.typedOccurrences_eq {a : Atom}
    (phrase : AtomPhrase check (Admitted signature) scope ts a) :
    typedOccurrences a.terms = a.demands := by
  -- nothing is demanded of the sides of a comparison, and they are left without a type
  have sides {ls rs : List Token} {left right : Term} (hleft : TermPhrase check scope ls left)
      (hright : TermPhrase check scope rs right) : typedOccurrences [left, right] = [] := by
    refine typedOccurrences_eq_nil fun x hx => ?_
    simp only [List.mem_cons, List.not_mem_nil, or_false] at hx
    rcases hx with rfl | rfl
    · exact hleft.type_eq
    · exact hright.type_eq
  cases phrase with
  | negatedEquality hleft hright => exact sides hleft hright
  | inequality hleft hright => exact sides hleft hright
  | comparison hleft hright _ => exact sides hleft hright
  | @predicate _ _ _ terms p _ hterms hp =>
    have fresh := type_eq_of_separated hterms
    rcases fitted_of_admitted hp with ⟨untyped, same⟩ | ⟨types, typed, length, fit⟩
    · have none : (Atom.predicate p).demands = [] := by
        simp [Atom.demands, PredicateAtom.positions, untyped]
      rw [none, Atom.terms, same]
      exact typedOccurrences_eq_nil fresh
    · have demanded : (Atom.predicate p).demands =
          (p.terms.zip types).flatMap fun d => d.1.demand d.2 := by
        simp [Atom.demands, PredicateAtom.positions, typed]
      rw [demanded]
      exact fitEach_demands fit length (undefined_not_mem_types typed) fresh

theorem AtomPhrase.conforms {p : PredicateAtom}
    (phrase : AtomPhrase check (Admitted signature) scope ts (.predicate p)) :
    p.Conforms ConstantFits := by
  cases phrase with
  | predicate _ _ hp =>
    rw [PredicateAtom.conforms_iff]
    rcases fitted_of_admitted hp with ⟨untyped, -⟩ | ⟨types, typed, length, fit⟩
    · simp [PredicateAtom.positions, untyped]
    · refine ⟨fun others same => ?_, ?_⟩
      · rw [typed] at same
        cases same
        exact (fitEach_length fit).trans length
      · simpa [PredicateAtom.positions, typed] using fitEach_constants fit

/-- Without a signature the second term of an attribute decided for its kind. It is a constant,
since variables have no types yet. -/
theorem AtomPhrase.not_demanded_data {a : Atom}
    (phrase : AtomPhrase check (Admitted none) scope ts a) (x : Ident) :
    (x, .data) ∉ a.demands := by
  intro demanded
  cases phrase with
  | negatedEquality _ _ => cases demanded
  | inequality _ _ => cases demanded
  | comparison _ _ _ => cases demanded
  | @predicate _ _ _ terms p _ hterms hp =>
    rcases List.mem_flatMap.1 demanded with ⟨⟨t, type⟩, position, found⟩
    rcases Term.mem_demand.1 found with ⟨y, rfl, -, ⟨⟩⟩
    rcases PredicateAtom.second_of_position position with ⟨kind, s, us, listed⟩
    rcases ofKind_ok_iff.1 (classify_none_ok_iff.1 hp) with ⟨-, suggested, -⟩
    rcases suggested_attribute (suggested.symm.trans kind) with ⟨first, second, rfl, data⟩
    have same := (classify_untyped hp).2
    rw [listed] at same
    have second_eq : second.untyped = (Term.var y).untyped := by
      simpa using (List.cons.inj (List.cons.inj same).2).1.symm
    rcases Term.eq_var_of_untyped second_eq with ⟨z, rfl, -⟩
    cases (type_eq_of_separated hterms z (by simp)).symm.trans data

end Phrases

/-! ## Type inference -/

namespace Query

theorem demands_inferred (atoms : List Atom) : demands (inferred atoms) = demands atoms := by
  unfold demands inferred
  rw [List.flatMap_map]
  exact List.flatMap_congr fun a _ => demands_mapTerms (inferredTerm_untyped _) a

/-- The terms in the atoms of a body after type inference. -/
structure WellTyped (atoms : List Atom) : Prop where
  ofConstants : ∀ a, .predicate a ∈ atoms → a.Conforms ConstantFits
  ofVariables : ∀ a ∈ atoms, ∀ x, .var x ∈ a.terms →
    x.type = (firstOf (demands atoms) x.toIdent).getD .undefined

theorem type_inferred {atoms : List Atom}
    (typed : ∀ a ∈ atoms, typedOccurrences a.terms = a.demands) :
    ∀ b ∈ inferred atoms, ∀ y, .var y ∈ b.terms →
      y.type = (firstOf (demands (inferred atoms)) y.toIdent).getD .undefined := by
  have occurrences : typedOccurrences (atoms.flatMap Atom.terms) = demands atoms := by
    rw [typedOccurrences_flatMap]
    exact List.flatMap_congr typed
  intro b hb y hy
  rcases List.mem_map.1 hb with ⟨a, ha, rfl⟩
  rw [Atom.terms_mapTerms] at hy
  rcases List.mem_map.1 hy with ⟨t, ht, same⟩
  cases t with
  | const c => cases same
  | var x =>
    cases same
    show (Formula.firstType? _ x).getD x.type = (firstOf _ x.toIdent).getD .undefined
    rw [demands_inferred, firstType?_eq, occurrences]
    cases found : firstOf (demands atoms) x.toIdent with
    | some type => rfl
    | none =>
      -- an occurrence with a type would be the first one, or come behind it
      by_contra typed
      have listed : (x.toIdent, x.type) ∈ demands atoms := by
        rw [← occurrences]
        exact mem_typedOccurrences (List.mem_flatMap.2 ⟨a, ha, ht⟩) typed
      rcases firstOf_of_mem listed with ⟨first, isFirst, -⟩
      cases found.symm.trans isFirst

theorem conforms_inferred {atoms : List Atom}
    (conforms : ∀ a, .predicate a ∈ atoms → a.Conforms ConstantFits) :
    ∀ b, .predicate b ∈ inferred atoms → b.Conforms ConstantFits := by
  intro b hb
  rcases List.mem_map.1 hb with ⟨a, ha, same⟩
  cases a with
  | truth _ => cases same
  | comparison _ => cases same
  | predicate a =>
    cases same
    have before := PredicateAtom.conforms_iff.1 (conforms a ha)
    refine PredicateAtom.conforms_iff.2 ⟨fun types typed => ?_, ?_⟩
    · rw [List.length_map]
      exact before.1 types typed
    · rw [PredicateAtom.positions_mapTerms, List.forall_mem_map]
      intro p hp c same
      have kept := (inferredTerm_untyped _ p.1).symm.trans (congrArg Term.untyped same)
      exact before.2 p hp c (Term.eq_const_of_untyped kept)

theorem wellTyped_of_parse {check : Iri.Check} {signature : Option Signature} {scope : Nat}
    {text : String} {q : Query} (read : parse signature scope text check = .ok q) :
    WellTyped q.atoms := by
  rcases parse_ok_iff.1 read with ⟨tokens, -, accepted⟩
  rcases ofLexemes_ok_iff.1 accepted with ⟨head, atoms, ⟨phrase, -⟩, rfl⟩
  constructor
  · refine conforms_inferred fun a ha => ?_
    rcases phrase.exists_atomPhrase ha with ⟨us, -, written⟩
    exact written.conforms
  · refine type_inferred fun a ha => ?_
    rcases phrase.exists_atomPhrase ha with ⟨us, -, written⟩
    exact written.typedOccurrences_eq

/-! ## Respected kinds -/

/-- No variable is demanded as an object and as a value. -/
def Agree (typed : List (Ident × TermType)) : Prop :=
  ∀ x, ¬ ((x, .object) ∈ typed ∧ (x, .data) ∈ typed)

theorem type_of_demand {atoms : List Atom} {x : Ident} {type : TermType}
    (demanded : (x, type) ∈ demands atoms) : type = .object ∨ type = .data := by
  rcases mem_demands.1 demanded with ⟨a, -, y, position, -⟩
  have known : type ∈ a.kind.types?.getD [] := (List.of_mem_zip position).2
  cases type with
  | object => exact .inl rfl
  | data => exact .inr rfl
  | undefined =>
    cases typed : a.kind.types? with
    | none => simp [typed] at known
    | some types => exact absurd (by simpa [typed] using known) (undefined_not_mem_types typed)

theorem WellTyped.respects_iff {atoms : List Atom} (typed : WellTyped atoms) :
    (∀ a, .predicate a ∈ atoms → a.Respects) ↔ Agree (demands atoms) := by
  constructor
  · rintro respected x ⟨asObject, asData⟩
    -- wherever a type is demanded, the variable has that of the first demand
    have first {type : TermType} (demanded : (x, type) ∈ demands atoms) :
        type = (firstOf (demands atoms) x).getD .undefined := by
      rcases mem_demands.1 demanded with ⟨a, ha, y, position, named, rfl⟩
      rcases (PredicateAtom.conforms_iff.1 (respected a ha)).2 _ position with blank | fits
      · rcases blank with ⟨z, ⟨⟩, blank⟩
        cases named.symm.trans blank
      · exact fits.symm.trans (typed.ofVariables _ ha y (List.of_mem_zip position).1)
    cases (first asObject).trans (first asData).symm
  · intro agree a ha
    refine PredicateAtom.conforms_mono (typed.ofConstants a ha) fun p hp constant => ?_
    rcases p with ⟨t, type⟩
    cases t with
    | const c => exact .inr (constant c rfl)
    | var y =>
      by_cases blank : y.isBlank = true
      · exact .inl ⟨y, rfl, blank⟩
      · have demanded : (y.toIdent, type) ∈ demands atoms :=
          mem_demands.2 ⟨a, ha, y, hp, by simpa using blank, rfl⟩
        rcases firstOf_of_mem demanded with ⟨first, isFirst, listed⟩
        have own := typed.ofVariables _ ha y (List.of_mem_zip hp).1
        rw [isFirst, Option.getD_some] at own
        refine .inr (own.trans ?_)
        rcases type_of_demand demanded with rfl | rfl
        · rcases type_of_demand listed with rfl | rfl
          · rfl
          · exact absurd ⟨demanded, listed⟩ (agree _)
        · rcases type_of_demand listed with rfl | rfl
          · exact absurd ⟨listed, demanded⟩ (agree _)
          · rfl

theorem agree_of_parse {check : Iri.Check} {scope : Nat} {text : String} {q : Query}
    (read : parse none scope text check = .ok q) : Agree (demands q.atoms) := by
  rcases parse_ok_iff.1 read with ⟨tokens, -, accepted⟩
  rcases ofLexemes_ok_iff.1 accepted with ⟨head, atoms, ⟨phrase, -⟩, rfl⟩
  rw [demands_inferred]
  rintro x ⟨-, asData⟩
  rcases List.mem_flatMap.1 asData with ⟨a, ha, demanded⟩
  rcases phrase.exists_atomPhrase ha with ⟨us, -, written⟩
  exact written.not_demanded_data x demanded

/-- The atoms of a query that was read have as many terms as their kinds take, with constants of
the required types, and every variable has the type that is demanded first in the text, if any is.
So the constraints of all kinds are met just if no variable is demanded as an object at one place
and as a value at another one. Without a signature this is always so. -/
theorem parse_respects_iff {check : Iri.Check} {signature : Option Signature} {scope : Nat}
    {text : String} {q : Query} (read : parse signature scope text check = .ok q) :
    (∀ a, .predicate a ∈ q.atoms → a.Conforms ConstantFits) ∧
    (∀ a ∈ q.atoms, ∀ x, .var x ∈ a.terms →
      x.type = (firstOf (demands q.atoms) x.toIdent).getD .undefined) ∧
    ((∀ a, .predicate a ∈ q.atoms → a.Respects) ↔
      ∀ x, ¬ ((x, .object) ∈ demands q.atoms ∧ (x, .data) ∈ demands q.atoms)) ∧
    (signature = none → ∀ a, .predicate a ∈ q.atoms → a.Respects) := by
  have typed := wellTyped_of_parse read
  refine ⟨typed.ofConstants, typed.ofVariables, typed.respects_iff, ?_⟩
  rintro rfl
  exact typed.respects_iff.2 (agree_of_parse read)

/-- The concept `Person`, the role `knows` and the attribute `age`. -/
def people : Signature :=
  { entries := [("Person", .concept), ("knows", .role), ("age", .attribute)] }

theorem people_respected :
    ∃ q, parse (some people) 0 "Q() :- Person(x), knows(x, y), age(y, z), z = w ." = .ok q ∧
      ∀ a, .predicate a ∈ q.atoms → a.Respects := by
  have found : (parse (some people) 0
      "Q() :- Person(x), knows(x, y), age(y, z), z = w .").toOption.map (fun q => demands q.atoms) =
        some [(⟨"x", some 0⟩, .object), (⟨"x", some 0⟩, .object), (⟨"y", some 0⟩, .object),
          (⟨"y", some 0⟩, .object), (⟨"z", some 0⟩, .data)] := by
    decide +kernel
  rcases exists_ok_of_map found with ⟨q, read, demanded⟩
  refine ⟨q, read, (parse_respects_iff read).2.2.1.2 ?_⟩
  rw [demanded]
  intro x
  simp only [List.mem_cons, Prod.mk.injEq, reduceCtorEq, and_true, and_false, List.not_mem_nil,
    or_false, false_or]
  rintro ⟨rfl | rfl | rfl | rfl, same⟩ <;> simp at same

/-- A person that is also an age keeps the type of persons, and the attribute has no value. -/
theorem people_overwritten :
    ∃ q, parse (some people) 0 "Q(x) :- Person(x), age(y, x) ." = .ok q ∧
      ∃ a, .predicate a ∈ q.atoms ∧ ¬ a.Respects := by
  have found : (parse (some people) 0 "Q(x) :- Person(x), age(y, x) .").toOption.map
      (fun q => demands q.atoms) =
        some [(⟨"x", some 0⟩, .object), (⟨"y", some 0⟩, .object), (⟨"x", some 0⟩, .data)] := by
    decide +kernel
  rcases exists_ok_of_map found with ⟨q, read, demanded⟩
  have clash : ¬ Agree (demands q.atoms) := by
    intro agree
    refine agree ⟨"x", some 0⟩ ?_
    simp [demanded]
  have broken := mt (wellTyped_of_parse read).respects_iff.1 clash
  simp only [not_forall] at broken
  rcases broken with ⟨a, ha, violated⟩
  exact ⟨q, read, a, ha, violated⟩

end Query
end Datalog
end QueryCalculus
