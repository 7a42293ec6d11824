import QueryCalculus.Proofs.Datalog.Grammar
import QueryCalculus.Proofs.Datalog.Spelling

/-!
# Printing queries and reading them again

- `Query.inScope` : a query with its variables moved to another scope
- `Rereads` : a text whose tokens are a phrase with the given value
- `rereads_term`, `rereads_atom`, `lexes_query` : what is printed is a phrase again
- `Query.parse_text` : a printed query is read as the query, in the scope of the new reading
-/

namespace QueryCalculus

/-! ## Moving to another scope -/

def Variable.inScope (scope : Nat) (x : Variable) : Variable :=
  { x with scope := some scope }

def Term.inScope (scope : Nat) : Term → Term
  | .var x => .var (x.inScope scope)
  | .const c => .const c

def PredicateAtom.inScope (scope : Nat) (a : PredicateAtom) : PredicateAtom :=
  { a with terms := a.terms.map (Term.inScope scope) }

def Atom.inScope (scope : Nat) : Atom → Atom :=
  Atom.mapTerms (Term.inScope scope)

theorem Term.type_inScope (scope : Nat) (t : Term) : (t.inScope scope).type = t.type := by
  cases t <;> rfl

theorem Atom.mapTerms_mapTerms_congr {f g f' g' : Term → Term} {a : Atom}
    (same : ∀ t ∈ a.terms, f (g t) = f' (g' t)) :
    (a.mapTerms g).mapTerms f = (a.mapTerms g').mapTerms f' := by
  cases a with
  | truth b => rfl
  | predicate p =>
    have terms : p.terms.map (f ∘ g) = p.terms.map (f' ∘ g') := List.map_congr_left same
    simp only [Atom.mapTerms, List.map_map, terms]
  | comparison c =>
    simp only [Atom.mapTerms]
    rw [same c.left (by simp [Atom.terms]), same c.right (by simp [Atom.terms])]

theorem fitTerm_inScope {predicate : String} {expected : TermType} {t u : Term}
    (fit : fitTerm predicate expected t = .ok u) (scope : Nat) :
    fitTerm predicate expected (t.inScope scope) = .ok (u.inScope scope) := by
  cases t with
  | var x =>
    rcases fitTerm_var_ok_iff.1 fit with ⟨blank, rfl⟩ | ⟨named, type, rfl⟩
    · exact fitTerm_var_ok_iff.2 (.inl ⟨blank, rfl⟩)
    · exact fitTerm_var_ok_iff.2 (.inr ⟨named, type, rfl⟩)
  | const c =>
    rcases fitTerm_const_ok_iff.1 fit with ⟨type, rfl⟩
    exact fitTerm_const_ok_iff.2 ⟨type, rfl⟩

theorem fitEach_inScope {predicate : String} {types : List TermType} {terms fitted : List Term}
    (fit : fitEach predicate types terms = .ok fitted) (scope : Nat) :
    fitEach predicate types (terms.map (Term.inScope scope)) =
      .ok (fitted.map (Term.inScope scope)) := by
  induction types generalizing terms fitted with
  | nil =>
    cases fit
    rfl
  | cons expected types ih =>
    cases terms with
    | nil =>
      cases fit
      rfl
    | cons term terms =>
      rcases fitEach_cons_ok_iff.1 fit with ⟨u, us, first, others, rfl⟩
      exact fitEach_cons_ok_iff.2 ⟨_, _, fitTerm_inScope first scope, ih others, rfl⟩

theorem suggested_inScope (scope : Nat) (terms : List Term) :
    PredicateKind.suggested (terms.map (Term.inScope scope)) = PredicateKind.suggested terms := by
  rcases terms with _ | ⟨first, _ | ⟨second, _ | ⟨third, terms⟩⟩⟩
  · rfl
  · rfl
  · simp only [List.map_cons, List.map_nil, PredicateKind.suggested, Term.type_inScope]
  · rfl

theorem classified_inScope {predicate : String} {terms : List Term} {a : PredicateAtom}
    (fit : PredicateAtom.classified predicate terms = .ok a) (scope : Nat) :
    PredicateAtom.classified predicate (terms.map (Term.inScope scope)) =
      .ok (a.inScope scope) := by
  rcases ofKind_ok_iff.1 fit with ⟨named, kind, fitted⟩
  refine ofKind_ok_iff.2 ⟨named, kind.trans (suggested_inScope scope terms).symm, ?_⟩
  rw [suggested_inScope]
  rcases fitTerms_ok_iff.1 fitted with ⟨untyped, same⟩ | ⟨types, typed, length, each⟩
  · exact fitTerms_ok_iff.2 (.inl ⟨untyped, by rw [← same]; rfl⟩)
  · have counted : (terms.map (Term.inScope scope)).length = types.length := by
      rwa [List.length_map]
    exact fitTerms_ok_iff.2 (.inr ⟨types, typed, counted, fitEach_inScope each scope⟩)

namespace Datalog
namespace Query

def inScope (scope : Nat) (q : Query) : Query :=
  { head := q.head.map (Variable.inScope scope), atoms := q.atoms.map (Atom.inScope scope), scope }

theorem OccursIn.inScope {x : Variable} {atoms : List Atom} (occurs : OccursIn x atoms)
    (scope : Nat) : OccursIn (x.inScope scope) (atoms.map (Atom.inScope scope)) := by
  rcases occurs with ⟨named, a, ha, y, hy, same⟩
  refine ⟨named, _, List.mem_map_of_mem ha, y.inScope scope, ?_, ?_⟩
  · rw [Atom.inScope, Atom.terms_mapTerms]
    exact List.mem_map_of_mem (f := Term.inScope scope) hy
  · show Ident.mk y.name (some scope) = Ident.mk x.name (some scope)
    rw [same]

theorem variablesOf_inScope (scope : Nat) (terms : List Term) :
    variablesOf (terms.map (Term.inScope scope)) =
      (variablesOf terms).map (Variable.inScope scope) := by
  unfold variablesOf
  rw [List.filterMap_map, List.map_filterMap]
  congr
  funext t
  cases t <;> rfl

/-- Within one scope the names tell variables apart. -/
theorem beq_inScope {own : Nat} {x y : Variable} (hx : x.scope = some own)
    (hy : y.scope = some own) (scope : Nat) :
    (y.inScope scope == x.inScope scope) = (y == x) := by
  rcases x with ⟨⟨xname, _⟩, xtype⟩
  rcases y with ⟨⟨yname, _⟩, ytype⟩
  cases hx
  cases hy
  rw [Bool.eq_iff_iff, Variable.beq_iff, Variable.beq_iff]
  simp [Variable.inScope]

theorem firstType?_inScope {own : Nat} {occurrences : List Variable} {x : Variable}
    (single : ∀ y ∈ occurrences, y.scope = some own) (hx : x.scope = some own) (scope : Nat) :
    Formula.firstType? (occurrences.map (Variable.inScope scope)) (x.inScope scope) =
      Formula.firstType? occurrences x := by
  induction occurrences with
  | nil => rfl
  | cons y occurrences ih =>
    have later := ih fun z hz => single z (List.mem_cons_of_mem y hz)
    have same := beq_inScope hx (single y List.mem_cons_self) scope
    unfold Formula.firstType? at later ⊢
    rw [List.map_cons, List.find?_cons, List.find?_cons, same]
    show Option.map _
      (match y == x && decide (y.type ≠ .undefined) with | true => _ | false => _) = _
    cases y == x && decide (y.type ≠ .undefined) with
    | true => rfl
    | false => exact later

theorem inferredTerm_inScope {own : Nat} {occurrences : List Variable} {t : Term}
    (single : ∀ y ∈ occurrences, y.scope = some own) (ht : ∀ y, t = .var y → y.scope = some own)
    (scope : Nat) :
    inferredTerm (occurrences.map (Variable.inScope scope)) (t.inScope scope) =
      (inferredTerm occurrences t).inScope scope := by
  cases t with
  | const c => rfl
  | var x =>
    simp only [Term.inScope, inferredTerm, firstType?_inScope single (ht x rfl) scope]
    rfl

theorem inferred_inScope {own : Nat} {atoms : List Atom}
    (single : ∀ a ∈ atoms, ∀ y, .var y ∈ a.terms → y.scope = some own) (scope : Nat) :
    inferred (atoms.map (Atom.inScope scope)) = (inferred atoms).map (Atom.inScope scope) := by
  have occurrences : variablesOf ((atoms.map (Atom.inScope scope)).flatMap Atom.terms) =
      (variablesOf (atoms.flatMap Atom.terms)).map (Variable.inScope scope) := by
    rw [← variablesOf_inScope, List.flatMap_map, List.map_flatMap]
    simp only [Atom.inScope, Atom.terms_mapTerms]
  have owned : ∀ y ∈ variablesOf (atoms.flatMap Atom.terms), y.scope = some own := by
    intro y hy
    rcases List.mem_flatMap.1 (mem_variablesOf.1 hy) with ⟨a, ha, hy'⟩
    exact single a ha y hy'
  unfold inferred
  rw [occurrences, List.map_map, List.map_map]
  refine List.map_congr_left fun a ha => ?_
  exact Atom.mapTerms_mapTerms_congr fun t ht =>
    inferredTerm_inScope owned (fun y hy => single a ha y (hy ▸ ht)) scope

end Query

/-! ## Printed texts as phrases -/

/-- The tokens stand for themselves. -/
def Legible (ts : List Token) : Prop :=
  ∀ t ∈ ts, t.isQuoted = false ∧ ∀ text, t.word? = some text → Spells text.toList t

/-- The tokens of the text are a phrase with this value. -/
def Rereads {β : Type} (text : String) (language : Phrases β) (b : β) : Prop :=
  ∃ ts, Writes text ts ∧ language ts b

theorem Legible.subset {ts us : List Token} (legible : Legible ts) (sub : us ⊆ ts) : Legible us :=
  fun t ht => legible t (sub ht)

theorem Legible.writes {t : Token} {text : String} (legible : Legible [t])
    (word : t.word? = some text) : Writes text [t] :=
  ((legible t List.mem_cons_self).2 text word).writes

section Phrases

variable {check : Iri.Check} {own : Nat} (scope : Nat)

theorem rereads_variable {ts : List Token} {x : Variable} (phrase : VariablePhrase own ts x)
    (legible : Legible ts) : Rereads x.name (VariablePhrase scope) (x.inScope scope) := by
  cases phrase with
  | mk notTrue notFalse notFunction valid =>
    exact ⟨_, legible.writes rfl, .mk notTrue notFalse notFunction valid⟩

theorem rereads_term {ts : List Token} {t : Term} (phrase : TermPhrase check own ts t)
    (legible : Legible ts) : Rereads t.text (TermPhrase check scope) (t.inScope scope) := by
  cases phrase with
  | var phrase =>
    rcases rereads_variable scope phrase legible with ⟨us, writes, again⟩
    exact ⟨us, writes, .var again⟩
  | boolean truth => exact ⟨_, legible.writes rfl, .boolean truth⟩
  | integer digits => exact ⟨_, legible.writes rfl, .integer digits⟩
  | decimal digits => exact ⟨_, legible.writes rfl, .decimal digits⟩
  | string value => cases (legible _ List.mem_cons_self).1
  | iri _ => cases (legible _ List.mem_cons_self).1
  | @function name text _ _ =>
    have quoted : Token.string text ∈
        [.identifier name, .openParen, .string text, .closeParen] := by simp
    cases (legible _ quoted).1

/-- Enumerations are printed with a comma and a blank between the items. -/
theorem rereads_separated {α β : Type} {text : α → String} {value : α → β} {P : Phrases α}
    {Q : Phrases β} {ts : List Token} {as : List α} (phrases : Separated P ts as)
    (legible : Legible ts)
    (each : ∀ us a, P us a → Legible us → Rereads (text a) Q (value a)) :
    Rereads (Text.commaSeparated (as.map text)) (Separated Q) (as.map value) := by
  induction phrases with
  | one phrase =>
    rcases each _ _ phrase legible with ⟨us, writes, again⟩
    exact ⟨us, by simpa [Text.commaSeparated] using writes, .one again⟩
  | @cons ts us a as phrase phrases ih =>
    rcases each _ _ phrase (legible.subset (List.subset_append_left _ _)) with ⟨vs, writes, again⟩
    rcases ih (legible.subset (by intro t; grind)) with ⟨ws, later, others⟩
    refine ⟨vs ++ .comma :: ws, ?_, .cons again others⟩
    rcases List.exists_cons_of_ne_nil phrases.ne_nil with ⟨b, bs, rfl⟩
    rw [List.map_cons, List.map_cons, Text.commaSeparated, String.intercalate_cons_cons]
    exact writes.comma later

theorem Writes.compared {x y : String} {ts us : List Token} (hx : Writes x ts) (hy : Writes y us)
    (relation : Relation) :
    Writes (x ++ " " ++ relation.symbol ++ " " ++ y) (ts ++ relationToken relation :: us) := by
  intro rest vs ends lexed
  have right : Lexes (' ' :: (y.toList ++ rest)) (us ++ vs) := (hy rest vs ends lexed).blank rfl
  cases relation with
  | equal =>
    have later : Lexes (' ' :: '=' :: ' ' :: (y.toList ++ rest)) (.equal :: (us ++ vs)) :=
      (right.mark rfl rfl).blank rfl
    simpa [Relation.symbol, relationToken] using hx _ _ (delimited_cons (by decide) _) later
  | different =>
    have later : Lexes (' ' :: '!' :: '=' :: ' ' :: (y.toList ++ rest))
        (.different :: (us ++ vs)) :=
      (right.scanned (show isSeparator '!' = false from rfl)
        (show scan '!' (['='] ++ _) = .ok ⟨.different, ['=']⟩ from rfl)).blank rfl
    simpa [Relation.symbol, relationToken] using hx _ _ (delimited_cons (by decide) _) later

/-- Every inequality is printed with its sign. -/
theorem rereads_comparison {accepted : String → List Term → PredicateAtom → Prop}
    {ls rs : List Token} {left right : Term} (hleft : TermPhrase check own ls left)
    (hright : TermPhrase check own rs right) (legible : Legible (ls ++ rs)) (relation : Relation) :
    Rereads (Comparison.mk relation left right).text (AtomPhrase check accepted scope)
      ((Atom.comparison ⟨relation, left, right⟩).inScope scope) := by
  rcases rereads_term scope hleft (legible.subset (List.subset_append_left ls rs)) with
    ⟨us, leftWrites, leftPhrase⟩
  rcases rereads_term scope hright (legible.subset (List.subset_append_right ls rs)) with
    ⟨vs, rightWrites, rightPhrase⟩
  refine ⟨_, leftWrites.compared rightWrites relation, .comparison leftPhrase rightPhrase ?_⟩
  intro token name ts names same
  rcases leftPhrase.opened same with ⟨name, rfl, function⟩
  cases names with
  | identifier _ _ other => exact other function

theorem rereads_atom {ts : List Token} {a : Atom} (phrase : AtomPhrase check Classified own ts a)
    (legible : Legible ts) :
    Rereads a.text (AtomPhrase check Classified scope) (a.inScope scope) := by
  cases phrase with
  | negatedEquality hleft hright =>
    exact rereads_comparison scope hleft hright (legible.subset (by intro t; grind)) .different
  | inequality hleft hright =>
    exact rereads_comparison scope hleft hright (legible.subset (by intro t; grind)) .different
  | comparison hleft hright _ =>
    exact rereads_comparison scope hleft hright (legible.subset (by intro t; grind)) _
  | @predicate token name us terms p names hterms hp =>
    have inside : Legible us := legible.subset (by intro t; grind)
    rcases rereads_separated hterms inside (fun _ _ => rereads_term scope) with
      ⟨vs, writes, phrases⟩
    -- The atom holds the terms that were read with other types, which are not printed.
    rcases ofKind_untyped hp with ⟨rfl, same⟩
    cases names with
    | iri _ => cases (legible _ List.mem_cons_self).1
    | identifier notNot notInequality notFunction =>
      have name : Writes p.predicate [.identifier p.predicate] :=
        Legible.writes (legible.subset (by simp)) rfl
      refine ⟨_, ?_, .predicate (.identifier notNot notInequality notFunction) phrases
        (classified_inScope hp scope)⟩
      rw [← map_text_of_untyped same] at writes
      exact name.applied writes

theorem rereads_head {hs : List Token} {head : List Variable}
    (phrase : HeadPhrase (VariablePhrase own) hs head) (legible : Legible hs) :
    Rereads (Text.commaSeparated (head.map (·.name))) (HeadPhrase (VariablePhrase scope))
      (head.map (Variable.inScope scope)) := by
  cases phrase with
  | empty => exact ⟨[], fun rest vs _ lexed => by simpa [Text.commaSeparated] using lexed, .empty⟩
  | listed phrases =>
    rcases rereads_separated phrases legible (fun _ _ => rereads_variable scope) with
      ⟨us, writes, again⟩
    exact ⟨us, writes, .listed again⟩

theorem lexes_query {ts : List Token} {head : List Variable} {atoms : List Atom}
    (phrase : QueryPhrase (VariablePhrase own) (AtomPhrase check Classified own) ts (head, atoms))
    (legible : Legible ts) :
    ∃ us, Lexes (Query.mk head atoms own).text.toList us ∧
      QueryPhrase (VariablePhrase scope) (AtomPhrase check Classified scope) us
        (head.map (Variable.inScope scope), atoms.map (Atom.inScope scope)) := by
  cases phrase with
  | @mk name hs as _ _ _ hhead hatoms =>
    have heads : Legible hs := legible.subset (by intro t; grind)
    have bodies : Legible as := legible.subset (by intro t; grind)
    rcases rereads_head scope hhead heads with ⟨us, headWrites, headPhrase⟩
    rcases rereads_separated hatoms bodies (fun _ _ => rereads_atom scope) with
      ⟨vs, bodyWrites, bodyPhrase⟩
    refine ⟨_, ?_, .mk (.inl rfl) headPhrase bodyPhrase⟩
    -- The text is read from its end: each piece is in front of what is read already.
    have spelled : Spells ['Q'] (.identifier (String.ofList ['Q'])) := .word rfl nofun
    have name : Writes "Q" [.identifier "Q"] := Spells.writes spelled
    have dot : Lexes [' ', '.'] [.dot] := (lexes_nil.mark rfl rfl).blank rfl
    have body := bodyWrites _ _ (delimited_cons (by decide) _) dot
    have sign : Lexes (' ' :: ':' :: '-' :: ' ' :: _) (.implies :: _) :=
      ((body.blank (show isSeparator ' ' = true from rfl)).scanned
        (show isSeparator ':' = false from rfl)
        (show scan ':' (['-'] ++ _) = .ok ⟨.implies, ['-']⟩ from rfl)).blank rfl
    have head := (name.applied headWrites) _ _ (delimited_cons (by decide) _) sign
    simpa [Query.text] using head

end Phrases

namespace Query

theorem text_inferredTerm (occurrences : List Variable) (t : Term) :
    (inferredTerm occurrences t).text = t.text := by
  cases t <;> rfl

/-- Types are not printed. -/
theorem text_inferred (head : List Variable) (atoms : List Atom) (scope : Nat) :
    (Query.mk head (inferred atoms) scope).text = (Query.mk head atoms scope).text := by
  have texts : (inferred atoms).map Atom.text = atoms.map Atom.text := by
    rw [inferred, List.map_map]
    refine List.map_congr_left fun a _ => ?_
    cases a with
    | truth b => rfl
    | predicate p =>
      have terms := map_text_of_untyped
        (map_inferredTerm_untyped (variablesOf (atoms.flatMap Atom.terms)) p.terms)
      simp only [Function.comp, Atom.mapTerms, Atom.text, PredicateAtom.text, terms]
    | comparison c =>
      simp only [Function.comp, Atom.mapTerms, Atom.text, Comparison.text, text_inferredTerm]
  simp only [text, texts]

theorem legible_of_lexemes {chars : List Char} {tokens : List Lexeme}
    (lexed : lexemes 0 chars = .ok tokens) (bare : ∀ l ∈ tokens, l.token.isQuoted = false) :
    Legible (tokens.map Lexeme.token) := by
  intro t ht
  rcases List.mem_map.1 ht with ⟨l, hl, rfl⟩
  exact ⟨bare l hl, fun text word => spells_of_lexemes lexed hl word⟩

/-- Printing a query and reading it again gives the query, in the scope of the new reading. -/
theorem parse_text {check : Iri.Check} {scope : Nat} {source : String} {q : Query}
    (read : parse none scope source check = .ok q)
    (bare : ∀ tokens, lexemes 0 source.toList = .ok tokens →
      ∀ l ∈ tokens, l.token.isQuoted = false) (again : Nat) :
    parse none again q.text check = .ok (q.inScope again) := by
  rcases parse_ok_iff.1 read with ⟨tokens, lexed, read⟩
  rcases ofLexemes_ok_iff.1 read with ⟨head, atoms, ⟨phrase, bound⟩, rfl⟩
  have single := phrase.scope_atoms
  rw [admitted_none] at phrase
  have legible := legible_of_lexemes lexed (bare tokens lexed)
  rcases lexes_query again phrase legible with ⟨ts, lexes, phrase'⟩
  rcases lexes 0 with ⟨tokens', lexed', rfl⟩
  rw [← text_inferred] at lexed'
  have bound' : ∀ x ∈ head.map (Variable.inScope again),
      OccursIn x (atoms.map (Atom.inScope again)) := by
    intro x hx
    rcases List.mem_map.1 hx with ⟨y, hy, rfl⟩
    exact (bound y hy).inScope again
  have moved : (Query.mk head (inferred atoms) scope).inScope again =
      ⟨head.map (Variable.inScope again), inferred (atoms.map (Atom.inScope again)), again⟩ := by
    rw [inferred_inScope single again]
    rfl
  rw [← admitted_none] at phrase'
  exact parse_ok_iff.2 ⟨tokens', lexed', ofLexemes_ok_iff.2 ⟨_, _, ⟨phrase', bound'⟩, moved⟩⟩

/-- All ways to write an inequality, names with a colon, signs and fractions. -/
def inequalities : String :=
  "q(x,y):-not(x=1),_not_equal(y,-2),ex:is-a(x),R(x,2.5),x\\=y."

theorem parse_text_inequalities :
    ∃ q, parse none 0 inequalities = .ok q ∧
      q.text = "Q(x, y) :- x != 1, y != -2, ex:is-a(x), R(x, 2.5), x != y ." ∧
      parse none 1 q.text = .ok (q.inScope 1) := by
  have printed : (parse none 0 inequalities).toOption.map text =
      some "Q(x, y) :- x != 1, y != -2, ex:is-a(x), R(x, 2.5), x != y ." := by decide +kernel
  have bare : ((lexemes 0 inequalities.toList).toOption.getD []).all
      (!·.token.isQuoted) = true := by decide +kernel
  rcases Option.map_eq_some_iff.1 printed with ⟨q, found, same⟩
  cases read : parse none 0 inequalities with
  | error e =>
    rw [read] at found
    cases found
  | ok q' =>
    rw [read] at found
    cases found
    refine ⟨q, rfl, same, parse_text read (fun tokens lexed l hl => ?_) 1⟩
    rw [lexed] at bare
    simpa using List.all_eq_true.1 bare l hl

end Query
end Datalog
end QueryCalculus
