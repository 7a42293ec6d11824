import QueryCalculus.Proofs.Datalog.Reading
import QueryCalculus.Proofs.Datalog.Typing

/-!
# The grammar of queries

- `TermPhrase`, `AtomPhrase`, `QueryPhrase` : the phrases of the grammar with their values
- `Query.Derives` : a phrase whose head variables occur in its body
- `reads_term`, `reads_atom`, `readQuery_ok_iff` : the readers accept these phrases and nothing else
- `Query.ofLexemes_ok_iff` : the tokens that are a query, with the query they are

Which predicate atoms are well formed is left open in the grammar: it depends on the signature.
-/

namespace QueryCalculus
namespace Datalog

/-! ## The grammar -/

/-- The blank, or a letter followed by letters, digits and underscores. -/
def VariableName (name : String) : Prop :=
  name = "_" ∨ ∃ c chars, name = String.ofList (c :: chars) ∧ c.isAlpha = true ∧
    ∀ d ∈ chars, d.isAlphanum = true ∨ d = '_'

/-- The names of functions from texts to resources. -/
def IriFunction (name : String) : Prop :=
  ∃ tail, name = "IRI_FUNCT_" ++ tail

inductive VariablePhrase (scope : Nat) : Phrases Variable
  | mk {name : String} : name ≠ "true" → name ≠ "false" → ¬ IriFunction name → VariableName name →
      VariablePhrase scope [.identifier name] { name, scope := some scope }

inductive TermPhrase (check : Iri.Check) (scope : Nat) : Phrases Term
  | var {ts : List Token} {x : Variable} : VariablePhrase scope ts x →
      TermPhrase check scope ts (.var x)
  | boolean {name : String} : name = "true" ∨ name = "false" →
      TermPhrase check scope [.identifier name] (.const (.data name .boolean))
  | integer (digits : String) :
      TermPhrase check scope [.integer digits] (.const (.data digits .integer))
  | decimal (digits : String) :
      TermPhrase check scope [.decimal digits] (.const (.data digits .decimal))
  | string (value : String) : TermPhrase check scope [.string value] (.const (.data value .string))
  | iri {text : String} : check text = .ok () →
      TermPhrase check scope [.iri text] (.const (.object text))
  | function {name text : String} : IriFunction name → check text = .ok () →
      TermPhrase check scope [.identifier name, .openParen, .string text, .closeParen]
        (.const (.object text))

/-- The tokens that name a predicate. -/
inductive PredicateToken : Token → String → Prop
  | iri (text : String) : PredicateToken (.iri text) text
  | identifier {name : String} : name ≠ "not" → name ≠ "_not_equal" → ¬ IriFunction name →
      PredicateToken (.identifier name) name

def relationToken : Relation → Token
  | .equal => .equal
  | .different => .different

/-- Atoms, of which those with a predicate are `accepted` under their name and terms. -/
inductive AtomPhrase (check : Iri.Check) (accepted : String → List Term → PredicateAtom → Prop)
    (scope : Nat) : Phrases Atom
  | negatedEquality {ls rs : List Token} {left right : Term} :
      TermPhrase check scope ls left → TermPhrase check scope rs right →
      AtomPhrase check accepted scope
        (.identifier "not" :: .openParen :: (ls ++ .equal :: (rs ++ [.closeParen])))
        (.comparison ⟨.different, left, right⟩)
  | inequality {ls rs : List Token} {left right : Term} :
      TermPhrase check scope ls left → TermPhrase check scope rs right →
      AtomPhrase check accepted scope
        (.identifier "_not_equal" :: .openParen :: (ls ++ .comma :: (rs ++ [.closeParen])))
        (.comparison ⟨.different, left, right⟩)
  | predicate {token : Token} {name : String} {ts : List Token} {terms : List Term}
      {a : PredicateAtom} :
      PredicateToken token name → Separated (TermPhrase check scope) ts terms →
      accepted name terms a →
      AtomPhrase check accepted scope (token :: .openParen :: (ts ++ [.closeParen])) (.predicate a)
  | comparison {ls rs : List Token} {relation : Relation} {left right : Term} :
      TermPhrase check scope ls left → TermPhrase check scope rs right →
      (∀ token name ts, PredicateToken token name →
        ls ++ relationToken relation :: rs ≠ token :: .openParen :: ts) →
      AtomPhrase check accepted scope (ls ++ relationToken relation :: rs)
        (.comparison ⟨relation, left, right⟩)

/-- The variables of a head, if there are any. -/
inductive HeadPhrase (var : Phrases Variable) : Phrases (List Variable)
  | empty : HeadPhrase var [] []
  | listed {ts : List Token} {head : List Variable} :
      Separated var ts head → HeadPhrase var ts head

inductive QueryPhrase (var : Phrases Variable) (atom : Phrases Atom) :
    Phrases (List Variable × List Atom)
  | mk {name : String} {hs ts : List Token} {head : List Variable} {atoms : List Atom} :
      name = "Q" ∨ name = "q" → HeadPhrase var hs head → Separated atom ts atoms →
      QueryPhrase var atom
        (.identifier name :: .openParen :: (hs ++ .closeParen :: .implies :: (ts ++ [.dot])))
        (head, atoms)

/-- The predicate atoms that fit the signature, or the kind their terms suggest if there is none. -/
def Admitted (signature : Option Signature) (name : String) (terms : List Term)
    (a : PredicateAtom) : Prop :=
  classify signature name terms = .ok a

/-- The predicate atoms that fit the kind their terms suggest. -/
def Classified (name : String) (terms : List Term) (a : PredicateAtom) : Prop :=
  PredicateAtom.classified name terms = .ok a

theorem admitted_none : Admitted none = Classified := by
  funext name terms a
  exact propext classify_none_ok_iff

/-! ## Names -/

theorem isVariableName_iff {name : String} : isVariableName name = true ↔ VariableName name := by
  unfold isVariableName VariableName
  rw [Bool.or_eq_true, beq_iff_eq]
  refine or_congr Iff.rfl ?_
  simp only [← String.toList_inj, String.toList_ofList]
  cases name.toList with
  | nil => simp
  | cons c chars => simp [isWordChar, and_assoc]

theorem namesIriFunction_iff {name : String} :
    namesIriFunction name = true ↔ IriFunction name := by
  unfold namesIriFunction IriFunction
  rw [List.isPrefixOf_iff_prefix]
  constructor
  · rintro ⟨tail, same⟩
    exact ⟨String.ofList tail, String.toList_inj.1 (by simp [← same])⟩
  · rintro ⟨tail, rfl⟩
    exact ⟨tail.toList, by simp⟩

/-! ## Terms -/

theorem variableNamed_ok_iff {scope : Nat} {name : String} {x : Variable} :
    variableNamed scope name = .ok x ↔ VariableName name ∧ x = { name, scope := some scope } := by
  unfold variableNamed
  rw [← isVariableName_iff]
  by_cases valid : isVariableName name = true
  · simp [valid, eq_comm]
  · simp [valid]

theorem objectConstant_ok_iff {check : Iri.Check} {iri : String} {t : Term} :
    objectConstant check iri = .ok t ↔ check iri = .ok () ∧ t = .const (.object iri) := by
  unfold objectConstant
  cases check iri with
  | error reason => simp
  | ok _ => simp [eq_comm]

theorem reads_quotedIri (check : Iri.Check) :
    Reads (readQuotedIri check) fun ts t => ∃ iri, ts = [.openParen, .string iri, .closeParen] ∧
      check iri = .ok () ∧ t = .const (.object iri) := by
  refine ((Reads.expect _ _).bind fun _ => Reads.next
    (R := fun token ts t => ∃ iri, token = .string iri ∧ ts = [.closeParen] ∧
      check iri = .ok () ∧ t = .const (.object iri)) ?_).congr (by grind)
  rintro ⟨token, text, start⟩
  cases token with
  | string iri =>
    refine ((Reads.expect _ _).bind fun _ => Reads.lift _).congr fun ts t => ?_
    simp only [objectConstant_ok_iff]
    grind
  | _ => exact (Reads.throw _).congr (by simp)

theorem not_iriFunction_of_boolean (name : String) (h : name = "true" ∨ name = "false") :
    ¬ IriFunction name := by
  rw [← namesIriFunction_iff]
  rcases h with rfl | rfl
  · decide
  · decide

/-- The three kinds of terms that start with an identifier. -/
theorem reads_identifier_term (check : Iri.Check) (scope : Nat) (name : String) :
    Reads (if namesIriFunction name then readQuotedIri check
      else if name = "true" ∨ name = "false" then pure (.const (.data name .boolean))
      else do return .var (← variableNamed scope name))
      fun ts t => TermPhrase check scope (.identifier name :: ts) t := by
  have boolean := not_iriFunction_of_boolean name
  by_cases function : IriFunction name
  · rw [if_pos (namesIriFunction_iff.2 function)]
    exact (reads_quotedIri check).congr (by grind [TermPhrase, VariablePhrase])
  · rw [if_neg (mt namesIriFunction_iff.1 function)]
    by_cases truth : name = "true" ∨ name = "false"
    · rw [if_pos truth]
      exact (Reads.pure _).congr (by grind [TermPhrase, VariablePhrase])
    · rw [if_neg truth]
      refine ((Reads.lift _).bind fun x => Reads.pure (Term.var x)).congr fun ts t => ?_
      simp only [variableNamed_ok_iff]
      grind [TermPhrase, VariablePhrase]

theorem reads_term (check : Iri.Check) (scope : Nat) :
    Reads (readTerm check scope) (TermPhrase check scope) := by
  refine (Reads.next (R := fun token ts t => TermPhrase check scope (token :: ts) t) ?_).congr ?_
  · rintro ⟨token, text, start⟩
    cases token with
    | identifier name => exact reads_identifier_term check scope name
    | iri text =>
      refine (Reads.lift _).congr fun ts t => ?_
      rw [objectConstant_ok_iff]
      grind [TermPhrase, VariablePhrase]
    | integer digits => exact (Reads.pure _).congr (by grind [TermPhrase, VariablePhrase])
    | decimal digits => exact (Reads.pure _).congr (by grind [TermPhrase, VariablePhrase])
    | string value => exact (Reads.pure _).congr (by grind [TermPhrase, VariablePhrase])
    | _ => exact (Reads.throw _).congr (by grind [TermPhrase, VariablePhrase])
  · grind [TermPhrase, VariablePhrase]

/-! ## Atoms -/

section Atoms

variable {check : Iri.Check} {scope : Nat}

/-- Inside a comparison only the name of a function is followed by a parenthesis. -/
theorem TermPhrase.opened {ls rs ts : List Token} {t : Term} {relation : Relation} {token : Token}
    (phrase : TermPhrase check scope ls t)
    (split : ls ++ relationToken relation :: rs = token :: .openParen :: ts) :
    ∃ name, token = .identifier name ∧ IriFunction name := by
  have closed : relationToken relation ≠ .openParen := by cases relation <;> nofun
  grind [TermPhrase, VariablePhrase]

theorem reads_inequality (mark : Token) (expected : Expectation) :
    Reads (readInequality check scope mark expected) fun ts a => ∃ ls rs left right,
      ts = .openParen :: (ls ++ mark :: (rs ++ [.closeParen])) ∧ TermPhrase check scope ls left ∧
        TermPhrase check scope rs right ∧ a = .comparison ⟨.different, left, right⟩ := by
  have sides (left right : Term) := Reads.pure (Atom.comparison ⟨.different, left, right⟩)
  have closed (left right : Term) := (sides left right).after .closeParen .closeParen
  have marked (left : Term) := ((reads_term check scope).bind (closed left)).after mark expected
  have opened := ((reads_term check scope).bind marked).after .openParen .openParen
  refine opened.congr fun ts a => ?_
  constructor
  · rintro ⟨_, rfl, inside⟩
    rcases inside with ⟨ls, _, left, rfl, hleft, _, rfl, behind⟩
    rcases behind with ⟨rs, _, right, rfl, hright, _, rfl, rfl, rfl⟩
    exact ⟨ls, rs, left, right, rfl, hleft, hright, rfl⟩
  · rintro ⟨ls, rs, left, right, rfl, hleft, hright, rfl⟩
    refine ⟨_, rfl, ls, _, left, rfl, hleft, ?_⟩
    exact ⟨_, rfl, rs, _, right, rfl, hright, _, rfl, rfl, rfl⟩

theorem reads_relation : Reads readRelation fun ts relation => ts = [relationToken relation] := by
  refine (Reads.next (R := fun token ts relation => ts = [] ∧ token = relationToken relation)
    ?_).congr (by grind)
  rintro ⟨token, text, start⟩
  cases token with
  | equal =>
    refine (Reads.pure _).congr fun ts relation => ?_
    cases relation <;> simp [relationToken]
  | different =>
    refine (Reads.pure _).congr fun ts relation => ?_
    cases relation <;> simp [relationToken]
  | _ =>
    refine (Reads.throw _).congr fun ts relation => ?_
    cases relation <;> simp [relationToken]

theorem reads_comparison :
    Reads (readComparison check scope) fun ts a => ∃ ls rs relation left right,
      ts = ls ++ relationToken relation :: rs ∧ TermPhrase check scope ls left ∧
        TermPhrase check scope rs right ∧ a = .comparison ⟨relation, left, right⟩ := by
  have sides (left : Term) (relation : Relation) := (reads_term check scope).bind fun right =>
    Reads.pure (Atom.comparison ⟨relation, left, right⟩)
  have compared := (reads_term check scope).bind fun left => reads_relation.bind (sides left)
  refine compared.congr fun ts a => ?_
  constructor
  · rintro ⟨ls, _, left, rfl, hleft, behind⟩
    rcases behind with ⟨_, _, relation, rfl, rfl, rs, _, right, rfl, hright, rfl, rfl⟩
    exact ⟨ls, rs, relation, left, right, by simp, hleft, hright, rfl⟩
  · rintro ⟨ls, rs, relation, left, right, rfl, hleft, hright, rfl⟩
    refine ⟨ls, _, left, rfl, hleft, [relationToken relation], rs, relation, rfl, rfl, ?_⟩
    exact ⟨rs, [], right, by simp, hright, rfl, rfl⟩

theorem reads_predicate (signature : Option Signature) (name : String) :
    Reads (readPredicate check signature scope name) fun ts a => ∃ us terms p,
      ts = .openParen :: (us ++ [.closeParen]) ∧ Separated (TermPhrase check scope) us terms ∧
        Admitted signature name terms p ∧ a = .predicate p := by
  have classified (terms : List Term) :=
    (Reads.lift (classify signature name terms)).bind fun p => Reads.pure (Atom.predicate p)
  have listed := (reads_term check scope).separated (nofun : Token.closeParen ≠ .comma)
    .commaOrClose classified
  refine (listed.after .openParen .openParen).congr fun ts a => ?_
  constructor
  · rintro ⟨_, rfl, us, terms, _, rfl, hus, behind⟩
    rcases behind with ⟨_, _, p, rfl, ⟨rfl, hp⟩, rfl, rfl⟩
    exact ⟨us, terms, p, rfl, hus, hp, rfl⟩
  · rintro ⟨us, terms, p, rfl, hus, hp, rfl⟩
    refine ⟨_, rfl, us, terms, _, rfl, hus, ?_⟩
    exact ⟨[], [], p, rfl, ⟨rfl, hp⟩, rfl, rfl⟩

/-- The tokens start with the given one and an opening parenthesis. -/
def Opens (token : Token) (tokens : List Lexeme) : Prop :=
  ∃ ts, tokens.map Lexeme.token = token :: .openParen :: ts

theorem opens_iff {token : Token} {tokens : List Lexeme} :
    Opens token tokens ↔ ∃ first second tail, tokens = first :: second :: tail ∧
      first.token = token ∧ second.token = .openParen := by
  constructor
  · rintro ⟨ts, split⟩
    rcases List.map_eq_cons_iff.1 split with ⟨first, _, rfl, htoken, behind⟩
    rcases List.map_eq_cons_iff.1 behind with ⟨second, tail, rfl, hopen, -⟩
    exact ⟨first, second, tail, rfl, htoken, hopen⟩
  · rintro ⟨first, second, tail, rfl, rfl, hopen⟩
    exact ⟨tail.map Lexeme.token, by simp [hopen]⟩

theorem Opens.of_split {token : Token} {front : List Lexeme} {ts : List Token}
    (split : front.map Lexeme.token = token :: .openParen :: ts) (rest : List Lexeme) :
    Opens token (front ++ rest) :=
  ⟨ts ++ rest.map Lexeme.token, by rw [List.map_append, split]; rfl⟩

theorem Opens.first_eq {token t : Token} {front rest : List Lexeme} {ts : List Token}
    (opens : Opens token (front ++ rest)) (split : front.map Lexeme.token = t :: ts) :
    t = token := by
  rcases opens with ⟨us, same⟩
  rw [List.map_append, split] at same
  exact (List.cons.inj same).1

theorem announced_negatedEquality_iff {tokens : List Lexeme} :
    announced tokens = .negatedEquality ↔ Opens (.identifier "not") tokens := by
  rw [opens_iff]
  unfold announced
  grind

theorem announced_inequality_iff {tokens : List Lexeme} :
    announced tokens = .inequality ↔ Opens (.identifier "_not_equal") tokens := by
  rw [opens_iff]
  unfold announced
  grind

theorem announced_predicate_iff {tokens : List Lexeme} {name : String} :
    announced tokens = .predicate name ↔
      ∃ token, PredicateToken token name ∧ Opens token tokens := by
  simp only [opens_iff]
  unfold announced
  grind [PredicateToken, namesIriFunction_iff]

/-- What is read once the kind of an atom is known. -/
def readAnnounced (check : Iri.Check) (signature : Option Signature) (scope : Nat) :
    Announced → Reading Atom
  | .negatedEquality => next .term >>= fun _ => readInequality check scope .equal .equal
  | .inequality => next .term >>= fun _ => readInequality check scope .comma .comma
  | .predicate name => next .term >>= fun _ => readPredicate check signature scope name
  | .comparison => readComparison check scope

theorem run_readAtom (signature : Option Signature) (tokens : List Lexeme) :
    (readAtom check signature scope).run tokens =
      (readAnnounced check signature scope (announced tokens)).run tokens := by
  have branches : readAtom check signature scope =
      get >>= fun tokens => readAnnounced check signature scope (announced tokens) := by
    unfold readAtom
    refine congrArg (get >>= ·) (funext fun tokens => ?_)
    cases announced tokens <;> rfl
  rw [branches]
  rfl

theorem atomPhrase_of_announced {signature : Option Signature} {tokens rest : List Lexeme}
    {a : Atom}
    (read : (readAnnounced check signature scope (announced tokens)).run tokens = .ok (a, rest)) :
    ∃ front, tokens = front ++ rest ∧
      AtomPhrase check (Admitted signature) scope (front.map Lexeme.token) a := by
  -- The first token is skipped unseen; which one it was is known from the announcement.
  cases shape : announced tokens with
  | negatedEquality =>
    rw [shape] at read
    rcases ((reads_inequality .equal .equal).skip .term).sound read with
      ⟨front, rfl, t, _, split, sides⟩
    rcases sides with ⟨ls, rs, left, right, rfl, hleft, hright, rfl⟩
    cases (announced_negatedEquality_iff.1 shape).first_eq split
    exact ⟨front, rfl, split ▸ .negatedEquality hleft hright⟩
  | inequality =>
    rw [shape] at read
    rcases ((reads_inequality .comma .comma).skip .term).sound read with
      ⟨front, rfl, t, _, split, sides⟩
    rcases sides with ⟨ls, rs, left, right, rfl, hleft, hright, rfl⟩
    cases (announced_inequality_iff.1 shape).first_eq split
    exact ⟨front, rfl, split ▸ .inequality hleft hright⟩
  | predicate name =>
    rw [shape] at read
    rcases ((reads_predicate signature name).skip .term).sound read with
      ⟨front, rfl, t, _, split, written⟩
    rcases written with ⟨us, terms, p, rfl, hterms, hp, rfl⟩
    rcases announced_predicate_iff.1 shape with ⟨token, names, opens⟩
    cases opens.first_eq split
    exact ⟨front, rfl, split ▸ .predicate names hterms hp⟩
  | comparison =>
    rw [shape] at read
    rcases reads_comparison.sound read with ⟨front, rfl, sides⟩
    rcases sides with ⟨ls, rs, relation, left, right, split, hleft, hright, rfl⟩
    refine ⟨front, rfl, split ▸ .comparison hleft hright fun token name ts names same => ?_⟩
    have predicate := announced_predicate_iff.2 ⟨token, names, .of_split (split.trans same) rest⟩
    cases shape.symm.trans predicate

theorem announced_comparison {ls rs : List Token} {t : Term} {relation : Relation}
    {front : List Lexeme} (phrase : TermPhrase check scope ls t)
    (split : front.map Lexeme.token = ls ++ relationToken relation :: rs) (rest : List Lexeme) :
    announced (front ++ rest) = .comparison := by
  -- a term that starts with an opened parenthesis is an IRI function, which no other form starts
  -- with
  have opened {token : Token} (opens : Opens token (front ++ rest)) :
      ∃ name, token = .identifier name ∧ IriFunction name := by
    rcases opens with ⟨ts, same⟩
    rw [List.map_append, split, List.append_assoc] at same
    exact phrase.opened same
  cases shape : announced (front ++ rest) with
  | negatedEquality =>
    rcases opened (announced_negatedEquality_iff.1 shape) with ⟨name, ⟨⟩, function⟩
    exact absurd (namesIriFunction_iff.2 function) (by decide)
  | inequality =>
    rcases opened (announced_inequality_iff.1 shape) with ⟨name, ⟨⟩, function⟩
    exact absurd (namesIriFunction_iff.2 function) (by decide)
  | predicate name =>
    rcases announced_predicate_iff.1 shape with ⟨token, names, opens⟩
    rcases opened opens with ⟨name, rfl, function⟩
    cases names with
    | identifier _ _ other => exact absurd function other
  | comparison => rfl

theorem reads_atom (check : Iri.Check) (signature : Option Signature) (scope : Nat) :
    Reads (readAtom check signature scope) (AtomPhrase check (Admitted signature) scope) := by
  intro tokens a rest
  rw [run_readAtom]
  refine ⟨atomPhrase_of_announced, ?_⟩
  rintro ⟨front, rfl, phrase⟩
  generalize split : front.map Lexeme.token = ts at phrase
  -- the first tokens tell the forms apart, so that each phrase gets the reader of its own form
  cases phrase with
  | @negatedEquality ls rs left right hleft hright =>
    rw [announced_negatedEquality_iff.2 (.of_split split rest)]
    exact ((reads_inequality .equal .equal).skip .term).complete
      ⟨_, _, split, ls, rs, left, right, rfl, hleft, hright, rfl⟩ rest
  | @inequality ls rs left right hleft hright =>
    rw [announced_inequality_iff.2 (.of_split split rest)]
    exact ((reads_inequality .comma .comma).skip .term).complete
      ⟨_, _, split, ls, rs, left, right, rfl, hleft, hright, rfl⟩ rest
  | @predicate token name us terms p names hterms hp =>
    rw [announced_predicate_iff.2 ⟨token, names, .of_split split rest⟩]
    exact ((reads_predicate signature name).skip .term).complete
      ⟨_, _, split, us, terms, p, rfl, hterms, hp, rfl⟩ rest
  | @comparison ls rs relation left right hleft hright _ =>
    rw [announced_comparison hleft split rest]
    exact reads_comparison.complete ⟨ls, rs, relation, left, right, split, hleft, hright, rfl⟩ rest

end Atoms

/-! ## Queries -/

/-- What stands in a head before the body is known: any name of a variable. -/
def NamedVariable (scope : Nat) : Phrases Variable := fun ts x =>
  ∃ name, ts = [.identifier name] ∧ VariableName name ∧ x = { name, scope := some scope }

theorem reads_identifier (expected : Expectation) :
    Reads (readIdentifier expected) fun ts name => ts = [.identifier name] := by
  refine (Reads.next (R := fun token ts name => ts = [] ∧ token = .identifier name) ?_).congr
    (by grind)
  rintro ⟨token, text, start⟩
  cases token with
  | identifier name => exact (Reads.pure _).congr (by grind)
  | _ => exact (Reads.throw _).congr (by simp)

theorem reads_headVariable (scope : Nat) :
    Reads (readHeadVariable scope) (NamedVariable scope) := by
  refine ((reads_identifier _).bind fun name => Reads.lift _).congr fun ts x => ?_
  simp only [variableNamed_ok_iff, NamedVariable]
  grind

theorem reads_head (scope : Nat) :
    Reads (readHead scope) fun ts head => ∃ hs, ts = .openParen :: (hs ++ [.closeParen]) ∧
      HeadPhrase (NamedVariable scope) hs head := by
  have listed := (reads_headVariable scope).separated (nofun : Token.closeParen ≠ .comma)
    .commaOrClose Reads.pure
  -- No variable starts with a closing parenthesis, so the parenthesis tells an empty head.
  have optional := Reads.eat (Reads.pure []) listed fun ts head phrase => by
    rcases phrase with ⟨us, as, vs, rfl, hus, -⟩
    rcases hus.starts .closeParen (by grind [NamedVariable]) with ⟨t, vs, rfl, other⟩
    exact ⟨t, _, rfl, other⟩
  refine (optional.after .openParen .openParen).congr fun ts head => ?_
  constructor
  · rintro ⟨_, rfl, ⟨_, rfl, rfl, rfl⟩ | ⟨us, as, _, rfl, hus, rfl, rfl⟩⟩
    · exact ⟨[], rfl, .empty⟩
    · exact ⟨us, rfl, .listed hus⟩
  · rintro ⟨hs, rfl, empty | phrases⟩
    · exact ⟨_, rfl, .inl ⟨_, rfl, rfl, rfl⟩⟩
    · exact ⟨_, rfl, .inr ⟨hs, head, _, rfl, phrases, rfl, rfl⟩⟩

theorem reads_headName :
    Reads readHeadName fun ts _ => ∃ name, ts = [.identifier name] ∧ (name = "Q" ∨ name = "q") := by
  refine (Reads.next (R := fun token ts _ => ts = [] ∧ ∃ name, token = .identifier name ∧
    (name = "Q" ∨ name = "q")) ?_).congr (by grind)
  rintro ⟨token, text, start⟩
  cases token with
  | identifier name =>
    by_cases known : name = "Q" ∨ name = "q"
    · have stays : ¬ (name ≠ "Q" ∧ name ≠ "q") := by tauto
      show Reads (if name ≠ "Q" ∧ name ≠ "q" then _ else _) _
      rw [if_neg stays]
      exact (Reads.pure ()).congr (by simp [known])
    · have fails : name ≠ "Q" ∧ name ≠ "q" := by tauto
      show Reads (if name ≠ "Q" ∧ name ≠ "q" then _ else _) _
      rw [if_pos fails]
      exact (Reads.throw _).congr (by simp [known])
  | _ => exact (Reads.throw _).congr (by simp)

/-- A query up to its dot, whatever stands behind it. -/
def readClosed (check : Iri.Check) (signature : Option Signature) (scope : Nat) :
    Reading (List Variable × List Atom) :=
  readHeadName >>= fun _ => readHead scope >>= fun head => expect .implies .implies >>= fun _ =>
    separated (readAtom check signature scope) >>= fun atoms => expect .dot .dotOrComma >>= fun _ =>
      pure (head, atoms)

theorem reads_closed (check : Iri.Check) (signature : Option Signature) (scope : Nat) :
    Reads (readClosed check signature scope) (QueryPhrase (NamedVariable scope)
      (AtomPhrase check (Admitted signature) scope)) := by
  have atoms (head : List Variable) := (reads_atom check signature scope).separated
    (nofun : Token.dot ≠ .comma) .dotOrComma fun atoms => Reads.pure (head, atoms)
  have body (head : List Variable) := (atoms head).after .implies .implies
  refine (reads_headName.bind fun _ => (reads_head scope).bind body).congr fun ts parts => ?_
  constructor
  · rintro ⟨_, _, _, rfl, ⟨name, rfl, known⟩, behindName⟩
    rcases behindName with ⟨_, _, head, rfl, ⟨hs, rfl, hhead⟩, _, rfl, behindSign⟩
    rcases behindSign with ⟨us, atoms, _, rfl, hatoms, rfl, rfl⟩
    simpa using QueryPhrase.mk known hhead hatoms
  · intro phrase
    cases phrase with
    | @mk name hs us head atoms known hhead hatoms =>
      refine ⟨[_], _, (), rfl, ⟨name, rfl, known⟩, ?_⟩
      refine ⟨_, .implies :: (us ++ [.dot]), head, by simp, ⟨hs, rfl, hhead⟩, _, rfl, ?_⟩
      exact ⟨us, atoms, _, rfl, hatoms, rfl, rfl⟩

theorem readQuery_eq (check : Iri.Check) (signature : Option Signature) (scope : Nat) :
    readQuery check signature scope =
      readClosed check signature scope >>= fun parts => readEnd >>= fun _ => pure parts := by
  simp only [readQuery, readClosed, bind_assoc, pure_bind]

theorem readQuery_ok_iff {check : Iri.Check} {signature : Option Signature} {scope : Nat}
    {tokens rest : List Lexeme} {parts : List Variable × List Atom} :
    (readQuery check signature scope).run tokens = .ok (parts, rest) ↔
      rest = [] ∧ QueryPhrase (NamedVariable scope) (AtomPhrase check (Admitted signature) scope)
        (tokens.map Lexeme.token) parts := by
  rw [readQuery_eq, run_bind_ok]
  constructor
  · rintro ⟨parts', mid, closed, ended⟩
    cases mid with
    | cons l mid => cases ended
    | nil =>
      cases ended
      rcases (reads_closed check signature scope).sound closed with ⟨front, rfl, phrase⟩
      exact ⟨rfl, by simpa using phrase⟩
  · rintro ⟨rfl, phrase⟩
    have closed := (reads_closed check signature scope).complete phrase []
    rw [List.append_nil] at closed
    exact ⟨parts, [], closed, rfl⟩

/-! ## Heads and bodies -/

section Bodies

variable {check : Iri.Check} {signature : Option Signature} {scope : Nat}

theorem TermPhrase.variablePhrase {ts : List Token} {x : Variable}
    (phrase : TermPhrase check scope ts (.var x)) : VariablePhrase scope ts x := by
  cases phrase with
  | var phrase => exact phrase

/-- Every term of an atom was written in it, where a variable has no type yet. -/
theorem AtomPhrase.exists_termPhrase {ts : List Token} {a : Atom} {t : Term}
    (phrase : AtomPhrase check (Admitted signature) scope ts a) (ht : t ∈ a.terms) :
    ∃ us u, us ⊆ ts ∧ TermPhrase check scope us u ∧ u.untyped = t.untyped := by
  -- the three forms that have two sides
  have sides {ls rs : List Token} {left right : Term} (hleft : TermPhrase check scope ls left)
      (hright : TermPhrase check scope rs right) (hls : ls ⊆ ts) (hrs : rs ⊆ ts)
      (ht : t ∈ [left, right]) :
      ∃ us u, us ⊆ ts ∧ TermPhrase check scope us u ∧ u.untyped = t.untyped := by
    simp only [List.mem_cons, List.not_mem_nil, or_false] at ht
    rcases ht with rfl | rfl
    · exact ⟨ls, t, hls, hleft, rfl⟩
    · exact ⟨rs, t, hrs, hright, rfl⟩
  cases phrase with
  | negatedEquality hleft hright =>
    exact sides hleft hright (by intro t; grind) (by intro t; grind) ht
  | inequality hleft hright =>
    exact sides hleft hright (by intro t; grind) (by intro t; grind) ht
  | comparison hleft hright _ =>
    exact sides hleft hright (by intro t; grind) (by intro t; grind) ht
  | predicate _ hterms hp =>
    -- the terms of a predicate get types, and are otherwise as they were written
    have listed : t.untyped ∈ _ := (classify_untyped hp).2 ▸ List.mem_map_of_mem ht
    rcases List.mem_map.1 listed with ⟨u, hu, same⟩
    rcases hterms.exists_phrase hu with ⟨us, within, phrase⟩
    exact ⟨us, u, fun t ht => by have := within ht; grind, phrase, same⟩

theorem AtomPhrase.exists_variablePhrase {ts : List Token} {a : Atom} {y : Variable}
    (phrase : AtomPhrase check (Admitted signature) scope ts a) (hy : .var y ∈ a.terms) :
    ∃ us x, VariablePhrase scope us x ∧ x.toIdent = y.toIdent := by
  rcases phrase.exists_termPhrase hy with ⟨us, u, -, written, same⟩
  rcases Term.eq_var_of_untyped same with ⟨x, rfl, idents⟩
  exact ⟨us, x, written.variablePhrase, idents⟩

/-- Heads are read before the body, and then any name will do. One that occurs in the body is no
truth value and no function. -/
theorem NamedVariable.variablePhrase {ts us : List Token} {x : Variable} {atoms : List Atom}
    (phrase : NamedVariable scope ts x)
    (phrases : Separated (AtomPhrase check (Admitted signature) scope) us atoms)
    (occurs : Query.OccursIn x atoms) : VariablePhrase scope ts x := by
  rcases phrase with ⟨name, rfl, valid, rfl⟩
  rcases occurs with ⟨-, a, ha, y, hy, same⟩
  rcases phrases.exists_phrase ha with ⟨vs, -, atom⟩
  rcases atom.exists_variablePhrase hy with ⟨ws, z, written, same'⟩
  cases written with
  | mk notTrue notFalse notFunction _ =>
    cases same'.trans same
    exact .mk notTrue notFalse notFunction valid

theorem QueryPhrase.of_named {ts : List Token} {head : List Variable} {atoms : List Atom}
    (phrase : QueryPhrase (NamedVariable scope) (AtomPhrase check (Admitted signature) scope) ts
      (head, atoms)) (bound : ∀ x ∈ head, Query.OccursIn x atoms) :
    QueryPhrase (VariablePhrase scope) (AtomPhrase check (Admitted signature) scope) ts
      (head, atoms) := by
  cases phrase with
  | mk known hhead hatoms =>
    refine .mk known ?_ hatoms
    cases hhead with
    | empty => exact .empty
    | listed phrases =>
      exact .listed (phrases.mono fun us x hx named => named.variablePhrase hatoms (bound x hx))

theorem QueryPhrase.to_named {atom : Phrases Atom} {ts : List Token} {head : List Variable}
    {atoms : List Atom} (phrase : QueryPhrase (VariablePhrase scope) atom ts (head, atoms)) :
    QueryPhrase (NamedVariable scope) atom ts (head, atoms) := by
  cases phrase with
  | mk known hhead hatoms =>
    refine .mk known ?_ hatoms
    cases hhead with
    | empty => exact .empty
    | listed phrases =>
      refine .listed (phrases.mono fun us x _ phrase => ?_)
      cases phrase with
      | mk _ _ _ valid => exact ⟨_, rfl, valid, rfl⟩

theorem VariablePhrase.scope_eq {ts : List Token} {x : Variable}
    (phrase : VariablePhrase scope ts x) : x.scope = some scope := by
  cases phrase
  rfl

theorem QueryPhrase.scope_head {atom : Phrases Atom} {ts : List Token} {head : List Variable}
    {atoms : List Atom} (phrase : QueryPhrase (VariablePhrase scope) atom ts (head, atoms)) :
    ∀ x ∈ head, x.scope = some scope := by
  intro x hx
  cases phrase with
  | mk _ hhead _ =>
    cases hhead with
    | empty => cases hx
    | listed phrases =>
      rcases phrases.exists_phrase hx with ⟨us, -, written⟩
      exact written.scope_eq

/-- Every atom of a query was written in its text. -/
theorem QueryPhrase.exists_atomPhrase {var : Phrases Variable} {atom : Phrases Atom}
    {ts : List Token} {head : List Variable} {atoms : List Atom}
    (phrase : QueryPhrase var atom ts (head, atoms)) {a : Atom} (ha : a ∈ atoms) :
    ∃ us, us ⊆ ts ∧ atom us a := by
  cases phrase with
  | mk _ _ hatoms =>
    rcases hatoms.exists_phrase ha with ⟨us, within, written⟩
    exact ⟨us, fun t ht => by have := within ht; grind, written⟩

theorem QueryPhrase.scope_atoms {ts : List Token} {head : List Variable} {atoms : List Atom}
    (phrase : QueryPhrase (VariablePhrase scope) (AtomPhrase check (Admitted signature) scope) ts
      (head, atoms)) : ∀ a ∈ atoms, ∀ y, .var y ∈ a.terms → y.scope = some scope := by
  intro a ha y hy
  rcases phrase.exists_atomPhrase ha with ⟨us, -, atom⟩
  rcases atom.exists_variablePhrase hy with ⟨vs, x, written, same⟩
  rw [← same]
  exact written.scope_eq

end Bodies

namespace Query

/-- The tokens are the text of a query with this head and these atoms. -/
def Derives (check : Iri.Check) (accepted : String → List Term → PredicateAtom → Prop) (scope : Nat)
    (tokens : List Token) (head : List Variable) (atoms : List Atom) : Prop :=
  QueryPhrase (VariablePhrase scope) (AtomPhrase check accepted scope) tokens (head, atoms) ∧
    ∀ x ∈ head, OccursIn x atoms

theorem ofLexemes_ok_iff {check : Iri.Check} {signature : Option Signature} {scope : Nat}
    {tokens : List Lexeme} {q : Query} :
    ofLexemes check signature scope tokens = .ok q ↔ ∃ head atoms,
      Derives check (Admitted signature) scope (tokens.map Lexeme.token) head atoms ∧
        q = { head, atoms := inferred atoms, scope } := by
  unfold ofLexemes
  rw [bind_eq_ok_iff]
  constructor
  · rintro ⟨⟨⟨head, atoms⟩, rest⟩, parts, read⟩
    rcases ofParts_ok_iff.1 read with ⟨bound, rfl⟩
    exact ⟨head, atoms, ⟨(readQuery_ok_iff.1 parts).2.of_named bound, bound⟩, rfl⟩
  · rintro ⟨head, atoms, ⟨phrase, bound⟩, rfl⟩
    have parts := readQuery_ok_iff.2 ⟨rfl, phrase.to_named⟩
    exact ⟨_, parts, ofParts_ok_iff.2 ⟨bound, rfl⟩⟩

theorem parse_ok_iff {check : Iri.Check} {signature : Option Signature} {scope : Nat}
    {text : String} {q : Query} :
    parse signature scope text check = .ok q ↔ ∃ tokens, lexemes 0 text.toList = .ok tokens ∧
      ofLexemes check signature scope tokens = .ok q := by
  unfold parse
  cases lexemes 0 text.toList with
  | error e => simp
  | ok tokens => simp

/-- Without a signature just the phrases of the grammar are read, those whose head variables occur
in the body and whose predicate atoms fit the kind their terms suggest. -/
theorem ofLexemes_accepts_grammar (check : Iri.Check) (scope : Nat) :
    (∀ tokens q, ofLexemes check none scope tokens = .ok q ↔ ∃ head atoms,
      Derives check Classified scope (tokens.map Lexeme.token) head atoms ∧
        q = { head, atoms := inferred atoms, scope }) ∧
    ∀ text q, parse none scope text check = .ok q ↔ ∃ tokens, lexemes 0 text.toList = .ok tokens ∧
      ∃ head atoms, Derives check Classified scope (tokens.map Lexeme.token) head atoms ∧
        q = { head, atoms := inferred atoms, scope } := by
  simp only [parse_ok_iff, ofLexemes_ok_iff, admitted_none, implies_true, and_self]

end Query
end Datalog
end QueryCalculus
