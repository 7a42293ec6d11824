import QueryCalculus.Proofs.Datalog.Grammar
import QueryCalculus.Proofs.Datalog.Spelling
import QueryCalculus.Proofs.Sql.Literals

/-!
# Constants of queries as SQL literals

- `Numeral` : numbers as they are written in SQL
- `Query.exists_termPhrase` : every term of a query that was read stands in its text
- `numeral_of_spells` : the number tokens of a query are numerals
- `Query.parse_literal` : the SQL text of every constant of a query that was read is one literal

Numbers reach the SQL text as they were read, without quotes, so what keeps them apart from the text
around them is how number tokens are spelled. All other texts are quoted.
-/

namespace QueryCalculus
namespace Datalog

/-! ## Numbers -/

def Digits (chars : List Char) : Prop :=
  chars ≠ [] ∧ ∀ c ∈ chars, c.isDigit = true

/-- Digits behind an optional sign and in front of an optional fraction. -/
def Numeral (chars : List Char) : Prop :=
  ∃ sign digits fraction, chars = sign ++ digits ++ fraction ∧
    (sign = [] ∨ sign = ['+'] ∨ sign = ['-']) ∧ Digits digits ∧
      (fraction = [] ∨ ∃ places, fraction = '.' :: places ∧ Digits places)

theorem digits_cons {c : Char} {chars : List Char} (start : c.isDigit = true)
    (others : ∀ d ∈ chars, d.isDigit = true) : Digits (c :: chars) :=
  ⟨List.cons_ne_nil c chars, List.forall_mem_cons.2 ⟨start, others⟩⟩

def Token.isNumber : Token → Bool
  | .integer _ | .decimal _ => true
  | _ => false

theorem numeral_of_spells {chars : List Char} {token : Token} (spelled : Spells chars token)
    (number : token.isNumber = true) : Numeral chars := by
  cases spelled with
  | word _ _ => cases number
  | qualified _ _ _ => cases number
  | integer start others =>
    exact ⟨[], _, [], by simp, .inl rfl, digits_cons start others, .inl rfl⟩
  | @signed c digits sign nonempty others =>
    refine ⟨[c], digits, [], by simp, .inr ?_, ⟨nonempty, others⟩, .inl rfl⟩
    exact sign.imp (congrArg (fun c => [c])) (congrArg (fun c => [c]))
  | @decimal c digits fraction start others nonempty places =>
    exact ⟨[], c :: digits, '.' :: fraction, by simp, .inl rfl, digits_cons start others,
      .inr ⟨fraction, rfl, nonempty, places⟩⟩

/-! ## Constants in the text of a query -/

namespace Query

variable {check : Iri.Check} {signature : Option Signature} {scope : Nat}
variable {text : String} {q : Query}

/-- Every term of a query that was read was written with tokens of its text. -/
theorem exists_termPhrase (read : parse signature scope text check = .ok q) {a : Atom}
    (ha : a ∈ q.atoms) {t : Term} (ht : t ∈ a.terms) :
    ∃ tokens us u, lexemes 0 text.toList = .ok tokens ∧ us ⊆ tokens.map Lexeme.token ∧
      TermPhrase check scope us u ∧ u.untyped = t.untyped := by
  rcases parse_ok_iff.1 read with ⟨tokens, lexed, accepted⟩
  rcases ofLexemes_ok_iff.1 accepted with ⟨head, atoms, ⟨phrase, -⟩, rfl⟩
  rcases List.mem_map.1 ha with ⟨b, hb, rfl⟩
  rw [Atom.terms_mapTerms] at ht
  rcases List.mem_map.1 ht with ⟨s, hs, rfl⟩
  rcases phrase.exists_atomPhrase hb with ⟨vs, inside, atom⟩
  rcases atom.exists_termPhrase hs with ⟨us, u, within, written, same⟩
  exact ⟨tokens, us, u, lexed, List.Subset.trans within inside, written,
    same.trans (inferredTerm_untyped _ s).symm⟩

theorem exists_constantPhrase (read : parse signature scope text check = .ok q) {a : Atom}
    (ha : a ∈ q.atoms) {c : Constant} (hc : .const c ∈ a.terms) :
    ∃ tokens us, lexemes 0 text.toList = .ok tokens ∧ us ⊆ tokens.map Lexeme.token ∧
      TermPhrase check scope us (.const c) := by
  rcases exists_termPhrase read ha hc with ⟨tokens, us, u, lexed, within, written, same⟩
  rw [Term.eq_const_of_untyped same] at written
  exact ⟨tokens, us, lexed, within, written⟩

theorem numeral_of_lexemes {chars : List Char} {tokens : List Lexeme}
    (lexed : lexemes 0 chars = .ok tokens) {token : Token} {value : String}
    (member : token ∈ tokens.map Lexeme.token) (word : token.word? = some value)
    (number : token.isNumber = true) : Numeral value.toList := by
  rcases List.mem_map.1 member with ⟨l, hl, rfl⟩
  exact numeral_of_spells (spells_of_lexemes lexed hl word) number

/-- The SQL text of a constant of a query that was read is a truth value, a number, or a string
literal that a scanner takes up to its last mark and reads as the value of the constant. -/
theorem parse_literal (read : parse signature scope text check = .ok q) {a : Atom}
    (ha : a ∈ q.atoms) {c : Constant} (hc : .const c ∈ a.terms) :
    (c = .data "true" .boolean ∧ Sql.termText (.const c) = "TRUE" ∨
      c = .data "false" .boolean ∧ Sql.termText (.const c) = "FALSE") ∨
    (∃ value datatype, c = .data value datatype ∧ datatype.isNumeric = true ∧
      Sql.termText (.const c) = value ∧ Numeral value.toList) ∨
    ∀ rest : List Char, rest.head? ≠ some '\'' →
      Sql.scanString ((Sql.termText (.const c)).toList ++ rest) = some (c.value.toList, rest) := by
  rcases exists_constantPhrase read ha hc with ⟨tokens, us, lexed, within, phrase⟩
  cases phrase with
  | boolean name =>
    rcases name with rfl | rfl
    · exact .inl (.inl ⟨rfl, rfl⟩)
    · exact .inl (.inr ⟨rfl, rfl⟩)
  | integer digits =>
    have numeral := numeral_of_lexemes lexed (within List.mem_cons_self) rfl rfl
    exact .inr (.inl ⟨digits, .integer, rfl, rfl, rfl, numeral⟩)
  | decimal digits =>
    have numeral := numeral_of_lexemes lexed (within List.mem_cons_self) rfl rfl
    exact .inr (.inl ⟨digits, .decimal, rfl, rfl, rfl, numeral⟩)
  | string value => exact .inr (.inr fun rest => Sql.scanString_quoteString value)
  | iri _ => exact .inr (.inr fun rest => Sql.scanString_quoteString _)
  | function _ _ => exact .inr (.inr fun rest => Sql.scanString_quoteString _)

/-- The value and the datatype of a literal. -/
def datum? : Term → Option (String × Datatype)
  | .const (.data value datatype) => some (value, datatype)
  | _ => none

theorem eq_const_of_datum? {t : Term} {value : String} {datatype : Datatype}
    (h : datum? t = some (value, datatype)) : t = .const (.data value datatype) := by
  unfold datum? at h
  split at h
  · cases h
    rfl
  · cases h

/-- Literals of all kinds. The string has an escape in the query and another one in SQL. -/
def constants : String :=
  "Q() :- U(x, 'it\\'s'), U(x, -3), U(x, 2.5), U(x, true) ."

theorem constants_literal :
    ∃ q a, parse none 0 constants = .ok q ∧ a ∈ q.atoms ∧ .const (.data "it's" .string) ∈ a.terms ∧
      Sql.scanString ((Sql.termText (.const (.data "it's" .string))).toList ++ " OR 1=1".toList) =
        some ("it's".toList, " OR 1=1".toList) := by
  have found : (parse none 0 constants).toOption.map
      (fun q => (q.atoms.flatMap Atom.terms).filterMap datum?) =
        some [("it's", .string), ("-3", .integer), ("2.5", .decimal), ("true", .boolean)] := by
    decide +kernel
  rcases exists_ok_of_map found with ⟨q, read, data⟩
  have first : ("it's", Datatype.string) ∈ (q.atoms.flatMap Atom.terms).filterMap datum? := by
    rw [data]
    exact List.mem_cons_self
  rcases List.mem_filterMap.1 first with ⟨t, ht, value⟩
  rcases List.mem_flatMap.1 ht with ⟨a, ha, hc⟩
  rw [eq_const_of_datum? value] at hc
  refine ⟨q, a, read, ha, hc, ?_⟩
  rcases parse_literal read ha hc with truth | number | string
  · simp at truth
  · rcases number with ⟨_, _, ⟨⟩, numeric, -⟩
    cases numeric
  · exact string _ (by decide)

end Query
end Datalog
end QueryCalculus
