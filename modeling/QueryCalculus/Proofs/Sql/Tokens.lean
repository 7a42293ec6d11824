import QueryCalculus.Proofs.Sql.Names
import QueryCalculus.Proofs.Sql.Quotation

/-!
# The tokens of a text

- `Token` : keywords, names, literals and symbols
- `Pending.step`, `scan` : reading a text character by character
- `tokenize` : the tokens of a text
- `tokenize_append`, `tokenize_separated` : joined texts
- `tokenize_name`, `tokenize_number`, `tokenize_enclose` : single tokens
- `tokenize_shift` : indented texts

Reading goes on with the token at hand as long as a character fits. Names without quotes and
keywords are read in lower case. A word that is reserved without being one of the keywords of
`Token` has no reading here, and neither have the characters that no statement needs.
-/

namespace QueryCalculus
namespace Sql

/-! ## Tokens -/

/-- The words that a statement is made up with. -/
inductive Keyword
  | SELECT
  | DISTINCT
  | AS
  | FROM
  | NATURAL
  | JOIN
  | WHERE
  | AND
  | NOT
  | EXISTS
  | TRUE
  | FALSE
  | LIMIT
  deriving DecidableEq

def Keyword.all : List (String × Keyword) :=
  [("select", .SELECT), ("distinct", .DISTINCT), ("as", .AS), ("from", .FROM),
    ("natural", .NATURAL), ("join", .JOIN), ("where", .WHERE), ("and", .AND), ("not", .NOT),
    ("exists", .EXISTS), ("true", .TRUE), ("false", .FALSE), ("limit", .LIMIT)]

/-- The same words in capital letters. -/
def Keyword.capitals : List String :=
  ["SELECT", "DISTINCT", "AS", "FROM", "NATURAL", "JOIN", "WHERE", "AND", "NOT", "EXISTS", "TRUE",
    "FALSE", "LIMIT"]

inductive Token
  | keyword (k : Keyword)
  | name (text : String)
  | quotedName (text : String)
  | string (value : String)
  | number (numeral : String)
  | symbol (c : Char)
  deriving DecidableEq

/-- A word in lower case is a keyword, or else a name unless it is reserved. -/
def wordToken (word : String) : Option Token :=
  match Keyword.all.lookup word with
  | some k => some (.keyword k)
  | none => if isKeyword word then none else some (.name word)

def isSign (c : Char) : Bool :=
  c == '-' || c == '+'

def isNumberPart (c : Char) : Bool :=
  c.isDigit || c == '.'

/-- A number with an optional sign and an optional fraction. -/
def isNumeral : List Char → Bool
  | [] => false
  | c :: cs =>
    (c.isDigit || isSign c) && cs.all isNumberPart &&
      (let groups := (if isSign c then cs else c :: cs).splitOn '.'
       groups.length ≤ 2 && groups.all (!·.isEmpty))

/-! ## Reading -/

/-- What has been read of a token that may go on. -/
inductive Pending
  | nothing
  | word (read : List Char)
  | number (read : List Char)
  | inside (mark : Mark) (read : List Char)
  | behind (mark : Mark) (read : List Char)

namespace Pending

/-- The token that ends here, if it is complete. -/
def ended : Pending → Option (List Token)
  | .nothing => some []
  | .word read => (wordToken (fold (String.ofList read))).map ([·])
  | .number read => if isNumeral read then some [.number (String.ofList read)] else none
  | .inside _ _ => none
  | .behind .string read => some [.string (String.ofList read)]
  | .behind .name read => some [.quotedName (String.ofList read)]

/-- How a token goes on with a character, if it does. -/
def next? : Pending → Char → Option Pending
  | .nothing, _ => none
  | .word read, c => if isNamePart c then some (.word (read ++ [c])) else none
  | .number read, c => if isNumberPart c then some (.number (read ++ [c])) else none
  | .inside mark read, c =>
    some (if c = mark.char then .behind mark read else .inside mark (read ++ [c]))
  | .behind mark read, c => if c = mark.char then some (.inside mark (read ++ [c])) else none

/-- What a character is the first one of. Symbols are tokens by themselves. -/
def start? (c : Char) : Option (List Token × Pending) :=
  if c = ' ' ∨ c = '\n' then some ([], .nothing)
  else if c ∈ ['(', ')', ',', '.', '=', '!'] then some ([.symbol c], .nothing)
  else if isNameStart c then some ([], .word [c])
  else if c.isDigit || isSign c then some ([], .number [c])
  else (mark? c).map fun mark => ([], .inside mark [])

def step (p : Pending) (c : Char) : Option (List Token × Pending) :=
  match p.next? c with
  | some p' => some ([], p')
  | none => p.ended.bind fun done => (start? c).map fun new => (done ++ new.1, new.2)

end Pending

def scan : Pending → List Char → Option (List Token × Pending)
  | p, [] => some ([], p)
  | p, c :: cs => (p.step c).bind fun new =>
    (scan new.2 cs).map fun rest => (new.1 ++ rest.1, rest.2)

def tokenize (text : String) : Option (List Token) :=
  (scan .nothing text.toList).bind fun read => read.2.ended.map fun last => read.1 ++ last

/-! ## Joined texts -/

section Joined

variable {p p' : Pending} {cs ds : List Char} {ts us vs : List Token} {text text' : String}

theorem scan_append (first : scan p cs = some (ts, p')) :
    scan p (cs ++ ds) = (scan p' ds).map fun rest => (ts ++ rest.1, rest.2) := by
  induction cs generalizing p ts with
  | nil =>
    cases first
    simp
  | cons c cs ih =>
    simp only [scan, Option.bind_eq_some_iff, Option.map_eq_some_iff] at first
    rcases first with ⟨new, step, rest, scanned, same⟩
    cases same
    rw [List.cons_append, scan, step, Option.bind_some, ih scanned, Option.map_map]
    congr 1
    funext rest
    simp

theorem tokenize_eq_some_iff :
    tokenize text = some ts ↔
      ∃ read p last, scan .nothing text.toList = some (read, p) ∧ p.ended = some last ∧
        read ++ last = ts := by
  simp only [tokenize, Option.bind_eq_some_iff, Option.map_eq_some_iff, Prod.exists,
    exists_and_left]

/-- The text has these tokens, and nothing is pending behind them. -/
def Closed (text : String) (ts : List Token) : Prop :=
  scan .nothing text.toList = some (ts, .nothing)

theorem Closed.tokenize_append (closed : Closed text ts) (h : tokenize text' = some us) :
    tokenize (text ++ text') = some (ts ++ us) := by
  rcases tokenize_eq_some_iff.1 h with ⟨read, p, last, scanned, ended, rfl⟩
  refine tokenize_eq_some_iff.2 ⟨ts ++ read, p, last, ?_, ended, List.append_assoc _ _ _⟩
  rw [String.toList_append, scan_append closed, scanned]
  rfl

/-- No token goes on with this character. -/
def isBreak (c : Char) : Bool :=
  !isNamePart c && !isNumberPart c && (mark? c).isNone

/-- The text is empty or begins with a character that ends the token before. -/
def Breaks (text : String) : Prop :=
  text.toList.head?.all isBreak = true

theorem next?_of_isBreak {c : Char} (h : isBreak c = true) {last : List Token}
    (ended : p.ended = some last) : p.next? c = none := by
  simp only [isBreak, Bool.and_eq_true, Bool.not_eq_true', Option.isNone_iff_eq_none] at h
  cases p with
  | nothing => rfl
  | word read => exact if_neg (by simp [h.1.1])
  | number read => exact if_neg (by simp [h.1.2])
  | inside mark read => cases ended
  | behind mark read => exact if_neg (ne_char h.2)

/-- Such a character is read as if nothing had been pending. -/
theorem scan_of_isBreak {c : Char} (h : isBreak c = true) {last : List Token}
    (ended : p.ended = some last) :
    scan p (c :: cs) = (scan .nothing (c :: cs)).map fun read => (last ++ read.1, read.2) := by
  have here : p.step c = (Pending.start? c).map fun new => (last ++ new.1, new.2) := by
    rw [Pending.step, next?_of_isBreak h ended, ended]
    rfl
  have there : Pending.nothing.step c = (Pending.start? c).map fun new => new := by
    rw [Pending.step]
    rfl
  rw [scan, scan, here, there]
  cases Pending.start? c with
  | none => rfl
  | some new =>
    simp only [Option.map_some, Option.bind_some, Option.map_map]
    congr 1
    funext rest
    simp

theorem tokenize_append (h : tokenize text = some ts) (h' : tokenize text' = some us)
    (breaks : Breaks text') : tokenize (text ++ text') = some (ts ++ us) := by
  rcases tokenize_eq_some_iff.1 h with ⟨read, p, last, scanned, ended, rfl⟩
  rcases tokenize_eq_some_iff.1 h' with ⟨read', p', last', scanned', ended', rfl⟩
  cases characters : text'.toList with
  | nil =>
    rw [characters] at scanned'
    cases scanned'
    cases ended'
    rw [String.toList_eq_nil_iff.1 characters, String.append_empty, List.append_nil, h]
    simp
  | cons c cs =>
    have first : isBreak c = true := by simpa [Breaks, characters] using breaks
    refine tokenize_eq_some_iff.2 ⟨read ++ (last ++ read'), p', last', ?_, ended', ?_⟩
    · rw [String.toList_append, scan_append scanned, characters, scan_of_isBreak first ended,
        ← characters, scanned']
      rfl
    · simp only [List.append_assoc]

theorem Closed.append (h : tokenize text = some ts) (closed : Closed text' us)
    (breaks : Breaks text') (nonempty : text' ≠ "") : Closed (text ++ text') (ts ++ us) := by
  rcases tokenize_eq_some_iff.1 h with ⟨read, p, last, scanned, ended, rfl⟩
  cases characters : text'.toList with
  | nil => exact absurd (String.toList_eq_nil_iff.1 characters) nonempty
  | cons c cs =>
    have first : isBreak c = true := by simpa [Breaks, characters] using breaks
    have behind : scan .nothing (c :: cs) = some (us, .nothing) := characters ▸ closed
    rw [Closed, String.toList_append, scan_append scanned, characters, scan_of_isBreak first ended,
      behind]
    simp

/-- Two texts with one between them that ends the first and has nothing pending at its end. -/
theorem tokenize_separated {separator : String} (h : tokenize text = some ts)
    (h' : tokenize text' = some vs) (closed : Closed separator us) (breaks : Breaks separator)
    (nonempty : separator ≠ "") :
    tokenize (text ++ separator ++ text') = some (ts ++ us ++ vs) :=
  (Closed.append h closed breaks nonempty).tokenize_append h'

/-- The tokens of a list of texts, with the tokens `us` between them. -/
def joinTokens (us : List Token) : List (List Token) → List Token
  | [] => []
  | ts :: rest => ts ++ rest.flatMap (us ++ ·)

theorem tokenize_intercalate {α : Type} {separator : String} (closed : Closed separator us)
    (breaks : Breaks separator) (nonempty : separator ≠ "") {items : List α} {text : α → String}
    {tokens : α → List Token} (each : ∀ a ∈ items, tokenize (text a) = some (tokens a)) :
    tokenize (separator.intercalate (items.map text)) =
      some (joinTokens us (items.map tokens)) := by
  induction items with
  | nil => rfl
  | cons a items ih =>
    have first := each a List.mem_cons_self
    have rest := ih fun b hb => each b (List.mem_cons_of_mem a hb)
    cases items with
    | nil =>
      rw [List.map_singleton, String.intercalate_singleton, first]
      simp [joinTokens]
    | cons b items =>
      have both := tokenize_separated first rest closed breaks nonempty
      simp only [List.map_cons, String.intercalate_cons_cons] at both ⊢
      rw [both]
      simp [joinTokens]

end Joined

/-! ## Names -/

section Names

variable {name : String}

theorem scan_word {read cs : List Char} (parts : ∀ c ∈ cs, isNamePart c = true) :
    scan (.word read) cs = some ([], .word (read ++ cs)) := by
  induction cs generalizing read with
  | nil => simp [scan]
  | cons c cs ih =>
    have step : (Pending.word read).step c = some ([], .word (read ++ [c])) := by
      simp [Pending.step, Pending.next?, parts c List.mem_cons_self]
    rw [scan, step, Option.bind_some, ih fun d hd => parts d (List.mem_cons_of_mem c hd)]
    simp

theorem start?_of_isNameStart {c : Char} (h : isNameStart c = true) :
    Pending.start? c = some ([], .word [c]) := by
  have other : ∀ d, isNameStart d = false → c ≠ d := by
    rintro d differs rfl
    rw [h] at differs
    cases differs
  have blank : ¬ (c = ' ' ∨ c = '\n') :=
    fun blank => blank.elim (other ' ' rfl) (other '\n' rfl)
  have symbol : c ∉ ['(', ')', ',', '.', '=', '!'] := by
    simp only [List.mem_cons, List.not_mem_nil, or_false, not_or]
    exact ⟨other _ rfl, other _ rfl, other _ rfl, other _ rfl, other _ rfl, other _ rfl⟩
  rw [Pending.start?, if_neg blank, if_neg symbol, if_pos h]

theorem scan_name (h : isIdentifier name = true) :
    scan .nothing name.toList = some ([], .word name.toList) := by
  rcases (isIdentifier_iff.1 h).1 with ⟨c, cs, characters, first, rest⟩
  rw [characters, scan, Pending.step]
  simp only [Pending.next?, Pending.ended, start?_of_isNameStart first, Option.bind_some,
    Option.map_some, scan_word rest]
  rfl

theorem isKeyword_of_mem_all {entry : String × Keyword} (h : entry ∈ Keyword.all) :
    isKeyword entry.1 = true := by
  have listed : Keyword.capitals.all keywords.contains = true := by decide +kernel
  have spelled : Keyword.all.map Prod.fst = Keyword.capitals.map fold := by decide +kernel
  rcases List.mem_map.1 (spelled ▸ List.mem_map_of_mem h) with ⟨word, hword, same⟩
  have member := List.contains_iff_mem.1 (List.all_eq_true.1 listed word hword)
  rw [← same, isKeyword_fold]
  exact List.any_eq_true.2 ⟨word, member, by simp [Text.sameIgnoringAsciiCase]⟩

theorem wordToken_fold (h : isKeyword name = false) :
    wordToken (fold name) = some (.name (fold name)) := by
  have free : isKeyword (fold name) = false := (isKeyword_fold name).trans h
  have absent : Keyword.all.lookup (fold name) = none := by
    refine List.lookup_eq_none_iff.2 fun entry hentry => ?_
    refine bne_iff_ne.2 fun same => ?_
    have taken := isKeyword_of_mem_all hentry
    rw [← same, free] at taken
    cases taken
  simp [wordToken, absent, free]

theorem ended_word (h : isIdentifier name = true) :
    (Pending.word name.toList).ended = some [.name (fold name)] := by
  rw [Pending.ended, String.ofList_toList, wordToken_fold (isIdentifier_iff.1 h).2]
  rfl

theorem tokenize_name (h : isIdentifier name = true) : tokenize name = some [.name (fold name)] :=
  tokenize_eq_some_iff.2 ⟨[], _, _, scan_name h, ended_word h, rfl⟩

/-- A name with a dot behind it. -/
theorem closed_qualifier (h : isIdentifier name = true) :
    Closed (name ++ ".") [.name (fold name), .symbol '.'] := by
  have step : (Pending.word name.toList).step '.' =
      some ([.name (fold name), .symbol '.'], .nothing) := by
    rw [Pending.step, ended_word h]
    rfl
  have dot : ".".toList = ['.'] := rfl
  rw [Closed, String.toList_append, scan_append (scan_name h), dot, scan, step]
  rfl

end Names

/-! ## Numbers -/

theorem scan_number {read cs : List Char} (parts : ∀ c ∈ cs, isNumberPart c = true) :
    scan (.number read) cs = some ([], .number (read ++ cs)) := by
  induction cs generalizing read with
  | nil => simp [scan]
  | cons c cs ih =>
    have step : (Pending.number read).step c = some ([], .number (read ++ [c])) := by
      simp [Pending.step, Pending.next?, parts c List.mem_cons_self]
    rw [scan, step, Option.bind_some, ih fun d hd => parts d (List.mem_cons_of_mem c hd)]
    simp

theorem isNameStart_of_isDigit {c : Char} (digit : c.isDigit = true) : isNameStart c = false := by
  refine Bool.or_eq_false_iff.2 ⟨isAlpha_of_isDigit digit, beq_eq_false_iff_ne.2 ?_⟩
  rintro rfl
  exact absurd digit (by decide)

theorem start?_of_isDigit {c : Char} (h : c.isDigit = true ∨ isSign c = true) :
    Pending.start? c = some ([], .number [c]) := by
  have start : (c.isDigit || isSign c) = true := by simpa using h
  have other : ∀ d : Char, (d.isDigit || isSign d) = false → c ≠ d := by
    rintro d differs rfl
    rw [start] at differs
    cases differs
  have blank : ¬ (c = ' ' ∨ c = '\n') :=
    fun blank => blank.elim (other ' ' rfl) (other '\n' rfl)
  have symbol : c ∉ ['(', ')', ',', '.', '=', '!'] := by
    simp only [List.mem_cons, List.not_mem_nil, or_false, not_or]
    exact ⟨other _ rfl, other _ rfl, other _ rfl, other _ rfl, other _ rfl, other _ rfl⟩
  have letter : ¬ isNameStart c = true := by
    rcases h with digit | sign
    · simp [isNameStart_of_isDigit digit]
    · rcases Bool.or_eq_true_iff.1 sign with minus | plus
      · simp [beq_iff_eq.1 minus, isNameStart]
      · simp [beq_iff_eq.1 plus, isNameStart]
  rw [Pending.start?, if_neg blank, if_neg symbol, if_neg letter, if_pos start]

theorem tokenize_number {value : String} (h : isNumeral value.toList = true) :
    tokenize value = some [.number value] := by
  cases characters : value.toList with
  | nil =>
    rw [characters] at h
    cases h
  | cons c cs =>
    have parts := h
    rw [characters, isNumeral, Bool.and_eq_true, Bool.and_eq_true, Bool.or_eq_true,
      List.all_eq_true] at parts
    have scanned : scan .nothing value.toList = some ([], .number value.toList) := by
      rw [characters, scan, Pending.step]
      simp only [Pending.next?, Pending.ended, start?_of_isDigit parts.1.1, Option.bind_some,
        Option.map_some, scan_number parts.1.2]
      rfl
    refine tokenize_eq_some_iff.2 ⟨[], _, [.number value], scanned, ?_, rfl⟩
    rw [Pending.ended, if_pos h, String.ofList_toList]

/-! ## Quotations -/

/-- Inside of a quotation, doubled marks are read as one. -/
theorem scan_doubled (mark : Mark) (read text : List Char) :
    scan (.inside mark read)
        (text.flatMap fun c => if c = mark.char then [mark.char, mark.char] else [c]) =
      some ([], .inside mark (read ++ text)) := by
  induction text generalizing read with
  | nil => simp [scan]
  | cons c cs ih =>
    have first : scan (.inside mark read)
        (if c = mark.char then [mark.char, mark.char] else [c]) =
        some ([], .inside mark (read ++ [c])) := by
      by_cases same : c = mark.char
      · simp [same, scan, Pending.step, Pending.next?]
      · simp [same, scan, Pending.step, Pending.next?]
    rw [List.flatMap_cons, scan_append first, ih]
    simp

theorem scan_enclose (mark : Mark) (text : String) :
    scan .nothing (enclose mark.char text).toList = some ([], .behind mark text.toList) := by
  have opened : scan .nothing [mark.char] = some ([], .inside mark []) := by
    cases mark <;> rfl
  have closing : scan (.inside mark text.toList) [mark.char] =
      some ([], .behind mark text.toList) := by
    simp [scan, Pending.step, Pending.next?]
  rw [toList_enclose, ← List.singleton_append, List.append_assoc, scan_append opened,
    scan_append (scan_doubled mark [] text.toList), List.nil_append, closing]
  rfl

theorem tokenize_quoteString (text : String) :
    tokenize (quoteString text) = some [.string text] := by
  refine tokenize_eq_some_iff.2 ⟨[], _, [.string text], scan_enclose .string text, ?_, rfl⟩
  rw [Pending.ended, String.ofList_toList]

theorem tokenize_quoteName (name : String) :
    tokenize (quoteName name) = some [.quotedName name] := by
  refine tokenize_eq_some_iff.2 ⟨[], _, [.quotedName name], scan_enclose .name name, ?_, rfl⟩
  rw [Pending.ended, String.ofList_toList]

/-! ## Indented texts -/

/-- The token in the indented text. -/
def Token.shift : Token → Token
  | .string value => .string (Sql.shift value)
  | .quotedName text => .quotedName (Sql.shift text)
  | t => t

def Pending.shift : Pending → Pending
  | .inside mark read => .inside mark (shiftedLines read)
  | .behind mark read => .behind mark (shiftedLines read)
  | p => p

theorem ofList_shiftedLines (read : List Char) :
    String.ofList (shiftedLines read) = Sql.shift (String.ofList read) := by
  apply String.toList_inj.1
  rw [toList_shift, String.toList_ofList, String.toList_ofList]

theorem ended_shift (p : Pending) : p.shift.ended = p.ended.map (·.map Token.shift) := by
  cases p with
  | behind mark read =>
    cases mark <;> simp [Pending.shift, Pending.ended, Token.shift, ofList_shiftedLines]
  | word read =>
    simp only [Pending.shift, Pending.ended, wordToken]
    split
    · rfl
    · split
      · rfl
      · rfl
  | number read =>
    simp only [Pending.shift, Pending.ended]
    split
    · rfl
    · rfl
  | _ => rfl

theorem next?_shift_eq_none {p : Pending} {c : Char} (h : p.next? c = none) :
    p.shift.next? c = none := by
  cases p with
  | inside mark read => cases h
  | behind mark read =>
    simp only [Pending.next?, ite_eq_right_iff, reduceCtorEq, imp_false] at h
    exact if_neg h
  | _ => exact h

/-- What is started by a character has nothing to be moved. -/
theorem start?_shift {c : Char} {new : List Token × Pending} (h : Pending.start? c = some new) :
    new.1.map Token.shift = new.1 ∧ new.2.shift = new.2 := by
  unfold Pending.start? at h
  split at h
  · cases h
    exact ⟨rfl, rfl⟩
  · split at h
    · cases h
      exact ⟨rfl, rfl⟩
    · split at h
      · cases h
        exact ⟨rfl, rfl⟩
      · split at h
        · cases h
          exact ⟨rfl, rfl⟩
        · rcases Option.map_eq_some_iff.1 h with ⟨mark, -, rfl⟩
          exact ⟨rfl, rfl⟩

/-- A token that goes on in a text goes on in the indented text. In a quotation the blanks behind a
line break belong to it. -/
theorem scan_shift_next {p p' : Pending} {c : Char} (h : p.next? c = some p') :
    scan p.shift (shiftedLines [c]) = some ([], p'.shift) := by
  have kept : ∀ read, shiftedLines (read ++ [c]) = shiftedLines read ++ shiftedLines [c] :=
    fun read => shiftedLines_append read [c]
  by_cases line : c = '\n'
  · subst line
    cases p with
    | inside mark read =>
      have characters : shiftedLines ['\n'] = ['\n', ' ', ' ', ' ', ' '] := rfl
      cases mark <;> cases h <;>
        simp [scan, Pending.step, Pending.next?, Pending.shift, Mark.char, kept, characters]
    | behind mark read => cases mark <;> cases h
    | _ => cases h
  · have characters : shiftedLines [c] = [c] := by simp [shiftedLines, line]
    have next : p.shift.next? c = some p'.shift := by
      cases p with
      | nothing => cases h
      | word read =>
        simp only [Pending.next?, Option.ite_none_right_eq_some] at h
        rcases h with ⟨part, same⟩
        cases same
        exact if_pos part
      | number read =>
        simp only [Pending.next?, Option.ite_none_right_eq_some] at h
        rcases h with ⟨part, same⟩
        cases same
        exact if_pos part
      | inside mark read =>
        simp only [Pending.next?, Option.some.injEq] at h
        subst h
        simp only [Pending.next?, Pending.shift]
        split
        · rfl
        · simp only [kept, characters]
      | behind mark read =>
        simp only [Pending.next?, Option.ite_none_right_eq_some] at h
        rcases h with ⟨same, result⟩
        cases result
        simp only [Pending.shift, kept, characters]
        exact if_pos same
    rw [characters, scan, Pending.step, next]
    rfl

theorem scan_shift_char {p p' : Pending} {c : Char} {ts : List Token}
    (h : p.step c = some (ts, p')) :
    scan p.shift (shiftedLines [c]) = some (ts.map Token.shift, p'.shift) := by
  unfold Pending.step at h
  split at h
  · rename_i q next
    cases h
    exact scan_shift_next next
  · rename_i next
    simp only [Option.bind_eq_some_iff, Option.map_eq_some_iff] at h
    rcases h with ⟨done, ended, new, start, same⟩
    cases same
    -- the token before ends, and what is started by the character is the same
    have step : p.shift.step c = some ((done ++ new.1).map Token.shift, new.2.shift) := by
      rw [Pending.step, next?_shift_eq_none next, ended_shift, ended, start, List.map_append,
        (start?_shift start).1, (start?_shift start).2]
      rfl
    by_cases line : c = '\n'
    · subst line
      cases start
      have characters : shiftedLines ['\n'] = '\n' :: [' ', ' ', ' ', ' '] := rfl
      rw [characters, scan, step]
      simp [scan, Pending.step, Pending.next?, Pending.ended, Pending.start?, Pending.shift]
    · have characters : shiftedLines [c] = [c] := by simp [shiftedLines, line]
      rw [characters, scan, step]
      simp [scan]

theorem scan_shift {p p' : Pending} {cs : List Char} {ts : List Token}
    (h : scan p cs = some (ts, p')) :
    scan p.shift (shiftedLines cs) = some (ts.map Token.shift, p'.shift) := by
  induction cs generalizing p ts with
  | nil =>
    cases h
    rfl
  | cons c cs ih =>
    simp only [scan, Option.bind_eq_some_iff, Option.map_eq_some_iff] at h
    rcases h with ⟨new, step, rest, scanned, same⟩
    cases same
    have characters : shiftedLines (c :: cs) = shiftedLines [c] ++ shiftedLines cs :=
      shiftedLines_append [c] cs
    rw [characters, scan_append (scan_shift_char step), ih scanned, List.map_append]
    rfl

/-- Indentation changes quotations only. -/
theorem tokenize_shift {text : String} {ts : List Token} (h : tokenize text = some ts) :
    tokenize (shift text) = some (ts.map Token.shift) := by
  rcases tokenize_eq_some_iff.1 h with ⟨read, p, last, scanned, ended, rfl⟩
  refine tokenize_eq_some_iff.2 ⟨read.map Token.shift, p.shift, last.map Token.shift, ?_, ?_, ?_⟩
  · rw [toList_shift]
    exact scan_shift scanned
  · rw [ended_shift, ended]
    rfl
  · rw [List.map_append]

theorem closed_indentation : Closed "    " [] :=
  rfl

theorem tokenize_indent {text : String} {ts : List Token} (h : tokenize text = some ts) :
    tokenize (indent text) = some (ts.map Token.shift) :=
  closed_indentation.tokenize_append (tokenize_shift h)

end Sql
end QueryCalculus
