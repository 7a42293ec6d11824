import QueryCalculus.Sql.Expr

/-!
# Reading quotations

- `Place.next` : how a character of a text is read, outside or inside of a quotation
- `stringLiterals` : the values of the string literals of a text
- `Quotes` : a text that ends outside of its quotations, with the values of its literals
- `quotes_quoteString`, `Quotes.shift`, `Quotes.append` : quoted, indented and joined texts
- `scanString` : reads one string literal at the front of a text

A quotation stands between two marks, and a mark inside of it is written twice. So a mark closes a
quotation only if no other one follows.
-/

namespace QueryCalculus
namespace Sql

/-! ## Marks -/

/-- Apostrophes enclose string literals, and quotation marks enclose names. -/
inductive Mark
  | string
  | name
  deriving DecidableEq

def Mark.char : Mark → Char
  | .string => '\''
  | .name => '"'

def mark? (c : Char) : Option Mark :=
  if c = '\'' then some .string else if c = '"' then some .name else none

theorem mark?_char (mark : Mark) : mark? mark.char = some mark := by
  cases mark <;> rfl

theorem ne_char {c : Char} {mark : Mark} (h : mark? c = none) : c ≠ mark.char := by
  rintro rfl
  rw [mark?_char] at h
  cases h

/-- A text without marks. -/
def Plain (text : String) : Prop :=
  ∀ c ∈ text.toList, mark? c = none

instance (text : String) : Decidable (Plain text) :=
  List.decidableBAll (fun c => mark? c = none) text.toList

/-- A text that does not begin with a mark. -/
def Unmarked (text : String) : Prop :=
  ∀ c, text.toList.head? = some c → mark? c = none

theorem Plain.append {text text' : String} (h : Plain text) (h' : Plain text') :
    Plain (text ++ text') := by
  intro c hc
  rw [String.toList_append] at hc
  exact (List.mem_append.1 hc).elim (h c) (h' c)

theorem Plain.unmarked_append {text text' : String} (h : Plain text) (nonempty : text ≠ "") :
    Unmarked (text ++ text') := by
  intro c hc
  cases characters : text.toList with
  | nil => exact absurd (String.toList_eq_nil_iff.1 characters) nonempty
  | cons d ds =>
    rw [String.toList_append, characters, List.cons_append, List.head?_cons,
      Option.some.injEq] at hc
    exact h c (by simp [characters, hc])

theorem Plain.unmarked {text : String} (h : Plain text) : Unmarked text :=
  fun c hc => h c (List.mem_of_mem_head? hc)

/-! ## Places in a text -/

/-- Where reading stands: outside of quotations, inside of one that has been read so far, or right
behind a mark that closes it unless it is repeated. -/
inductive Place
  | outside
  | inside (mark : Mark) (read : List Char)
  | behind (mark : Mark) (read : List Char)

namespace Place

/-- The place behind a character that is not part of a quotation. -/
def start (c : Char) : Place :=
  match mark? c with
  | some mark => .inside mark []
  | none => .outside

def next : Place → Char → Place
  | .outside, c => start c
  | .inside mark read, c => if c = mark.char then .behind mark read else .inside mark (read ++ [c])
  | .behind mark read, c => if c = mark.char then .inside mark (read ++ [c]) else start c

/-- The string literal that ends at a place. -/
def ended : Place → List (List Char)
  | .behind .string read => [read]
  | _ => []

/-- The string literal that is known to end at a place, given the next character. -/
def closed : Place → Char → List (List Char)
  | .behind mark read, c => if c = mark.char then [] else (Place.behind mark read).ended
  | _, _ => []

def after (p : Place) (text : List Char) : Place :=
  text.foldl next p

/-- The string literals that are closed within a text. -/
def literals : Place → List Char → List (List Char)
  | _, [] => []
  | p, c :: cs => p.closed c ++ (p.next c).literals cs

theorem after_cons (p : Place) (c : Char) (cs : List Char) :
    p.after (c :: cs) = (p.next c).after cs :=
  rfl

theorem after_append (p : Place) (text text' : List Char) :
    p.after (text ++ text') = (p.after text).after text' :=
  List.foldl_append

theorem literals_append (p : Place) (text text' : List Char) :
    p.literals (text ++ text') = p.literals text ++ (p.after text).literals text' := by
  induction text generalizing p with
  | nil => rfl
  | cons c cs ih =>
    rw [List.cons_append, literals, literals, ih, List.append_assoc]
    rfl

/-- Behind a mark or outside, a character that is no mark leads outside and closes what can be
closed. -/
theorem next_of_unmarked {p : Place} (notInside : ∀ mark read, p ≠ .inside mark read) {c : Char}
    (unmarked : mark? c = none) : p.next c = .outside ∧ p.closed c = p.ended := by
  cases p with
  | outside => simp [next, start, unmarked, closed, ended]
  | inside mark read => exact absurd rfl (notInside mark read)
  | behind mark read => simp [next, start, unmarked, closed, ne_char unmarked]

theorem after_plain {text : List Char} (plain : ∀ c ∈ text, mark? c = none) :
    outside.after text = .outside ∧ outside.literals text = [] := by
  induction text with
  | nil => exact ⟨rfl, rfl⟩
  | cons c cs ih =>
    have first := plain c List.mem_cons_self
    have rest := ih fun d hd => plain d (List.mem_cons_of_mem c hd)
    have step : outside.next c = .outside := by simp [next, start, first]
    constructor
    · rw [after, List.foldl_cons, step]
      exact rest.1
    · rw [literals, step, rest.2]
      rfl

end Place

/-- The values of the string literals of a text. One that is not closed does not count. -/
def stringLiterals (text : String) : List String :=
  (Place.outside.literals text.toList ++ (Place.outside.after text.toList).ended).map String.ofList

/-- The text ends outside of its quotations and has the given string literals. -/
structure Quotes (text : String) (literals : List String) : Prop where
  complete : ∀ mark read, Place.outside.after text.toList ≠ .inside mark read
  literals : stringLiterals text = literals

/-! ## Joined texts -/

theorem quotes_plain {text : String} (plain : Plain text) : Quotes text [] := by
  have read := Place.after_plain plain
  constructor
  · intro mark characters
    rw [read.1]
    exact Place.noConfusion
  · rw [stringLiterals, read.1, read.2]
    rfl

theorem Quotes.append {text text' : String} {literals literals' : List String}
    (h : Quotes text literals) (h' : Quotes text' literals') (unmarked : Unmarked text') :
    Quotes (text ++ text') (literals ++ literals') := by
  cases characters : text'.toList with
  | nil =>
    have none : text' = "" := String.toList_eq_nil_iff.1 characters
    subst none
    have empty : literals' = [] := h'.literals.symm
    rw [String.append_empty, empty, List.append_nil]
    exact h
  | cons c cs =>
    have first : mark? c = none := unmarked c (by rw [characters, List.head?_cons])
    have here := Place.next_of_unmarked h.complete first
    have there := Place.next_of_unmarked (p := .outside) (fun _ _ => Place.noConfusion) first
    -- behind the first character of the second text both readings are outside
    have same : Place.outside.after (text ++ text').toList = Place.outside.after text'.toList := by
      rw [String.toList_append, Place.after_append, characters]
      simp only [Place.after, List.foldl_cons] at here ⊢
      rw [here.1, there.1]
    have read : Place.outside.literals (text ++ text').toList =
        Place.outside.literals text.toList ++ (Place.outside.after text.toList).ended ++
          Place.outside.literals text'.toList := by
      rw [String.toList_append, Place.literals_append, characters, Place.literals, Place.literals,
        here.1, here.2, there.1, there.2, List.append_assoc]
      rfl
    constructor
    · rw [same]
      exact h'.complete
    · rw [stringLiterals, same, read, ← h.literals, ← h'.literals, stringLiterals, stringLiterals,
        ← List.map_append, List.append_assoc]

theorem Quotes.plain_append {text text' : String} {literals : List String} (plain : Plain text)
    (h : Quotes text' literals) : Quotes (text ++ text') literals := by
  have read := Place.after_plain plain
  have same : Place.outside.after (text ++ text').toList = Place.outside.after text'.toList := by
    rw [String.toList_append, Place.after_append, read.1]
  constructor
  · rw [same]
    exact h.complete
  · rw [stringLiterals, same, String.toList_append, Place.literals_append, read.1, read.2,
      ← h.literals]
    rfl

theorem Quotes.append_plain {text text' : String} {literals : List String}
    (h : Quotes text literals) (plain : Plain text') : Quotes (text ++ text') literals := by
  have both := h.append (quotes_plain plain) plain.unmarked
  rwa [List.append_nil] at both

/-- Two texts with a plain text between them. -/
theorem Quotes.separated {text text' separator : String} {literals literals' : List String}
    (h : Quotes text literals) (h' : Quotes text' literals') (plain : Plain separator)
    (nonempty : separator ≠ "") :
    Quotes (text ++ separator ++ text') (literals ++ literals') := by
  rw [String.append_assoc]
  exact h.append (h'.plain_append plain) (plain.unmarked_append nonempty)

theorem quotes_intercalate {α : Type} {separator : String} (plain : Plain separator)
    (nonempty : separator ≠ "") {items : List α} {text : α → String} {literals : α → List String}
    (each : ∀ a ∈ items, Quotes (text a) (literals a)) :
    Quotes (separator.intercalate (items.map text)) (items.flatMap literals) := by
  induction items with
  | nil =>
    rw [List.map_nil, String.intercalate_nil]
    exact quotes_plain (by decide)
  | cons a items ih =>
    have first := each a List.mem_cons_self
    have rest := ih fun b hb => each b (List.mem_cons_of_mem a hb)
    cases items with
    | nil =>
      simpa [String.intercalate_singleton] using first
    | cons b items =>
      rw [List.map_cons, List.map_cons, String.intercalate_cons_cons, List.flatMap_cons]
      exact first.separated rest plain nonempty

/-! ## Enclosed texts -/

/-- Inside of a quotation, doubled marks are read as one, and a single mark closes it. -/
theorem after_doubled (mark : Mark) (read text : List Char) :
    (Place.inside mark read).after
        (text.flatMap fun c => if c = mark.char then [mark.char, mark.char] else [c]) =
      .inside mark (read ++ text) ∧
    (Place.inside mark read).literals
        (text.flatMap fun c => if c = mark.char then [mark.char, mark.char] else [c]) = [] := by
  induction text generalizing read with
  | nil => simp [Place.after, Place.literals]
  | cons c cs ih =>
    have step : (Place.inside mark read).after
          (if c = mark.char then [mark.char, mark.char] else [c]) = .inside mark (read ++ [c]) ∧
        (Place.inside mark read).literals
          (if c = mark.char then [mark.char, mark.char] else [c]) = [] := by
      by_cases same : c = mark.char
      · simp [same, Place.after, Place.literals, Place.next, Place.closed]
      · simp [same, Place.after, Place.literals, Place.next, Place.closed]
    have rest := ih (read ++ [c])
    rw [List.flatMap_cons, Place.after_append, Place.literals_append, step.1, step.2, rest.1,
      rest.2, List.append_assoc]
    exact ⟨rfl, rfl⟩

theorem toList_enclose (mark : Char) (text : String) :
    (enclose mark text).toList =
      mark :: (text.toList.flatMap fun c => if c = mark then [mark, mark] else [c]) ++ [mark] := by
  simp [enclose, Text.expand, String.toList_append]

theorem quotes_enclose (mark : Mark) (text : String) :
    Quotes (enclose mark.char text)
      ((Place.behind mark text.toList).ended.map String.ofList) := by
  have characters := toList_enclose mark.char text
  have doubled := after_doubled mark [] text.toList
  rw [List.nil_append] at doubled
  have opened : Place.outside.next mark.char = .inside mark [] := by
    simp [Place.next, Place.start, mark?_char]
  have inside : Place.outside.after (mark.char :: text.toList.flatMap fun c =>
      if c = mark.char then [mark.char, mark.char] else [c]) = .inside mark text.toList := by
    rw [Place.after_cons, opened, doubled.1]
  have place : Place.outside.after (enclose mark.char text).toList = .behind mark text.toList := by
    rw [characters, Place.after_append, inside]
    simp [Place.after, Place.next]
  have none : Place.outside.literals (enclose mark.char text).toList = [] := by
    rw [characters, Place.literals_append, inside, Place.literals, opened, doubled.2]
    simp [Place.literals, Place.closed]
  constructor
  · rw [place]
    exact fun _ _ => Place.noConfusion
  · rw [stringLiterals, place, none, List.nil_append]

theorem quotes_quoteString (text : String) : Quotes (quoteString text) [text] := by
  have read := quotes_enclose .string text
  rwa [Place.ended, List.map_cons, List.map_nil, String.ofList_toList] at read

theorem quotes_quoteName (name : String) : Quotes (quoteName name) [] :=
  quotes_enclose .name name

/-! ## One literal -/

/-- The value of a string literal behind its opening mark, and the text behind the literal. It ends
at the first mark that no other mark follows. -/
def scanQuoted : List Char → Option (List Char × List Char)
  | '\'' :: '\'' :: rest => (scanQuoted rest).map fun scanned => ('\'' :: scanned.1, scanned.2)
  | '\'' :: rest => some ([], rest)
  | c :: rest => (scanQuoted rest).map fun scanned => (c :: scanned.1, scanned.2)
  | [] => none

/-- The value of the string literal at the front of a text, and the text behind the literal. -/
def scanString : List Char → Option (List Char × List Char)
  | '\'' :: rest => scanQuoted rest
  | _ => none

theorem scanQuoted_doubled (value : List Char) {rest : List Char}
    (ends : rest.head? ≠ some '\'') :
    scanQuoted ((value.flatMap fun c => if c = '\'' then ['\'', '\''] else [c]) ++ '\'' :: rest) =
      some (value, rest) := by
  induction value with
  | nil =>
    cases rest with
    | nil => rfl
    | cons d rest =>
      have other : d ≠ '\'' := by simpa using ends
      simp [scanQuoted, other]
  | cons c value ih =>
    by_cases mark : c = '\''
    · simp [mark, scanQuoted, ih]
    · simp [mark, scanQuoted, ih]

/-- A quoted text is scanned as one literal with its value, up to a text that does not go on with a
mark. -/
theorem scanString_quoteString (value : String) {rest : List Char} (ends : rest.head? ≠ some '\'') :
    scanString ((quoteString value).toList ++ rest) = some (value.toList, rest) := by
  rw [quoteString, toList_enclose]
  simpa [scanString] using scanQuoted_doubled value.toList ends

/-! ## Indented texts -/

/-- Puts four blanks behind every line break. -/
def shift (text : String) : String :=
  Text.expand (fun c => if c = '\n' then '\n' :: "    ".toList else [c]) text

def shiftedLines (text : List Char) : List Char :=
  text.flatMap fun c => if c = '\n' then '\n' :: "    ".toList else [c]

theorem indent_eq (text : String) : indent text = "    " ++ shift text :=
  rfl

theorem toList_shift (text : String) : (shift text).toList = shiftedLines text.toList :=
  String.toList_ofList

theorem shiftedLines_append (text text' : List Char) :
    shiftedLines (text ++ text') = shiftedLines text ++ shiftedLines text' :=
  List.flatMap_append

/-- The place at which reading stands in the indented text. -/
def Place.shift : Place → Place
  | .outside => .outside
  | .inside mark read => .inside mark (shiftedLines read)
  | .behind mark read => .behind mark (shiftedLines read)

theorem Place.ended_shift (p : Place) : p.shift.ended = p.ended.map shiftedLines := by
  cases p with
  | behind mark read => cases mark <;> rfl
  | _ => rfl

/-- A line break and the blanks behind it are read like a line break alone. -/
theorem Place.step_shift (p : Place) (c : Char) :
    p.shift.after (shiftedLines [c]) = (p.next c).shift ∧
      p.shift.literals (shiftedLines [c]) = (p.closed c).map shiftedLines := by
  by_cases line : c = '\n'
  · subst line
    have characters : shiftedLines ['\n'] = ['\n', ' ', ' ', ' ', ' '] := rfl
    rw [characters]
    cases p with
    | outside => exact ⟨rfl, rfl⟩
    | inside mark read =>
      -- inside of a quotation the blanks belong to what is quoted
      have kept : shiftedLines (read ++ ['\n']) = shiftedLines read ++ ['\n', ' ', ' ', ' ', ' '] :=
        shiftedLines_append read ['\n']
      cases mark <;> simp [Place.shift, Place.after, Place.literals, Place.next, Place.closed,
        Mark.char, kept]
    | behind mark read => cases mark <;> exact ⟨rfl, rfl⟩
  · have characters : shiftedLines [c] = [c] := by simp [shiftedLines, line]
    rw [characters]
    have kept : ∀ read, shiftedLines (read ++ [c]) = shiftedLines read ++ [c] := by
      intro read
      rw [shiftedLines_append, characters]
    cases p with
    | outside =>
      refine ⟨?_, rfl⟩
      simp only [Place.shift, Place.after, List.foldl_cons, List.foldl_nil, Place.next, Place.start]
      split <;> rfl
    | inside mark read =>
      by_cases same : c = mark.char
      · simp [Place.shift, Place.after, Place.literals, Place.next, Place.closed, same]
      · simp [Place.shift, Place.after, Place.literals, Place.next, Place.closed, same, kept]
    | behind mark read =>
      by_cases same : c = mark.char
      · subst same
        simp [Place.shift, Place.after, Place.literals, Place.next, Place.closed, kept]
      · have ended := Place.ended_shift (.behind mark read)
        simp only [Place.shift] at ended
        simp only [Place.shift, Place.after, List.foldl_cons, List.foldl_nil, Place.literals,
          Place.next, Place.closed, same, if_false, ended, List.append_nil, and_true, Place.start]
        split <;> rfl

theorem Place.shift_text (p : Place) (text : List Char) :
    p.shift.after (shiftedLines text) = (p.after text).shift ∧
      p.shift.literals (shiftedLines text) = (p.literals text).map shiftedLines := by
  induction text generalizing p with
  | nil => exact ⟨rfl, rfl⟩
  | cons c cs ih =>
    have step := p.step_shift c
    have rest := ih (p.next c)
    have characters : shiftedLines (c :: cs) = shiftedLines [c] ++ shiftedLines cs :=
      shiftedLines_append [c] cs
    rw [characters, Place.after_append, Place.literals_append, step.1, step.2, rest.1, rest.2,
      Place.literals, List.map_append]
    exact ⟨rfl, rfl⟩

theorem Quotes.shift {text : String} {literals : List String} (h : Quotes text literals) :
    Quotes (shift text) (literals.map Sql.shift) := by
  have read := Place.outside.shift_text text.toList
  have place : Place.outside.after (Sql.shift text).toList =
      (Place.outside.after text.toList).shift := by
    rw [toList_shift]
    exact read.1
  constructor
  · rw [place]
    intro mark characters
    cases stand : Place.outside.after text.toList with
    | inside mark' read' => exact absurd stand (h.complete mark' read')
    | outside => exact Place.noConfusion
    | behind mark' read' => exact Place.noConfusion
  · have closed : Place.outside.literals (Sql.shift text).toList =
        (Place.outside.literals text.toList).map shiftedLines := by
      rw [toList_shift]
      exact read.2
    rw [← h.literals, stringLiterals, stringLiterals, place, closed, Place.ended_shift,
      ← List.map_append, List.map_map, List.map_map]
    refine List.map_congr_left fun characters _ => ?_
    apply String.toList_inj.1
    simp only [Function.comp, toList_shift, String.toList_ofList]

theorem Quotes.indent {text : String} {literals : List String} (h : Quotes text literals) :
    Quotes (indent text) (literals.map Sql.shift) := by
  rw [indent_eq]
  exact h.shift.plain_append (by decide)

end Sql
end QueryCalculus
