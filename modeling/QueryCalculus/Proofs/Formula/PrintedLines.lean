import Mathlib.Data.List.TakeWhile
import QueryCalculus.Proofs.Formula.Binding

/-!
# What printed formulas look like

- `Phrase`, `Line` : operands with operators between them, and what stands in parentheses
- `Formula.line`, `Formula.text_line` : the line of a formula has its text
- `Text.IsPlain`, `Line.Plain` : names without the characters of the notation
- `Line.eq_of_text` : lines of plain names that have the same text are the same

A line does not show how its operands are grouped. It shows all parentheses, and nothing of a
junction of one part.
-/

namespace QueryCalculus

mutual

/-- An operand of a printed formula. -/
inductive Phrase
  | truth (value : Bool)
  | predicate (name : String) (arguments : List String)
  | comparison (relation : Relation) (left right : String)
  | neg (body : Line)
  | quant (q : Quantifier) (names : List String) (body : Line)
  | bracket (body : Line)

/-- Operands with operators between them. -/
inductive Line
  | single (p : Phrase)
  | more (p : Phrase) (c : Connective) (rest : Line)

end

mutual

def Phrase.text : Phrase → String
  | .truth value => (Atom.truth value).text
  | .predicate name arguments => name ++ "(" ++ Text.commaSeparated arguments ++ ")"
  | .comparison relation left right => left ++ " " ++ relation.symbol ++ " " ++ right
  | .neg body => "NOT (" ++ body.text ++ ")"
  | .quant q names body =>
    q.symbol ++ " " ++ Text.commaSeparated names ++ " (" ++ body.text ++ ")"
  | .bracket body => "(" ++ body.text ++ ")"

def Line.text : Line → String
  | .single p => p.text
  | .more p c rest => p.text ++ (" " ++ c.operator ++ " ") ++ rest.text

end

/-! ## The line of a formula -/

namespace Line

def append (l : Line) (c : Connective) (m : Line) : Line :=
  match l with
  | .single p => .more p c m
  | .more p d rest => .more p d (rest.append c m)

/-- Several lines in one, with the same operator between them. -/
def joined (c : Connective) : List Line → Line
  | [] => .single (.truth c.unit)
  | [l] => l
  | l :: m :: rest => l.append c (joined c (m :: rest))

theorem text_append (l : Line) (c : Connective) (m : Line) :
    (l.append c m).text = l.text ++ (" " ++ c.operator ++ " ") ++ m.text := by
  match l with
  | .single p => rfl
  | .more p d rest =>
    have tail := text_append rest c m
    simp only [append, text, tail, String.append_assoc]

theorem text_joined (c : Connective) (l m : Line) (ls : List Line) :
    (joined c (l :: m :: ls)).text =
      String.intercalate (" " ++ c.operator ++ " ") ((l :: m :: ls).map text) := by
  induction ls generalizing l m with
  | nil =>
    simp only [joined, text_append, List.map_cons, List.map_nil, String.intercalate_cons_cons,
      String.intercalate_singleton]
  | cons m' ls ih =>
    simp only [List.map_cons, String.intercalate_cons_cons] at ih ⊢
    rw [joined, text_append, ih m m']

end Line

def Atom.phrase : Atom → Phrase
  | .truth value => .truth value
  | .predicate a => .predicate a.predicate (a.terms.map Term.text)
  | .comparison c => .comparison c.relation c.left.text c.right.text

theorem Atom.text_phrase (a : Atom) : a.phrase.text = a.text := by
  cases a <;> rfl

namespace Formula

mutual

def line : Formula → Line
  | .atom a => .single a.phrase
  | .junction c [] => .single (.truth c.unit)
  | .junction _ [part] => part.line
  | .junction c (p :: q :: rest) => .joined c (partLines (p :: q :: rest))
  | .neg body => .single (.neg body.line)
  | .quant q vars body => .single (.quant q (vars.toList.map (·.name)) body.line)

def partLines : List Formula → List Line
  | [] => []
  | f :: fs => (if f.isCompound then .single (.bracket f.line) else f.line) :: partLines fs

end

/-- The line of a formula between operators. -/
def partLine (f : Formula) : Line :=
  if f.isCompound then .single (.bracket f.line) else f.line

theorem partLines_eq_map (fs : List Formula) : partLines fs = fs.map partLine := by
  induction fs with
  | nil => rfl
  | cons f fs ih => simp [partLines, partLine, ih]

theorem line_junction (c : Connective) (p q : Formula) (rest : List Formula) :
    (junction c (p :: q :: rest)).line = .joined c ((p :: q :: rest).map partLine) := by
  rw [line, partLines_eq_map]

theorem text_partLine {f : Formula} (same : f.line.text = f.text) :
    f.partLine.text = if f.isCompound then "(" ++ f.text ++ ")" else f.text := by
  rw [partLine]
  split
  · rw [Line.text, Phrase.text, same]
  · exact same

/-- The line of a formula is printed like the formula. -/
theorem text_line (f : Formula) : f.line.text = f.text := by
  induction f with
  | atom a => exact a.text_phrase
  | junction c parts ih =>
    match parts with
    | [] => rfl
    | [part] => exact ih part List.mem_cons_self
    | p :: q :: rest =>
      have texts : ((p :: q :: rest).map partLine).map Line.text = partTexts (p :: q :: rest) := by
        rw [partTexts_eq_map, List.map_map]
        exact List.map_congr_left fun f hf => text_partLine (ih f hf)
      rw [line_junction, text, ← texts]
      exact Line.text_joined c _ _ _
  | neg body ih => simp only [line, Line.text, Phrase.text, text, ih]
  | quant q vars body ih =>
    simp only [line, Line.text, Phrase.text, text, quantifiedText, VarSet.text, ih]

end Formula

/-! ## Plain names -/

namespace Text

/-- The characters that the notation of formulas does not use itself. -/
def isPlainChar (c : Char) : Bool :=
  !([' ', '(', ')', ',', '=', '!', '\\'].contains c)

/-- A name that can stand in a formula without being mistaken for something else. -/
def IsPlain (name : String) : Prop :=
  name ≠ "" ∧ name.toList.all isPlainChar = true

instance (name : String) : Decidable (IsPlain name) :=
  inferInstanceAs (Decidable (_ ∧ _))

/-- No plain character comes next. -/
def Stops (rest : List Char) : Prop :=
  ∀ c ∈ rest.head?, isPlainChar c = false

theorem takeWhile_plain {word rest : List Char} (plain : word.all isPlainChar = true)
    (stops : Stops rest) : (word ++ rest).takeWhile isPlainChar = word := by
  rw [List.takeWhile_append_of_pos (List.all_eq_true.1 plain)]
  cases rest with
  | nil => simp
  | cons c rest => simp [stops c rfl]

/-- A word ends where the plain characters do. -/
theorem word_append_inj {word word' rest rest' : List Char} (plain : word.all isPlainChar = true)
    (plain' : word'.all isPlainChar = true) (stops : Stops rest) (stops' : Stops rest')
    (same : word ++ rest = word' ++ rest') : word = word' ∧ rest = rest' := by
  have words : word = word' := by
    rw [← takeWhile_plain plain stops, same, takeWhile_plain plain' stops']
  cases words
  exact ⟨rfl, List.append_cancel_left same⟩

/-- What follows a list of names: neither a plain character nor a comma. -/
def Follows (rest : List Char) : Prop :=
  ∀ c ∈ rest.head?, c = ')' ∨ c = ' '

theorem Follows.stops {rest : List Char} (follows : Follows rest) : Stops rest := by
  intro c hc
  rcases follows c hc with rfl | rfl <;> rfl

/-- The names behind the first one, each with a comma in front. -/
def furtherNames (xs : List String) : List Char :=
  xs.flatMap fun x => ',' :: ' ' :: x.toList

theorem toList_commaSeparated_cons (x : String) (xs : List String) :
    (commaSeparated (x :: xs)).toList = x.toList ++ furtherNames xs := by
  induction xs generalizing x with
  | nil => simp [commaSeparated, furtherNames]
  | cons y ys ih =>
    have rest : furtherNames (y :: ys) = ',' :: ' ' :: (y.toList ++ furtherNames ys) := rfl
    have split : (commaSeparated (x :: y :: ys)).toList =
        x.toList ++ ',' :: ' ' :: (commaSeparated (y :: ys)).toList := by
      simp [commaSeparated, String.intercalate_cons_cons]
    rw [split, ih y, rest]

theorem stops_furtherNames (xs : List String) {rest : List Char} (follows : Follows rest) :
    Stops (furtherNames xs ++ rest) := by
  cases xs with
  | nil => exact follows.stops
  | cons x xs =>
    intro c hc
    cases Option.some.inj hc
    rfl

section Names

variable {xs ys : List String} {rest rest' : List Char}

theorem name_append_inj {x y : String} (plain : IsPlain x) (plain' : IsPlain y)
    (stops : Stops rest) (stops' : Stops rest') (same : x.toList ++ rest = y.toList ++ rest') :
    x = y ∧ rest = rest' := by
  have ⟨words, rests⟩ := word_append_inj plain.2 plain'.2 stops stops' same
  exact ⟨String.toList_inj.1 words, rests⟩

theorem furtherNames_append_inj (plain : ∀ x ∈ xs, IsPlain x) (plain' : ∀ y ∈ ys, IsPlain y)
    (follows : Follows rest) (follows' : Follows rest')
    (same : furtherNames xs ++ rest = furtherNames ys ++ rest') : xs = ys ∧ rest = rest' := by
  -- a comma announces one more name, so what follows the names does not start with one
  have noComma : ∀ {rest more : List Char}, Follows rest → rest ≠ ',' :: more := by
    rintro _ more follows rfl
    exact absurd (follows ',' rfl) (by decide)
  induction xs generalizing ys with
  | nil =>
    cases ys with
    | nil => exact ⟨rfl, same⟩
    | cons y ys => exact absurd same (noComma follows)
  | cons x xs ih =>
    cases ys with
    | nil => exact absurd same.symm (noComma follows')
    | cons y ys =>
      have behind : x.toList ++ (furtherNames xs ++ rest) =
          y.toList ++ (furtherNames ys ++ rest') := by
        simpa [furtherNames] using same
      have ⟨first, others⟩ := name_append_inj (plain x List.mem_cons_self)
        (plain' y List.mem_cons_self) (stops_furtherNames xs follows)
        (stops_furtherNames ys follows') behind
      have ⟨names, rests⟩ := ih (fun z hz => plain z (List.mem_cons_of_mem x hz))
        (fun z hz => plain' z (List.mem_cons_of_mem y hz)) others
      exact ⟨by rw [first, names], rests⟩

/-- A list of names can be read off the text. -/
theorem commaSeparated_append_inj (plain : ∀ x ∈ xs, IsPlain x) (plain' : ∀ y ∈ ys, IsPlain y)
    (follows : Follows rest) (follows' : Follows rest')
    (same : (commaSeparated xs).toList ++ rest = (commaSeparated ys).toList ++ rest') :
    xs = ys ∧ rest = rest' := by
  -- a list of names does not start with what may follow it
  have starts : ∀ {x xs rest rest'}, IsPlain x → Follows rest' →
      (commaSeparated (x :: xs)).toList ++ rest ≠ rest' := by
    rintro x xs rest _ plain follows rfl
    have nonempty : x.toList ≠ [] := mt String.toList_eq_nil_iff.1 plain.1
    rcases List.exists_cons_of_ne_nil nonempty with ⟨c, word, spelled⟩
    have letter : isPlainChar c = true :=
      List.all_eq_true.1 plain.2 c (spelled ▸ List.mem_cons_self)
    have stops := follows.stops c (by simp [toList_commaSeparated_cons, spelled])
    exact absurd letter (by simp [stops])
  cases xs with
  | nil =>
    cases ys with
    | nil => exact ⟨rfl, same⟩
    | cons y ys => exact absurd same.symm (starts (plain' y List.mem_cons_self) follows)
  | cons x xs =>
    cases ys with
    | nil => exact absurd same (starts (plain x List.mem_cons_self) follows')
    | cons y ys =>
      refine furtherNames_append_inj plain plain' follows follows' ?_
      simpa [toList_commaSeparated_cons, furtherNames] using same

end Names

end Text

/-! ## Reading phrases -/

mutual

def Phrase.Plain : Phrase → Prop
  | .truth _ => True
  | .predicate name arguments => Text.IsPlain name ∧ ∀ x ∈ arguments, Text.IsPlain x
  | .comparison _ left right => Text.IsPlain left ∧ Text.IsPlain right
  | .neg body => body.Plain
  | .quant _ names body => (∀ x ∈ names, Text.IsPlain x) ∧ body.Plain
  | .bracket body => body.Plain

def Line.Plain : Line → Prop
  | .single p => p.Plain
  | .more p _ rest => p.Plain ∧ rest.Plain

end

/-- The end of a line. -/
def Line.Ends (rest : List Char) : Prop :=
  ∀ c ∈ rest.head?, c = ')'

/-- The end of a phrase: the line ends there, or an operator comes next. -/
def Phrase.Ends (rest : List Char) : Prop :=
  Line.Ends rest ∨
    ∃ (c : Connective) (more : List Char), rest = ' ' :: (c.operator.toList ++ ' ' :: more)

namespace Phrase

/-- The plain characters at the start of a phrase. -/
def word : Phrase → List Char
  | .truth value => (Atom.truth value).text.toList
  | .predicate name _ => name.toList
  | .comparison _ left _ => left.toList
  | .neg _ => ['N', 'O', 'T']
  | .quant _ _ _ => []
  | .bracket _ => []

/-- What comes behind the plain characters at the start. -/
def tail : Phrase → List Char
  | .truth _ => []
  | .predicate _ arguments => '(' :: ((Text.commaSeparated arguments).toList ++ [')'])
  | .comparison relation _ right => ' ' :: (relation.symbol.toList ++ ' ' :: right.toList)
  | .neg body => ' ' :: '(' :: (body.text.toList ++ [')'])
  | .quant q names body =>
    q.symbol.toList ++ ' ' :: ((Text.commaSeparated names).toList ++
      ' ' :: '(' :: (body.text.toList ++ [')']))
  | .bracket body => '(' :: (body.text.toList ++ [')'])

theorem toList_text (p : Phrase) : p.text.toList = p.word ++ p.tail := by
  cases p <;> simp [text, word, tail]

/-- Which kind of phrase it is that goes on in this way. -/
inductive Cue
  | ended
  | opened
  | related
  | negated
  | quantified

def Cue.ofRest : List Char → Cue
  | '(' :: _ => .opened
  | ' ' :: '(' :: _ => .negated
  | ' ' :: '=' :: _ => .related
  | ' ' :: '!' :: _ => .related
  | '\\' :: _ => .quantified
  | _ => .ended

def cue : Phrase → Cue
  | .truth _ => .ended
  | .predicate _ _ => .opened
  | .comparison _ _ _ => .related
  | .neg _ => .negated
  | .quant _ _ _ => .quantified
  | .bracket _ => .opened

variable {p q : Phrase} {rest rest' : List Char}

theorem Ends.cases (ends : Ends rest) : rest = [] ∨ (∃ more, rest = ')' :: more) ∨
    ∃ (c : Connective) (more : List Char), rest = ' ' :: (c.operator.toList ++ ' ' :: more) := by
  rcases ends with ends | operator
  · cases rest with
    | nil => exact .inl rfl
    | cons c more => exact .inr (.inl ⟨more, by rw [ends c rfl]⟩)
  · exact .inr (.inr operator)

theorem Ends.follows (ends : Ends rest) : Text.Follows rest := by
  intro c hc
  rcases ends.cases with rfl | ⟨more, rfl⟩ | ⟨d, more, rfl⟩
  · cases hc
  · exact .inl (Option.some.inj hc).symm
  · exact .inr (Option.some.inj hc).symm

theorem ofRest_tail (p : Phrase) (ends : Ends rest) : Cue.ofRest (p.tail ++ rest) = p.cue := by
  cases p with
  | truth value =>
    rcases ends.cases with rfl | ⟨more, rfl⟩ | ⟨c, more, rfl⟩
    · rfl
    · rfl
    · cases c <;> rfl
  | predicate name arguments => rfl
  | comparison relation left right => cases relation <;> rfl
  | neg body => rfl
  | quant q names body => cases q <;> rfl
  | bracket body => rfl

theorem stops_tail (p : Phrase) (ends : Ends rest) : Text.Stops (p.tail ++ rest) := by
  cases p with
  | truth value => exact ends.follows.stops
  | quant q names body =>
    intro c hc
    cases q <;> cases Option.some.inj hc <;> rfl
  | _ =>
    intro c hc
    cases Option.some.inj hc
    rfl

theorem plain_word (plain : p.Plain) : p.word.all Text.isPlainChar = true := by
  cases p with
  | truth value => cases value <;> rfl
  | predicate name arguments => exact plain.1.2
  | comparison relation left right => exact plain.1.2
  | neg body => rfl
  | quant q names body => rfl
  | bracket body => rfl

/-- Phrases with the same text start with the same word and are of the same kind. -/
theorem word_tail_inj (plain : p.Plain) (plain' : q.Plain) (ends : Ends rest) (ends' : Ends rest')
    (same : p.text.toList ++ rest = q.text.toList ++ rest') :
    p.word = q.word ∧ p.tail ++ rest = q.tail ++ rest' ∧ p.cue = q.cue := by
  rw [toList_text, toList_text, List.append_assoc, List.append_assoc] at same
  have ⟨words, tails⟩ := Text.word_append_inj (plain_word plain) (plain_word plain')
    (stops_tail p ends) (stops_tail q ends') same
  exact ⟨words, tails, by rw [← ofRest_tail p ends, tails, ofRest_tail q ends']⟩

/-! Phrases of one kind without lines in them. -/

theorem truth_append_inj {b d : Bool}
    (words : (Phrase.truth b).word = (Phrase.truth d).word) : Phrase.truth b = .truth d := by
  cases b <;> cases d <;> first | rfl | exact absurd words (by decide)

theorem predicate_append_inj {n m : String} {xs ys : List String}
    (plain : (predicate n xs).Plain) (plain' : (predicate m ys).Plain)
    (words : (predicate n xs).word = (predicate m ys).word)
    (tails : (predicate n xs).tail ++ rest = (predicate m ys).tail ++ rest') :
    predicate n xs = predicate m ys ∧ rest = rest' := by
  have behind : (Text.commaSeparated xs).toList ++ ')' :: rest =
      (Text.commaSeparated ys).toList ++ ')' :: rest' := by
    simpa [tail] using tails
  have closed : ∀ more, Text.Follows (')' :: more) := fun _ _ hc =>
    .inl (Option.some.inj hc).symm
  have ⟨arguments, rests⟩ :=
    Text.commaSeparated_append_inj plain.2 plain'.2 (closed _) (closed _) behind
  exact ⟨by rw [String.toList_inj.1 words, arguments], (List.cons.inj rests).2⟩

theorem comparison_append_inj {r s : Relation} {a b a' b' : String}
    (plain : (comparison r a b).Plain) (plain' : (comparison s a' b').Plain)
    (ends : Ends rest) (ends' : Ends rest')
    (words : (comparison r a b).word = (comparison s a' b').word)
    (tails : (comparison r a b).tail ++ rest = (comparison s a' b').tail ++ rest') :
    comparison r a b = comparison s a' b' ∧ rest = rest' := by
  have symbols : r = s ∧ b.toList ++ rest = b'.toList ++ rest' := by
    revert tails
    cases r <;> cases s <;> simp [tail, Relation.symbol]
  have ⟨sides, rests⟩ := Text.name_append_inj plain.2 plain'.2 ends.follows.stops
    ends'.follows.stops symbols.2
  exact ⟨by rw [String.toList_inj.1 words, symbols.1, sides], rests⟩

/-- Quantifiers are told apart by their symbols, and their variables end at a blank. -/
theorem quant_tail_inj {q r : Quantifier} {xs ys : List String} {l m : Line}
    (plain : (quant q xs l).Plain) (plain' : (quant r ys m).Plain)
    (tails : (quant q xs l).tail ++ rest = (quant r ys m).tail ++ rest') :
    q = r ∧ xs = ys ∧ l.text.toList ++ ')' :: rest = m.text.toList ++ ')' :: rest' := by
  have symbols : q = r ∧
      (Text.commaSeparated xs).toList ++ ' ' :: '(' :: (l.text.toList ++ ')' :: rest) =
        (Text.commaSeparated ys).toList ++ ' ' :: '(' :: (m.text.toList ++ ')' :: rest') := by
    revert tails
    cases q <;> cases r <;> simp [tail, Quantifier.symbol]
  have blank : ∀ more, Text.Follows (' ' :: more) := fun _ _ hc =>
    .inr (Option.some.inj hc).symm
  have ⟨names, rests⟩ :=
    Text.commaSeparated_append_inj plain.1 plain'.1 (blank _) (blank _) symbols.2
  exact ⟨symbols.1, names, (List.cons.inj (List.cons.inj rests).2).2⟩

end Phrase

namespace Line

theorem ends_closed (more : List Char) : Ends (')' :: more) :=
  fun _ hc => (Option.some.inj hc).symm

/-- A line that goes on behind its first phrase. -/
theorem toList_text_more (p : Phrase) (c : Connective) (l : Line) (rest : List Char) :
    (more p c l).text.toList ++ rest =
      p.text.toList ++ ' ' :: (c.operator.toList ++ ' ' :: (l.text.toList ++ rest)) := by
  simp [text]

theorem operator_append_inj {c d : Connective} {rest rest' : List Char} :
    ' ' :: (c.operator.toList ++ ' ' :: rest) = ' ' :: (d.operator.toList ++ ' ' :: rest') →
      c = d ∧ rest = rest' := by
  cases c <;> cases d <;> simp [Connective.operator]

/-- No operator follows where a line ends. -/
theorem Ends.ne_operator {rest more : List Char} (ends : Ends rest) : rest ≠ ' ' :: more := by
  rintro rfl
  exact absurd (ends ' ' rfl) (by decide)

end Line

mutual

/-- A phrase can be read off a text that starts with it. -/
theorem Phrase.text_append_inj (p q : Phrase) (plain : p.Plain) (plain' : q.Plain)
    {rest rest' : List Char} (ends : Phrase.Ends rest) (ends' : Phrase.Ends rest')
    (same : p.text.toList ++ rest = q.text.toList ++ rest') : p = q ∧ rest = rest' := by
  have ⟨words, tails, cues⟩ := Phrase.word_tail_inj plain plain' ends ends' same
  -- phrases of different kinds go on differently behind their first word
  cases p with
  | truth b =>
    cases q with
    | truth d => exact ⟨Phrase.truth_append_inj words, tails⟩
    | _ => cases cues
  | predicate n xs =>
    cases q with
    | predicate m ys => exact Phrase.predicate_append_inj plain plain' words tails
    | bracket m =>
      -- only a parenthesis that belongs to a predicate has a name in front
      exact absurd (String.toList_eq_nil_iff.1 words) plain.1.1
    | _ => cases cues
  | comparison r a b =>
    cases q with
    | comparison s a' b' => exact Phrase.comparison_append_inj plain plain' ends ends' words tails
    | _ => cases cues
  | neg l =>
    cases q with
    | neg m =>
      have behind : l.text.toList ++ ')' :: rest = m.text.toList ++ ')' :: rest' := by
        simpa [Phrase.tail] using tails
      have ⟨bodies, rests⟩ := Line.text_append_inj l m plain plain' (Line.ends_closed _)
        (Line.ends_closed _) behind
      exact ⟨by rw [bodies], (List.cons.inj rests).2⟩
    | _ => cases cues
  | quant k xs l =>
    cases q with
    | quant k' ys m =>
      have ⟨symbols, names, behind⟩ := Phrase.quant_tail_inj plain plain' tails
      have ⟨bodies, rests⟩ := Line.text_append_inj l m plain.2 plain'.2 (Line.ends_closed _)
        (Line.ends_closed _) behind
      exact ⟨by rw [symbols, names, bodies], (List.cons.inj rests).2⟩
    | _ => cases cues
  | bracket l =>
    cases q with
    | bracket m =>
      have behind : l.text.toList ++ ')' :: rest = m.text.toList ++ ')' :: rest' := by
        simpa [Phrase.tail] using tails
      have ⟨bodies, rests⟩ := Line.text_append_inj l m plain plain' (Line.ends_closed _)
        (Line.ends_closed _) behind
      exact ⟨by rw [bodies], (List.cons.inj rests).2⟩
    | predicate m ys => exact absurd (String.toList_eq_nil_iff.1 words.symm) plain'.1.1
    | _ => cases cues

/-- A line can be read off a text that goes on with a parenthesis. -/
theorem Line.text_append_inj (l m : Line) (plain : l.Plain) (plain' : m.Plain)
    {rest rest' : List Char} (ends : Line.Ends rest) (ends' : Line.Ends rest')
    (same : l.text.toList ++ rest = m.text.toList ++ rest') : l = m ∧ rest = rest' := by
  cases l with
  | single p =>
    cases m with
    | single q =>
      have ⟨phrases, rests⟩ := Phrase.text_append_inj p q plain plain' (.inl ends) (.inl ends')
        same
      exact ⟨by rw [phrases], rests⟩
    | more q d m =>
      rw [Line.toList_text_more] at same
      have ⟨_, rests⟩ := Phrase.text_append_inj p q plain plain'.1 (.inl ends)
        (.inr ⟨d, _, rfl⟩) same
      -- the line would go on with an operator
      exact absurd rests ends.ne_operator
  | more p c l =>
    cases m with
    | single q =>
      rw [Line.toList_text_more] at same
      have ⟨_, rests⟩ := Phrase.text_append_inj p q plain.1 plain' (.inr ⟨c, _, rfl⟩)
        (.inl ends') same
      exact absurd rests.symm ends'.ne_operator
    | more q d m =>
      rw [Line.toList_text_more, Line.toList_text_more] at same
      have ⟨phrases, behind⟩ := Phrase.text_append_inj p q plain.1 plain'.1 (.inr ⟨c, _, rfl⟩)
        (.inr ⟨d, _, rfl⟩) same
      have ⟨operators, others⟩ := Line.operator_append_inj behind
      have ⟨lines, rests⟩ := Line.text_append_inj l m plain.2 plain'.2 ends ends' others
      exact ⟨by rw [phrases, operators, lines], rests⟩

end

/-- Lines of plain names are told apart by their texts. -/
theorem Line.eq_of_text {l m : Line} (plain : l.Plain) (plain' : m.Plain) (same : l.text = m.text) :
    l = m := by
  have atEnd : Line.Ends [] := fun c hc => nomatch hc
  exact (Line.text_append_inj l m plain plain' atEnd atEnd (by rw [same])).1

/-! ## Plain formulas -/

/-- A variable of the scope with a plain name. -/
def Term.PlainIn (scope : Option Nat) : Term → Prop
  | .var x => Text.IsPlain x.name ∧ x.scope = scope
  | .const _ => False

instance (scope : Option Nat) (t : Term) : Decidable (t.PlainIn scope) :=
  match t with
  | .var x => inferInstanceAs (Decidable (Text.IsPlain x.name ∧ x.scope = scope))
  | .const _ => inferInstanceAs (Decidable False)

theorem Term.PlainIn.text {scope : Option Nat} {t : Term} (plain : t.PlainIn scope) :
    Text.IsPlain t.text := by
  cases t with
  | var x => exact plain.1
  | const c => exact plain.elim

namespace Formula

/-- Predicates and variables have plain names, the variables are in one scope, and there are no
constants. -/
structure Plain (scope : Option Nat) (f : Formula) : Prop where
  predicates : ∀ a ∈ f.atoms.filterMap Atom.predicate?, Text.IsPlain a.predicate
  terms : ∀ t ∈ f.terms, t.PlainIn scope
  binders : ∀ x ∈ f.binders, Text.IsPlain x.name ∧ x.scope = scope

instance (scope : Option Nat) (f : Formula) : Decidable (f.Plain scope) :=
  decidable_of_iff
    ((∀ a ∈ f.atoms.filterMap Atom.predicate?, Text.IsPlain a.predicate) ∧
      (∀ t ∈ f.terms, t.PlainIn scope) ∧
      ∀ x ∈ f.binders, Text.IsPlain x.name ∧ x.scope = scope)
    ⟨fun h => ⟨h.1, h.2.1, h.2.2⟩, fun h => ⟨h.predicates, h.terms, h.binders⟩⟩

namespace Plain

variable {scope : Option Nat} {f g : Formula}

theorem mono (plain : f.Plain scope) (atoms : g.atoms ⊆ f.atoms) (binders : g.binders ⊆ f.binders) :
    g.Plain scope where
  predicates a ha := plain.predicates a (List.filterMap_subset _ atoms ha)
  terms t ht := by
    rcases List.mem_flatMap.1 ht with ⟨a, ha, ht⟩
    exact plain.terms t (List.mem_flatMap.2 ⟨a, atoms ha, ht⟩)
  binders x hx := plain.binders x (binders hx)

theorem part {c : Connective} {parts : List Formula} (plain : (junction c parts).Plain scope)
    (hf : f ∈ parts) : f.Plain scope :=
  plain.mono (fun _ ha => mem_atoms_junction.2 ⟨f, hf, ha⟩)
    fun _ hx => mem_binders_junction.2 ⟨f, hf, hx⟩

theorem body {q : Quantifier} {vars : VarSet} (plain : (quant q vars f).Plain scope) :
    f.Plain scope :=
  plain.mono (fun _ ha => ha) fun _ hx => mem_binders_quant.2 (.inr hx)

theorem quantified {q : Quantifier} {vars : VarSet} (plain : (quant q vars f).Plain scope)
    {x : Variable} (hx : x ∈ vars.toList) : Text.IsPlain x.name ∧ x.scope = scope :=
  plain.binders x.toIdent (mem_binders_quant.2 (.inl (VarSet.toIdent_mem hx)))

theorem atom_terms {a : Atom} (plain : (atom a).Plain scope) {t : Term} (ht : t ∈ a.terms) :
    t.PlainIn scope :=
  plain.terms t (List.mem_flatMap.2 ⟨a, List.mem_singleton_self a, ht⟩)

theorem phrase {a : Atom} (plain : (atom a).Plain scope) : a.phrase.Plain := by
  cases a with
  | truth b => trivial
  | predicate a =>
    refine ⟨plain.predicates a List.mem_cons_self, fun n hn => ?_⟩
    rcases List.mem_map.1 hn with ⟨t, ht, rfl⟩
    exact (plain.atom_terms ht).text
  | comparison c =>
    have left : c.left ∈ (Atom.comparison c).terms := List.mem_cons_self
    have right : c.right ∈ (Atom.comparison c).terms := List.mem_cons_of_mem _ List.mem_cons_self
    exact ⟨(plain.atom_terms left).text, (plain.atom_terms right).text⟩

end Plain

end Formula

namespace Line

theorem plain_append {l m : Line} {c : Connective} (left : l.Plain) (right : m.Plain) :
    (l.append c m).Plain := by
  match l with
  | .single p => exact ⟨left, right⟩
  | .more p d rest => exact ⟨left.1, plain_append left.2 right⟩

theorem plain_joined {c : Connective} {ls : List Line} (each : ∀ l ∈ ls, l.Plain) :
    (joined c ls).Plain := by
  induction ls with
  | nil => trivial
  | cons l ls ih =>
    have rest := ih fun m hm => each m (List.mem_cons_of_mem l hm)
    cases ls with
    | nil => exact each l List.mem_cons_self
    | cons m ls => exact plain_append (each l List.mem_cons_self) rest

end Line

namespace Formula

theorem plain_line {scope : Option Nat} {f : Formula} (plain : f.Plain scope) : f.line.Plain := by
  induction f with
  | atom a => exact plain.phrase
  | junction c parts ih =>
    have each : ∀ f ∈ parts, f.line.Plain := fun f hf => ih f hf (plain.part hf)
    match parts with
    | [] => trivial
    | [part] => exact each part List.mem_cons_self
    | p :: q :: rest =>
      rw [line_junction]
      refine Line.plain_joined fun l hl => ?_
      rcases List.mem_map.1 hl with ⟨f, hf, rfl⟩
      rw [partLine]
      split <;> exact each f hf
  | neg body ih => exact ih (plain.mono (fun _ ha => ha) fun _ hx => hx)
  | quant q vars body ih =>
    refine ⟨fun n hn => ?_, ih plain.body⟩
    rcases List.mem_map.1 hn with ⟨x, hx, rfl⟩
    exact (plain.quantified hx).1

/-- Plain formulas with the same text are printed in the same way. -/
theorem line_eq_of_text {scope : Option Nat} {f g : Formula} (plain : f.Plain scope)
    (plain' : g.Plain scope) (same : f.text = g.text) : f.line = g.line :=
  Line.eq_of_text (plain_line plain) (plain_line plain') (by rw [text_line, text_line, same])

end Formula
end QueryCalculus
