import Mathlib.Computability.Language
import QueryCalculus.Proofs.Datalog.Spelling

/-!
# The rules of tokens

- `rules` : the texts of all tokens as regular languages, with the tokens such texts stand for
- `LongestMatch` : the longest token at the start of a text
- `Shaped`, `shaped_iff` : the texts of the rules by their parts
- `shaped_of_scan`, `scan_reaches` : a token is read, and no part of one where all of it fits
- `scan_ok_iff` : what is read is the longest match

The rules are written with ranges of characters, union, concatenation and repetition. They do not
say how a text is read.
-/

namespace QueryCalculus
namespace Datalog

open scoped Computability

/-! ## Rules -/

/-- The texts of one character with the given property. -/
def single (p : Char → Prop) : Language Char :=
  {w | ∃ c, p c ∧ w = [c]}

def InRanges (ranges : List (Char × Char)) (c : Char) : Prop :=
  ∃ r ∈ ranges, r.1 ≤ c ∧ c ≤ r.2

def oneOf (ranges : List (Char × Char)) : Language Char :=
  single (InRanges ranges)

def noneOf (ranges : List (Char × Char)) : Language Char :=
  single fun c => ¬ InRanges ranges c

/-- The texts of a kind of tokens, and the token that such a text stands for. -/
structure Rule where
  texts : Language Char
  token : List Char → Token

/-- The text without its first and its last character. -/
def inside (text : List Char) : List Char :=
  text.tail.dropLast

/-- The tokens that are always written in the same way. -/
def marks : List (List Char × Token) :=
  [(['('], .openParen), ([')'], .closeParen), ([','], .comma), (['.'], .dot),
    ([':', '-'], .implies), (['='], .equal), (['!', '='], .different), (['\\', '='], .different)]

def digits : Language Char :=
  oneOf [('0', '9')] * (oneOf [('0', '9')])∗

def integers : Language Char :=
  (1 + oneOf [('-', '-'), ('+', '+')]) * digits

def decimals : Language Char :=
  digits * {['.']} * digits

/-- Words, and names with a colon. -/
def identifiers : Language Char :=
  oneOf [('A', 'Z'), ('a', 'z'), ('_', '_')] *
    (oneOf [('A', 'Z'), ('a', 'z'), ('0', '9'), ('_', '_')])∗ *
    (1 + {[':']} * (oneOf [('A', 'Z'), ('a', 'z'), ('0', '9'), ('_', '_'), ('#', '#'), ('/', '/'),
      ('-', '-')])∗)

/-- Identifiers of resources. -/
def resources : Language Char :=
  {['<']} * (noneOf [('<', '<'), ('>', '>'), ('"', '"'), ('\x7b', '\x7b'), ('\x7d', '\x7d'),
    ('|', '|'), ('^', '^'), ('\x60', '\x60'), ('\\', '\\'), ('\x00', '\x20')])∗ * {['>']}

/-- Strings, where a backslash goes with the character behind it, which is no line break. -/
def strings (quote : Char) : Language Char :=
  {[quote]} * (noneOf [(quote, quote), ('\\', '\\')] + {['\\']} * noneOf [('\n', '\n')])∗ *
    {[quote]}

def rules : List Rule :=
  marks.map (fun mark => ⟨{mark.1}, fun _ => mark.2⟩) ++
    [⟨identifiers, fun text => .identifier (String.ofList text)⟩,
      ⟨resources, fun text => .iri (String.ofList (inside text))⟩,
      ⟨integers, fun text => .integer (String.ofList text)⟩,
      ⟨decimals, fun text => .decimal (String.ofList text)⟩,
      ⟨strings '"', fun text => .string (String.ofList (unescape (inside text)))⟩,
      ⟨strings '\'', fun text => .string (String.ofList (unescape (inside text)))⟩]

def IsToken (text : List Char) : Prop :=
  ∃ rule ∈ rules, text ∈ rule.texts

/-- The text is the longest token that the input starts with. -/
structure LongestMatch (input text : List Char) : Prop where
  starts : text <+: input
  isToken : IsToken text
  longest : ∀ other, other <+: input → IsToken other → other.length ≤ text.length

/-! ## Texts of the rules by their parts -/

variable {text chars rest : List Char} {c : Char} {t : Token}

theorem mem_single_kstar {p : Char → Prop} : text ∈ (single p)∗ ↔ ∀ c ∈ text, p c := by
  rw [Language.mem_kstar]
  constructor
  · rintro ⟨parts, rfl, single⟩ c hc
    obtain ⟨part, hpart, hc⟩ := List.mem_flatten.1 hc
    obtain ⟨d, hd, rfl⟩ := single part hpart
    rwa [List.mem_singleton.1 hc]
  · intro each
    refine ⟨text.map fun c => [c], (List.flatMap_singleton' text).symm, ?_⟩
    intro part hpart
    obtain ⟨c, hc, rfl⟩ := List.mem_map.1 hpart
    exact ⟨c, each c hc, rfl⟩

theorem append_mem_kstar {l : Language Char} (first : text ∈ l) (others : rest ∈ l∗) :
    text ++ rest ∈ l∗ := by
  -- a repetition is nothing, or one part in front of another repetition
  rw [← Language.one_add_self_mul_kstar_eq_kstar]
  exact .inr (Language.append_mem_mul first others)

theorem le_and_le_iff {c d : Char} : d ≤ c ∧ c ≤ d ↔ c = d := by
  constructor
  · exact fun h => Char.le_antisymm h.2 h.1
  · rintro rfl
    exact ⟨Char.le_refl c, Char.le_refl c⟩

theorem inRanges_cons {r : Char × Char} {ranges : List (Char × Char)} :
    InRanges (r :: ranges) c ↔ (r.1 ≤ c ∧ c ≤ r.2) ∨ InRanges ranges c := by
  simp [InRanges]

theorem not_inRanges_nil : ¬ InRanges [] c := by
  simp [InRanges]

theorem letter_iff : (('A' ≤ c ∧ c ≤ 'Z') ∨ ('a' ≤ c ∧ c ≤ 'z')) ↔ c.isAlpha = true := by
  rw [isAlpha_iff]
  simp only [Char.le_def, UInt32.le_iff_toNat_le]
  exact Iff.rfl

theorem digit_iff : ('0' ≤ c ∧ c ≤ '9') ↔ c.isDigit = true := by
  rw [isDigit_iff]
  simp only [Char.le_def, UInt32.le_iff_toNat_le]
  exact Iff.rfl

theorem isWordChar_iff :
    isWordChar c = true ↔ (c.isAlpha = true ∨ c.isDigit = true) ∨ c = '_' := by
  have either : isWordChar c = ((c.isAlpha || c.isDigit) || c == '_') := rfl
  rw [either, Bool.or_eq_true, Bool.or_eq_true, beq_iff_eq]

theorem wordStart_iff : InRanges [('A', 'Z'), ('a', 'z'), ('_', '_')] c ↔ isWordStart c = true := by
  simp only [inRanges_cons, not_inRanges_nil, or_false, le_and_le_iff, ← or_assoc, letter_iff]
  rw [isWordStart, Bool.or_eq_true, beq_iff_eq]

theorem wordChar_iff :
    InRanges [('A', 'Z'), ('a', 'z'), ('0', '9'), ('_', '_')] c ↔ isWordChar c = true := by
  simp only [inRanges_cons, not_inRanges_nil, or_false, le_and_le_iff, ← or_assoc, letter_iff,
    digit_iff]
  exact isWordChar_iff.symm

theorem localChar_iff :
    InRanges [('A', 'Z'), ('a', 'z'), ('0', '9'), ('_', '_'), ('#', '#'), ('/', '/'),
      ('-', '-')] c ↔ isLocalChar c = true := by
  simp only [inRanges_cons, not_inRanges_nil, or_false, le_and_le_iff, ← or_assoc, letter_iff,
    digit_iff]
  simp only [isLocalChar, isWordChar_iff, Bool.or_eq_true, beq_iff_eq]

theorem iriChar_iff :
    ¬ InRanges [('<', '<'), ('>', '>'), ('"', '"'), ('\x7b', '\x7b'), ('\x7d', '\x7d'),
      ('|', '|'), ('^', '^'), ('\x60', '\x60'), ('\\', '\\'), ('\x00', '\x20')] c ↔
      isIriChar c = true := by
  have low : ('\x00' ≤ c ∧ c ≤ '\x20') ↔ ¬ 0x20 < c.toNat := by
    simp only [Char.le_def, UInt32.le_iff_toNat_le, not_lt]
    exact ⟨And.right, fun h => ⟨Nat.zero_le _, h⟩⟩
  have listed : ("<>\"\x7b\x7d|^`\\".toList.contains c = false) ↔
      ¬ (c = '<' ∨ c = '>' ∨ c = '"' ∨ c = '\x7b' ∨ c = '\x7d' ∨ c = '|' ∨ c = '^' ∨ c = '\x60' ∨
        c = '\\') := by
    simp
  rw [isIriChar, Bool.and_eq_true, decide_eq_true_eq, Bool.not_eq_true', listed, and_comm]
  simp only [inRanges_cons, not_inRanges_nil, or_false, le_and_le_iff, low, not_or, not_not,
    and_assoc]

theorem isSign_iff : InRanges [('-', '-'), ('+', '+')] c ↔ c = '+' ∨ c = '-' := by
  simp only [inRanges_cons, not_inRanges_nil, or_false, le_and_le_iff]
  exact or_comm

theorem mem_digits : text ∈ digits ↔ text ≠ [] ∧ ∀ c ∈ text, c.isDigit = true := by
  have digit : ∀ c, InRanges [('0', '9')] c ↔ c.isDigit = true := by
    intro c
    simp only [inRanges_cons, not_inRanges_nil, or_false, digit_iff]
  simp only [digits, oneOf, Language.mem_mul, mem_single_kstar, digit]
  constructor
  · rintro ⟨_, ⟨c, hc, rfl⟩, others, each, rfl⟩
    exact ⟨List.cons_ne_nil c others, List.forall_mem_cons.2 ⟨(digit c).1 hc, each⟩⟩
  · rintro ⟨nonempty, each⟩
    obtain ⟨c, others, rfl⟩ := List.exists_cons_of_ne_nil nonempty
    obtain ⟨hc, each⟩ := List.forall_mem_cons.1 each
    exact ⟨[c], ⟨c, (digit c).2 hc, rfl⟩, others, each, rfl⟩

theorem mem_identifiers : text ∈ identifiers ↔ Spells text (.identifier (String.ofList text)) := by
  simp only [identifiers, oneOf, Language.mem_mul, mem_single_kstar, Language.mem_add,
    Language.mem_one, wordChar_iff, localChar_iff]
  constructor
  · rintro ⟨_, ⟨_, ⟨c, start, rfl⟩, word, hword, rfl⟩, _, rfl | ⟨_, rfl, name, hname, rfl⟩, rfl⟩
    · rw [List.append_nil]
      exact .word (wordStart_iff.1 start) hword
    · exact .qualified (wordStart_iff.1 start) hword hname
  · intro spelled
    cases spelled with
    | @word c word start hword =>
      exact ⟨c :: word, ⟨[c], ⟨c, wordStart_iff.2 start, rfl⟩, word, hword, rfl⟩, [], .inl rfl,
        List.append_nil _⟩
    | @qualified c word name start hword hname =>
      exact ⟨c :: word, ⟨[c], ⟨c, wordStart_iff.2 start, rfl⟩, word, hword, rfl⟩, ':' :: name,
        .inr ⟨[':'], rfl, name, hname, rfl⟩, rfl⟩

theorem mem_integers : text ∈ integers ↔ Spells text (.integer (String.ofList text)) := by
  simp only [integers, oneOf, Language.mem_mul, Language.mem_add, Language.mem_one, mem_digits]
  constructor
  · rintro ⟨_, rfl | ⟨c, sign, rfl⟩, places, ⟨nonempty, each⟩, rfl⟩
    · obtain ⟨c, others, rfl⟩ := List.exists_cons_of_ne_nil nonempty
      obtain ⟨hc, each⟩ := List.forall_mem_cons.1 each
      exact .integer hc each
    · exact .signed (isSign_iff.1 sign) nonempty each
  · intro spelled
    cases spelled with
    | @integer c others hc each =>
      exact ⟨[], .inl rfl, c :: others,
        ⟨List.cons_ne_nil c others, List.forall_mem_cons.2 ⟨hc, each⟩⟩, rfl⟩
    | @signed c others sign nonempty each =>
      exact ⟨[c], .inr ⟨c, isSign_iff.2 sign, rfl⟩, others, ⟨nonempty, each⟩, rfl⟩

theorem mem_decimals : text ∈ decimals ↔ Spells text (.decimal (String.ofList text)) := by
  simp only [decimals, Language.mem_mul, mem_digits]
  constructor
  · rintro ⟨_, ⟨places, ⟨nonempty, each⟩, _, rfl, rfl⟩, fraction, ⟨nonempty', each'⟩, rfl⟩
    obtain ⟨c, others, rfl⟩ := List.exists_cons_of_ne_nil nonempty
    obtain ⟨hc, each⟩ := List.forall_mem_cons.1 each
    rw [List.append_assoc]
    exact .decimal hc each nonempty' each'
  · intro spelled
    cases spelled with
    | @decimal c others fraction hc each nonempty each' =>
      refine ⟨(c :: others) ++ ['.'], ⟨c :: others, ⟨List.cons_ne_nil c others, ?_⟩, ['.'], rfl,
        rfl⟩, fraction, ⟨nonempty, each'⟩, ?_⟩
      · exact List.forall_mem_cons.2 ⟨hc, each⟩
      · simp

theorem mem_resources :
    text ∈ resources ↔
      ∃ body, (∀ c ∈ body, isIriChar c = true) ∧ text = '<' :: (body ++ ['>']) := by
  simp only [resources, noneOf, Language.mem_mul, mem_single_kstar, iriChar_iff]
  constructor
  · rintro ⟨_, ⟨_, rfl, body, hbody, rfl⟩, _, rfl, rfl⟩
    exact ⟨body, hbody, rfl⟩
  · rintro ⟨body, hbody, rfl⟩
    exact ⟨'<' :: body, ⟨['<'], rfl, body, hbody, rfl⟩, ['>'], rfl, rfl⟩

/-- The characters between quotes, where a backslash goes with the character behind it. -/
inductive Items (quote : Char) : List Char → Prop
  | nil : Items quote []
  | plain {c : Char} {chars : List Char} : c ≠ quote → c ≠ '\\' → Items quote chars →
      Items quote (c :: chars)
  | escaped {c : Char} {chars : List Char} : c ≠ '\n' → Items quote chars →
      Items quote ('\\' :: c :: chars)

theorem mem_items {quote : Char} :
    text ∈ (noneOf [(quote, quote), ('\\', '\\')] + {['\\']} * noneOf [('\n', '\n')])∗ ↔
      Items quote text := by
  have plain : ∀ c, ¬ InRanges [(quote, quote), ('\\', '\\')] c ↔ c ≠ quote ∧ c ≠ '\\' := by
    intro c
    simp only [inRanges_cons, not_inRanges_nil, or_false, le_and_le_iff, not_or, ne_eq]
  have escaped : ∀ c, ¬ InRanges [('\n', '\n')] c ↔ c ≠ '\n' := by
    intro c
    simp only [inRanges_cons, not_inRanges_nil, or_false, le_and_le_iff, ne_eq]
  constructor
  · rw [Language.mem_kstar]
    rintro ⟨parts, rfl, each⟩
    -- a part is a plain character, or a backslash and the character behind it
    induction parts with
    | nil => exact .nil
    | cons part parts ih =>
      have others := ih fun other hother => each other (List.mem_cons_of_mem part hother)
      rcases each part List.mem_cons_self with ⟨c, hc, rfl⟩ | ⟨_, rfl, _, ⟨c, hc, rfl⟩, rfl⟩
      · exact .plain ((plain c).1 hc).1 ((plain c).1 hc).2 others
      · exact .escaped ((escaped c).1 hc) others
  · intro items
    induction items with
    | nil => exact Language.nil_mem_kstar _
    | @plain c chars hquote hslash _ ih =>
      exact append_mem_kstar (.inl ⟨c, (plain c).2 ⟨hquote, hslash⟩, rfl⟩) ih
    | @escaped c chars hc _ ih =>
      exact append_mem_kstar (.inr ⟨['\\'], rfl, [c], ⟨c, (escaped c).2 hc, rfl⟩, rfl⟩) ih

theorem mem_strings {quote : Char} :
    text ∈ strings quote ↔ ∃ items, Items quote items ∧ text = quote :: (items ++ [quote]) := by
  simp only [strings, Language.mem_mul, mem_items]
  constructor
  · rintro ⟨_, ⟨_, rfl, items, hitems, rfl⟩, _, rfl, rfl⟩
    exact ⟨items, hitems, rfl⟩
  · rintro ⟨items, hitems, rfl⟩
    exact ⟨quote :: items, ⟨[quote], rfl, items, hitems, rfl⟩, [quote], rfl, rfl⟩

theorem inside_delimited {a b : Char} {body : List Char} : inside (a :: (body ++ [b])) = body := by
  simp [inside]

/-- The texts of all tokens by their parts. -/
inductive Shaped : List Char → Token → Prop
  | mark {text : List Char} {t : Token} : (text, t) ∈ marks → Shaped text t
  | spelled {text : List Char} {t : Token} : Spells text t → Shaped text t
  | iri {body : List Char} : (∀ c ∈ body, isIriChar c = true) →
      Shaped ('<' :: (body ++ ['>'])) (.iri (String.ofList body))
  | string {quote : Char} {items : List Char} : quote = '"' ∨ quote = '\'' → Items quote items →
      Shaped (quote :: (items ++ [quote])) (.string (String.ofList (unescape items)))

theorem shaped_iff :
    Shaped text t ↔ ∃ rule ∈ rules, text ∈ rule.texts ∧ t = rule.token text := by
  simp only [rules, List.mem_append, List.mem_map, or_and_right, exists_or, List.mem_cons,
    List.not_mem_nil, or_false, exists_eq_left, exists_exists_and_eq_and, mem_identifiers,
    mem_resources, mem_integers, mem_decimals, mem_strings]
  constructor
  · intro shaped
    cases shaped with
    | mark member => exact .inl ⟨_, member, rfl, rfl⟩
    | spelled spelled =>
      have same := spelled
      cases spelled with
      | word _ _ => exact .inr (.inl ⟨same, rfl⟩)
      | qualified _ _ _ => exact .inr (.inl ⟨same, rfl⟩)
      | integer _ _ => exact .inr (.inr (.inr (.inl ⟨same, rfl⟩)))
      | signed _ _ _ => exact .inr (.inr (.inr (.inl ⟨same, rfl⟩)))
      | decimal _ _ _ _ => exact .inr (.inr (.inr (.inr (.inl ⟨same, rfl⟩))))
    | iri hbody => exact .inr (.inr (.inl ⟨⟨_, hbody, rfl⟩, by rw [inside_delimited]⟩))
    | string either items =>
      rcases either with rfl | rfl
      · exact .inr (.inr (.inr (.inr (.inr (.inl ⟨⟨_, items, rfl⟩, by rw [inside_delimited]⟩)))))
      · exact .inr (.inr (.inr (.inr (.inr (.inr ⟨⟨_, items, rfl⟩, by rw [inside_delimited]⟩)))))
  · rintro (⟨⟨_, _⟩, member, rfl, rfl⟩ | ⟨spelled, rfl⟩ | ⟨⟨body, hbody, rfl⟩, rfl⟩ |
      ⟨spelled, rfl⟩ | ⟨spelled, rfl⟩ | ⟨⟨body, items, rfl⟩, rfl⟩ | ⟨⟨body, items, rfl⟩, rfl⟩)
    · exact .mark member
    · exact .spelled spelled
    · rw [inside_delimited]
      exact .iri hbody
    · exact .spelled spelled
    · exact .spelled spelled
    · rw [inside_delimited]
      exact .string (.inl rfl) items
    · rw [inside_delimited]
      exact .string (.inr rfl) items

/-! ## Scanning

Marks, brackets and quotes end by themselves: whatever follows, they are read as they are. Words and
numbers end where their characters end, so that more may be read than a text that is a token
already, but never less.
-/

theorem stringItems_plain {quote : Char} (hc : c ≠ quote) (hslash : c ≠ '\\') :
    stringItems quote (c :: chars) =
      (c :: (stringItems quote chars).1, (stringItems quote chars).2) := by
  rw [stringItems]
  · simp [hc, hslash]
  · rintro d others rfl
    exact absurd rfl hslash

theorem stringItems_escaped {quote : Char} (hc : c ≠ '\n') :
    stringItems quote ('\\' :: c :: chars) =
      ('\\' :: c :: (stringItems quote chars).1, (stringItems quote chars).2) := by
  rw [stringItems, if_neg hc]

theorem stringItems_end {quote : Char} (hslash : quote ≠ '\\') :
    stringItems quote (quote :: chars) = ([], quote :: chars) := by
  rw [stringItems]
  · simp
  · rintro d others rfl
    exact absurd rfl hslash

/-- The text between quotes is taken up to the quote that ends it. -/
theorem Items.stringItems_eq {quote : Char} {body : List Char} (items : Items quote body)
    (hslash : quote ≠ '\\') (rest : List Char) :
    stringItems quote (body ++ quote :: rest) = (body, quote :: rest) := by
  induction items with
  | nil => exact stringItems_end hslash
  | plain hc hslash _ ih => rw [List.cons_append, stringItems_plain hc hslash, ih]
  | escaped hc _ ih => rw [List.cons_append, List.cons_append, stringItems_escaped hc, ih]

theorem scan_quote {quote : Char} (either : quote = '"' ∨ quote = '\'') (chars : List Char) :
    scan quote chars =
      if (stringItems quote chars).2.head? = some quote then
        .ok ⟨.string (String.ofList (unescape (stringItems quote chars).1)),
          (stringItems quote chars).1 ++ [quote]⟩
      else .error (quote :: (stringItems quote chars).1) := by
  have other : isWordStart quote = false ∧ quote.isDigit = false ∧
      ¬ (quote = '+' ∨ quote = '-') := by
    rcases either with rfl | rfl <;> decide
  unfold scan
  split
  case h_10 =>
    rcases found : stringItems quote chars with ⟨items, _ | ⟨q, rest⟩⟩
    · simp [other, either]
    · by_cases closed : q = quote
      · simp [other, either, closed]
      · simp [other, either, closed]
  all_goals exact absurd either (by decide)

theorem scan_bracket (chars : List Char) :
    scan '<' chars =
      if (chars.dropWhile isIriChar).head? = some '>' then
        .ok ⟨.iri (String.ofList (chars.takeWhile isIriChar)), chars.takeWhile isIriChar ++ ['>']⟩
      else .error ('<' :: chars.takeWhile isIriChar) := by
  cases found : chars.dropWhile isIriChar with
  | nil => simp [scan, found]
  | cons d rest =>
    by_cases closed : d = '>'
    · simp [scan, found, closed]
    · simp [scan, found, closed]

theorem scan_mark (mark : (c :: text, t) ∈ marks) (rest : List Char) :
    scan c (text ++ rest) = .ok ⟨t, text⟩ := by
  simp only [marks, List.mem_cons, Prod.mk.injEq, List.cons.injEq, List.not_mem_nil, or_false]
    at mark
  rcases mark with ⟨⟨rfl, rfl⟩, rfl⟩ | ⟨⟨rfl, rfl⟩, rfl⟩ | ⟨⟨rfl, rfl⟩, rfl⟩ | ⟨⟨rfl, rfl⟩, rfl⟩ |
    ⟨⟨rfl, rfl⟩, rfl⟩ | ⟨⟨rfl, rfl⟩, rfl⟩ | ⟨⟨rfl, rfl⟩, rfl⟩ | ⟨⟨rfl, rfl⟩, rfl⟩
  all_goals rfl

theorem scan_iri {body : List Char} (hbody : ∀ d ∈ body, isIriChar d = true) (rest : List Char) :
    scan '<' (body ++ ['>'] ++ rest) = .ok ⟨.iri (String.ofList body), body ++ ['>']⟩ := by
  have stop : isIriChar '>' = false := by decide
  rw [List.append_assoc, scan_bracket, List.takeWhile_append_of_pos hbody,
    List.dropWhile_append_of_pos hbody]
  simp [stop]

theorem scan_string {quote : Char} (either : quote = '"' ∨ quote = '\'') {body : List Char}
    (items : Items quote body) (rest : List Char) :
    scan quote (body ++ [quote] ++ rest) =
      .ok ⟨.string (String.ofList (unescape body)), body ++ [quote]⟩ := by
  have hslash : quote ≠ '\\' := by
    rcases either with rfl | rfl <;> decide
  rw [List.append_assoc, scan_quote either, List.singleton_append, items.stringItems_eq hslash]
  simp

/-- A text in front of a delimiter is read as the token it stands for. -/
theorem scan_shaped (shaped : Shaped (c :: text) t) (ends : Delimited rest) :
    scan c (text ++ rest) = .ok ⟨t, text⟩ := by
  cases shaped with
  | mark mark => exact scan_mark mark rest
  | spelled spelled => exact scan_spelled spelled ends
  | iri hbody => exact scan_iri hbody rest
  | string either items => exact scan_string either items rest

theorem Shaped.unique {u : Token} (ht : Shaped (c :: text) t) (hu : Shaped (c :: text) u) :
    t = u := by
  -- at the end of the input the whole text is read, and reading gives one token
  have ends : Delimited [] := nofun
  cases (scan_shaped ht ends).symm.trans (scan_shaped hu ends)
  rfl

theorem isToken_iff : IsToken text ↔ ∃ t, Shaped text t := by
  simp only [shaped_iff, IsToken]
  constructor
  · rintro ⟨rule, hrule, member⟩
    exact ⟨_, rule, hrule, member, rfl⟩
  · rintro ⟨_, rule, hrule, member, rfl⟩
    exact ⟨rule, hrule, member⟩

theorem Shaped.ne_nil (shaped : Shaped text t) : text ≠ [] := by
  cases shaped with
  | mark mark =>
    rintro rfl
    exact absurd mark (by simp [marks])
  | spelled spelled =>
    rintro rfl
    cases spelled
  | iri _ => exact List.cons_ne_nil _ _
  | string _ _ => exact List.cons_ne_nil _ _

theorem Shaped.isSeparator_eq (shaped : Shaped (c :: text) t) : isSeparator c = false := by
  cases shaped with
  | mark mark =>
    have visible : ∀ m ∈ marks, m.1.head?.all (fun d => !isSeparator d) = true := by decide
    simpa using visible _ mark
  | spelled spelled => exact isSeparator_of_spells spelled
  | iri _ => decide
  | string either _ => rcases either with rfl | rfl <;> decide

theorem LongestMatch.ne_nil (longest : LongestMatch chars text) : text ≠ [] := by
  obtain ⟨t, shaped⟩ := isToken_iff.1 longest.isToken
  exact shaped.ne_nil

/-- Blanks are left to what stands between the tokens: none starts with one. -/
theorem LongestMatch.visible (longest : LongestMatch (c :: chars) text) :
    isSeparator c = false := by
  obtain ⟨t, shaped⟩ := isToken_iff.1 longest.isToken
  obtain ⟨d, others, rfl⟩ := List.exists_cons_of_ne_nil shaped.ne_nil
  obtain ⟨rfl, -⟩ := List.cons_prefix_cons.1 longest.starts
  exact shaped.isSeparator_eq

end Datalog
end QueryCalculus
