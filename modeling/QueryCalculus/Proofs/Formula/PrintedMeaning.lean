import QueryCalculus.Proofs.Formula.Equivalence
import QueryCalculus.Proofs.Formula.PrintedLines

/-!
# What printed formulas say

- `Line.HoldsBy` : truth of a line, in which `AND` binds tighter than `OR`
- `Formula.mixes` : operators of one kind stand among those of the other kind without parentheses
- `Formula.Bracketed`, `Formula.Unmixed` : no `OR` stands among `AND`s, or neither among the other
- `Formula.holdsBy_line` : a bracketed formula means what its line says
- `Formula.uniformIn_line_iff` : whether a formula is unmixed can be seen in its line
- `Formula.text_determines_meaning` : what follows from equal texts

A part of a junction gets parentheses if it is a junction of several parts itself. One that is
wrapped in a junction of one part gets none, and then the text does not show how it is grouped.
-/

namespace QueryCalculus

universe u

variable {D : Type u}

/-! ## Truth of lines -/

section Truth

variable (sat : Atom → Valuation D → Prop) (scope : Option Nat)

def Term.named (name : String) : Term :=
  .var { name, scope }

mutual

/-- Truth of a phrase, given which atoms are true and the scope of the variables. -/
def Phrase.HoldsBy : Phrase → Valuation D → Prop
  | .truth value, v => sat (.truth value) v
  | .predicate name arguments, v =>
    sat (.predicate { predicate := name, terms := arguments.map (Term.named scope) }) v
  | .comparison relation left right, v =>
    sat (.comparison ⟨relation, .named scope left, .named scope right⟩) v
  | .neg body, v => ¬ body.HoldsAfter True v
  | .quant q names body, v =>
    q.Over {x | x ∈ names.map (Ident.mk · scope)} (fun w => body.HoldsAfter True w) v
  | .bracket body, v => body.HoldsAfter True v

/-- Truth of a line that has `before` and an `AND` in front of it. -/
def Line.HoldsAfter : Line → Prop → Valuation D → Prop
  | .single p, before, v => before ∧ p.HoldsBy v
  | .more p .and rest, before, v => rest.HoldsAfter (before ∧ p.HoldsBy v) v
  | .more p .or rest, before, v => (before ∧ p.HoldsBy v) ∨ rest.HoldsAfter True v

end

/-- Truth of a whole line. -/
def Line.HoldsBy (l : Line) (v : Valuation D) : Prop :=
  l.HoldsAfter sat scope True v

end Truth

namespace Line

/-- The operators outside of all parentheses. -/
def operators : Line → List Connective
  | .single _ => []
  | .more _ c rest => c :: rest.operators

theorem operators_append (l : Line) (c : Connective) (m : Line) :
    (l.append c m).operators = l.operators ++ c :: m.operators := by
  match l with
  | .single p => rfl
  | .more p d rest => exact congrArg (d :: ·) (operators_append rest c m)

/-- Joining several lines adds nothing but the operator between them. -/
theorem mem_operators_joined {c d : Connective} {l m : Line} {ls : List Line} :
    d ∈ (joined c (l :: m :: ls)).operators ↔
      d = c ∨ ∃ k ∈ l :: m :: ls, d ∈ k.operators := by
  induction ls generalizing l m with
  | nil =>
    rw [joined, operators_append]
    simp [joined, or_left_comm]
  | cons m' ls ih =>
    rw [joined, operators_append, List.mem_append, List.mem_cons, ih]
    simp only [List.mem_cons, exists_eq_or_imp]
    tauto

variable {sat : Atom → Valuation D → Prop} {scope : Option Nat} {v : Valuation D}

theorem holdsAfter_append_or (l m : Line) (before : Prop) :
    (l.append .or m).HoldsAfter sat scope before v ↔
      l.HoldsAfter sat scope before v ∨ m.HoldsBy sat scope v := by
  match l with
  | .single p => exact Iff.rfl
  | .more p .and rest => exact holdsAfter_append_or rest m _
  | .more p .or rest =>
    exact (or_congr_right (holdsAfter_append_or rest m True)).trans or_assoc.symm

theorem holdsAfter_append_and {l : Line} (free : .or ∉ l.operators) (m : Line) (before : Prop) :
    (l.append .and m).HoldsAfter sat scope before v ↔
      m.HoldsAfter sat scope (l.HoldsAfter sat scope before v) v := by
  match l with
  | .single p => exact Iff.rfl
  | .more p .and rest =>
    exact holdsAfter_append_and (fun listed => free (List.mem_cons_of_mem _ listed)) m _
  | .more p .or rest => exact absurd List.mem_cons_self free

/-- Without an `OR` all of a line is joined to what stands in front. -/
theorem holdsAfter_iff {l : Line} (free : .or ∉ l.operators) (before : Prop) :
    l.HoldsAfter sat scope before v ↔ before ∧ l.HoldsBy sat scope v := by
  match l with
  | .single p => exact and_congr_right fun _ => (and_iff_right trivial).symm
  | .more p .and rest =>
    have rest_free : .or ∉ rest.operators := fun listed => free (List.mem_cons_of_mem _ listed)
    calc
      rest.HoldsAfter sat scope (before ∧ p.HoldsBy sat scope v) v
          ↔ (before ∧ p.HoldsBy sat scope v) ∧ rest.HoldsBy sat scope v :=
            holdsAfter_iff rest_free _
      _ ↔ before ∧ (True ∧ p.HoldsBy sat scope v) ∧ rest.HoldsBy sat scope v := by
            rw [and_assoc, true_and]
      _ ↔ before ∧ rest.HoldsAfter sat scope (True ∧ p.HoldsBy sat scope v) v :=
            and_congr_right fun _ => (holdsAfter_iff rest_free _).symm
  | .more p .or rest => exact absurd List.mem_cons_self free

/-- Lines that are joined say what the connective makes of them, unless an `OR` gets between
`AND`s. -/
theorem holdsBy_joined {c : Connective} {l : Line} {ls : List Line}
    (free : c = .and → ∀ k ∈ l :: ls, .or ∉ k.operators) :
    (joined c (l :: ls)).HoldsBy sat scope v ↔
      c.Joins (l :: ls) fun k => k.HoldsBy sat scope v := by
  induction ls generalizing l with
  | nil => cases c <;> simp [joined, Connective.Joins]
  | cons m ls ih =>
    have rest := ih fun conj k hk => free conj k (List.mem_cons_of_mem l hk)
    cases c with
    | or =>
      calc
        (joined .or (l :: m :: ls)).HoldsBy sat scope v
            ↔ l.HoldsBy sat scope v ∨ (joined .or (m :: ls)).HoldsBy sat scope v :=
              holdsAfter_append_or l _ True
        _ ↔ Connective.or.Joins (l :: m :: ls) fun k => k.HoldsBy sat scope v := by
              rw [rest]
              simp [Connective.Joins]
    | and =>
      -- without an `OR` on either side, the two lines are the two sides of the `AND`
      have here : .or ∉ l.operators := free rfl l List.mem_cons_self
      have behind : .or ∉ (joined .and (m :: ls)).operators := by
        cases ls with
        | nil => exact free rfl m (List.mem_cons_of_mem l List.mem_cons_self)
        | cons m' ls =>
          rw [mem_operators_joined]
          rintro (other | ⟨k, hk, listed⟩)
          · cases other
          · exact free rfl k (List.mem_cons_of_mem l hk) listed
      calc
        (joined .and (l :: m :: ls)).HoldsBy sat scope v
            ↔ (joined .and (m :: ls)).HoldsAfter sat scope (l.HoldsBy sat scope v) v :=
              holdsAfter_append_and here _ True
        _ ↔ l.HoldsBy sat scope v ∧ (joined .and (m :: ls)).HoldsBy sat scope v :=
              holdsAfter_iff behind _
        _ ↔ Connective.and.Joins (l :: m :: ls) fun k => k.HoldsBy sat scope v := by
              rw [rest]
              simp [Connective.Joins]

end Line

/-! ## Parts that show their operators -/

namespace Formula

/-- The connective whose operators stand outside of all parentheses. -/
def outer? : Formula → Option Connective
  | .junction _ [part] => part.outer?
  | .junction c (_ :: _ :: _) => some c
  | _ => none

mutual

/-- Somewhere a junction of `c` has a part that is printed without parentheses but shows operators
of `d`, since it is wrapped in junctions of one part. -/
def mixes (c d : Connective) : Formula → Bool
  | .atom _ => false
  | .junction e parts =>
    e == c && 1 < parts.length && parts.any (fun p => !p.isCompound && p.outer? == some d) ||
      mixesAny c d parts
  | .neg body => body.mixes c d
  | .quant _ _ body => body.mixes c d

def mixesAny (c d : Connective) : List Formula → Bool
  | [] => false
  | f :: fs => f.mixes c d || mixesAny c d fs

end

theorem mixesAny_eq_any (c d : Connective) (fs : List Formula) :
    mixesAny c d fs = fs.any (mixes c d) := by
  induction fs with
  | nil => rfl
  | cons f fs ih => simp [mixesAny, ih]

/-- No disjunction stands without parentheses in a conjunction. -/
def Bracketed (f : Formula) : Prop :=
  f.mixes .and .or = false

/-- No junction stands without parentheses in one of the other kind. -/
def Unmixed (f : Formula) : Prop :=
  ∀ c d, c ≠ d → f.mixes c d = false

theorem mixes_junction_eq_false {c d e : Connective} {parts : List Formula} :
    (junction e parts).mixes c d = false ↔
      (e = c → 1 < parts.length → ∀ p ∈ parts, p.isCompound = false → p.outer? ≠ some d) ∧
        ∀ p ∈ parts, p.mixes c d = false := by
  have shown : (e == c && 1 < parts.length &&
      parts.any (fun p => !p.isCompound && p.outer? == some d)) = false ↔
      (e = c → 1 < parts.length → ∀ p ∈ parts, p.isCompound = false → p.outer? ≠ some d) := by
    rw [← Bool.not_eq_true]
    simp
  rw [mixes, mixesAny_eq_any, Bool.or_eq_false_iff, shown]
  simp

theorem unmixed_junction {e : Connective} {parts : List Formula} :
    (junction e parts).Unmixed ↔
      (1 < parts.length → ∀ p ∈ parts, p.isCompound = false → ∀ d, p.outer? = some d → d = e) ∧
        ∀ p ∈ parts, p.Unmixed := by
  simp only [Unmixed, mixes_junction_eq_false]
  constructor
  · intro all
    refine ⟨fun several p hp bare d shows => ?_,
      fun p hp c d different => (all c d different).2 p hp⟩
    refine Classical.byContradiction fun other => ?_
    exact (all e d (Ne.symm other)).1 rfl several p hp bare shows
  · rintro ⟨here, inside⟩ c d different
    refine ⟨?_, fun p hp => inside p hp c d different⟩
    rintro rfl several p hp bare shows
    exact different (here several p hp bare d shows).symm

theorem Bracketed.part {e : Connective} {parts : List Formula} (h : (junction e parts).Bracketed)
    {p : Formula} (hp : p ∈ parts) : p.Bracketed :=
  (mixes_junction_eq_false.1 h).2 p hp

/-! ## Operators of lines -/

theorem operators_partLine (f : Formula) :
    f.partLine.operators = if f.isCompound then [] else f.line.operators := by
  rw [partLine]
  split <;> rfl

/-- Only the outer connective shows in the line, if no operators of this kind stand among others. -/
theorem outer?_of_mem_operators {d : Connective} {f : Formula}
    (unmixed : ∀ c, c ≠ d → f.mixes c d = false) (listed : d ∈ f.line.operators) :
    f.outer? = some d := by
  induction f with
  | atom a => cases listed
  | junction c parts ih =>
    have parted := fun e (different : e ≠ d) => mixes_junction_eq_false.1 (unmixed e different)
    match parts with
    | [] => cases listed
    | [part] =>
      have inner := fun e different => (parted e different).2 part List.mem_cons_self
      exact ih part List.mem_cons_self inner listed
    | p :: q :: rest =>
      rw [line_junction] at listed
      -- another operator can only come from a part without parentheses, and then the two stand
      -- together
      refine congrArg some (Classical.byContradiction fun (different : c ≠ d) => ?_)
      rcases Line.mem_operators_joined.1 listed with same | ⟨l, hl, listed⟩
      · exact different same.symm
      · rcases List.mem_map.1 (show l ∈ (p :: q :: rest).map partLine from hl) with ⟨f, hf, rfl⟩
        rw [operators_partLine] at listed
        split at listed
        · cases listed
        · rename_i bare
          have shows := ih f hf (fun e different => (parted e different).2 f hf) listed
          exact (parted c different).1 rfl (by simp) f hf (by simpa using bare) shows
  | neg body => cases listed
  | quant q vars body => cases listed

/-! ## Meaning of lines -/

/-- Which atoms are true can be seen in their phrases. -/
structure Legible (sat : Atom → Valuation D → Prop) (scope : Option Nat) : Prop where
  truth : ∀ b v, sat (.truth b) v ↔ b = true
  atom : ∀ a : Atom, (∀ t ∈ a.terms, t.PlainIn scope) →
    ∀ v, sat a v ↔ a.phrase.HoldsBy sat scope v

variable {sat : Atom → Valuation D → Prop} {scope : Option Nat}

theorem holdsBy_partLine {f : Formula} {v : Valuation D} :
    f.partLine.HoldsBy sat scope v ↔ f.line.HoldsBy sat scope v := by
  rw [partLine]
  split
  · exact and_iff_right trivial
  · exact Iff.rfl

/-- A bracketed formula means what its line says. -/
theorem holdsBy_line (legible : Legible sat scope) {f : Formula} (plain : f.Plain scope)
    (bracketed : f.Bracketed) (v : Valuation D) :
    f.HoldsBy sat v ↔ f.line.HoldsBy sat scope v := by
  induction f generalizing v with
  | atom a =>
    exact (legible.atom a (fun t ht => plain.atom_terms ht) v).trans (and_iff_right trivial).symm
  | junction c parts ih =>
    have each : ∀ f ∈ parts, ∀ w, f.HoldsBy sat w ↔ f.line.HoldsBy sat scope w := fun f hf =>
      ih f hf (plain.part hf) (bracketed.part hf)
    match parts with
    | [] =>
      have unit : (junction c []).HoldsBy sat v ↔ c.unit = true := by
        cases c <;> simp [holdsBy_junction, Connective.Joins, Connective.unit]
      exact unit.trans ((legible.truth c.unit v).symm.trans (and_iff_right trivial).symm)
    | [part] =>
      have single : (junction c [part]).HoldsBy sat v ↔ part.HoldsBy sat v := by
        cases c <;> simp [holdsBy_junction, Connective.Joins]
      exact single.trans (each part List.mem_cons_self v)
    | p :: q :: rest =>
      have free : c = .and → ∀ l ∈ (p :: q :: rest).map partLine, .or ∉ l.operators := by
        rintro rfl l hl listed
        rcases List.mem_map.1 hl with ⟨f, hf, rfl⟩
        rw [operators_partLine] at listed
        split at listed
        · cases listed
        · rename_i bare
          -- an `OR` in the line of a part would be its outer operator, without parentheses
          have inner : ∀ e, e ≠ .or → f.mixes e .or = false := by
            intro e different
            cases e with
            | and => exact bracketed.part hf
            | or => exact absurd rfl different
          have shows := outer?_of_mem_operators inner listed
          have hidden := (mixes_junction_eq_false.1 bracketed).1 rfl (by simp) f hf
          exact hidden (by simpa using bare) shows
      calc
        (junction c (p :: q :: rest)).HoldsBy sat v
            ↔ c.Joins (p :: q :: rest) fun f => f.HoldsBy sat v := holdsBy_junction
        _ ↔ c.Joins (p :: q :: rest) fun f => f.partLine.HoldsBy sat scope v :=
            Connective.joins_congr fun f hf => (each f hf v).trans holdsBy_partLine.symm
        _ ↔ c.Joins ((p :: q :: rest).map partLine) fun l => l.HoldsBy sat scope v :=
            (Connective.joins_map (h := partLine) (p := fun l => l.HoldsBy sat scope v)).symm
        _ ↔ (Line.joined c ((p :: q :: rest).map partLine)).HoldsBy sat scope v :=
            (Line.holdsBy_joined free).symm
        _ ↔ (junction c (p :: q :: rest)).line.HoldsBy sat scope v := by rw [line_junction]
  | neg body ih =>
    have inner := ih (plain.mono (fun _ ha => ha) fun _ hx => hx) bracketed v
    exact (not_congr inner).trans (and_iff_right trivial).symm
  | quant q vars body ih =>
    have inner := fun w => ih plain.body bracketed w
    have same : {x | x ∈ vars} = {x | x ∈ (vars.toList.map (·.name)).map (Ident.mk · scope)} := by
      refine Set.ext fun x => (VarSet.mem_iff.trans ?_ : x ∈ vars ↔ _)
      rw [List.map_map]
      refine Iff.trans (exists_congr fun y => and_congr_right fun hy => ?_) List.mem_map.symm
      -- all variables are in the scope, so that the name is enough
      exact iff_of_eq (congrArg (· = x) (congrArg (Ident.mk y.name) (plain.quantified hy).2))
    calc
      (quant q vars body).HoldsBy sat v
          ↔ q.Over {x | x ∈ vars} (body.HoldsBy sat) v := holdsBy_quant
      _ ↔ q.Over {x | x ∈ vars} (body.line.HoldsBy sat scope) v := Quantifier.over_congr inner
      _ ↔ (quant q vars body).line.HoldsBy sat scope v := by
          rw [same]
          exact (and_iff_right trivial).symm

/-! ## Lines with one kind of operators -/

end Formula

mutual

/-- In each of its lines all operators are the same. -/
def Phrase.Uniform : Phrase → Prop
  | .neg body => ∃ c, body.UniformIn c
  | .quant _ _ body => ∃ c, body.UniformIn c
  | .bracket body => ∃ c, body.UniformIn c
  | _ => True

/-- All operators outside of parentheses are those of `c`, and the phrases are uniform. -/
def Line.UniformIn (c : Connective) : Line → Prop
  | .single p => p.Uniform
  | .more p d rest => p.Uniform ∧ d = c ∧ rest.UniformIn c

end

namespace Line

theorem uniformIn_append {c d : Connective} {l m : Line} :
    (l.append d m).UniformIn c ↔ l.UniformIn c ∧ d = c ∧ m.UniformIn c := by
  match l with
  | .single p => exact Iff.rfl
  | .more p e rest =>
    have tail := uniformIn_append (c := c) (d := d) (l := rest) (m := m)
    simp only [append, UniformIn, tail, and_assoc]

theorem uniformIn_joined {c d : Connective} {l m : Line} {ls : List Line} :
    (joined d (l :: m :: ls)).UniformIn c ↔ d = c ∧ ∀ k ∈ l :: m :: ls, k.UniformIn c := by
  induction ls generalizing l m with
  | nil =>
    rw [joined, uniformIn_append]
    simp [joined, and_left_comm]
  | cons m' ls ih =>
    rw [joined, uniformIn_append, ih]
    constructor
    · rintro ⟨first, same, -, others⟩
      exact ⟨same, List.forall_mem_cons.2 ⟨first, others⟩⟩
    · rintro ⟨same, all⟩
      rcases List.forall_mem_cons.1 all with ⟨first, others⟩
      exact ⟨first, same, same, others⟩

end Line

namespace Formula

/-- Inside of parentheses any operator will do. -/
theorem exists_uniformIn_iff {f : Formula}
    (each : ∀ c, f.line.UniformIn c ↔ f.Unmixed ∧ ∀ d, f.outer? = some d → d = c) :
    (∃ c, f.line.UniformIn c) ↔ f.Unmixed := by
  constructor
  · rintro ⟨c, uniform⟩
    exact ((each c).1 uniform).1
  · intro unmixed
    cases outer : f.outer? with
    | none => exact ⟨.and, (each .and).2 ⟨unmixed, fun d shows => nomatch outer.symm.trans shows⟩⟩
    | some c =>
      refine ⟨c, (each c).2 ⟨unmixed, fun d shows => ?_⟩⟩
      exact (Option.some.inj (outer.symm.trans shows)).symm

theorem uniformIn_partLine_iff {c : Connective} {f : Formula}
    (each : ∀ c, f.line.UniformIn c ↔ f.Unmixed ∧ ∀ d, f.outer? = some d → d = c) :
    f.partLine.UniformIn c ↔
      f.Unmixed ∧ (f.isCompound = false → ∀ d, f.outer? = some d → d = c) := by
  cases compound : f.isCompound with
  | true =>
    have parenthesised : f.partLine = .single (.bracket f.line) := by simp [partLine, compound]
    rw [parenthesised]
    exact (exists_uniformIn_iff each).trans (and_iff_left Bool.noConfusion).symm
  | false =>
    have bare : f.partLine = f.line := by simp [partLine, compound]
    rw [bare, each c]
    exact and_congr_right fun _ => ⟨fun all _ => all, fun all => all rfl⟩

/-- Whether operators are mixed can be seen in the line. -/
theorem uniformIn_line_iff (c : Connective) (f : Formula) :
    f.line.UniformIn c ↔ f.Unmixed ∧ ∀ d, f.outer? = some d → d = c := by
  induction f generalizing c with
  | atom a =>
    have never : (atom a).Unmixed := fun _ _ _ => rfl
    have uniform : a.phrase.Uniform := by cases a <;> trivial
    exact iff_of_true uniform ⟨never, fun d shows => nomatch shows⟩
  | junction e parts ih =>
    match parts with
    | [] =>
      have never : (junction e []).Unmixed :=
        unmixed_junction.2 ⟨fun _ => List.forall_mem_nil _, List.forall_mem_nil _⟩
      exact iff_of_true trivial ⟨never, fun d shows => nomatch shows⟩
    | [part] =>
      have same : (junction e [part]).Unmixed ↔ part.Unmixed := by simp [unmixed_junction]
      rw [same]
      exact ih part List.mem_cons_self c
    | p :: q :: rest =>
      have each : ∀ f ∈ p :: q :: rest, (f.partLine.UniformIn c ↔
          f.Unmixed ∧ (f.isCompound = false → ∀ d, f.outer? = some d → d = c)) := fun f hf =>
        uniformIn_partLine_iff fun c => ih f hf c
      -- a part in parentheses has operators of its own, all others must show those of `c`
      have several : 1 < (p :: q :: rest).length := by simp
      have outer : (∀ d, (junction e (p :: q :: rest)).outer? = some d → d = c) ↔ e = c := by
        simp [outer?]
      rw [line_junction, outer, unmixed_junction]
      refine Line.uniformIn_joined.trans ?_
      rw [← List.map_cons, ← List.map_cons, List.forall_mem_map, forall₂_congr each]
      constructor
      · rintro ⟨rfl, all⟩
        exact ⟨⟨fun _ f hf => (all f hf).2, fun f hf => (all f hf).1⟩, rfl⟩
      · rintro ⟨⟨shown, unmixed⟩, rfl⟩
        exact ⟨rfl, fun f hf => ⟨unmixed f hf, shown several f hf⟩⟩
  | neg body ih =>
    exact (exists_uniformIn_iff ih).trans (and_iff_left fun d shows => nomatch shows).symm
  | quant q vars body ih =>
    exact (exists_uniformIn_iff ih).trans (and_iff_left fun d shows => nomatch shows).symm

theorem Unmixed.bracketed {f : Formula} (unmixed : f.Unmixed) : f.Bracketed :=
  unmixed .and .or (by decide)

/-- Formulas with the same line are mixed or unmixed together. -/
theorem Unmixed.of_line {f g : Formula} (unmixed : f.Unmixed) (same : f.line = g.line) :
    g.Unmixed := by
  have uniform := (exists_uniformIn_iff (uniformIn_line_iff · f)).2 unmixed
  rw [same] at uniform
  exact (exists_uniformIn_iff (uniformIn_line_iff · g)).1 uniform

/-! ## Equal texts -/

theorem key_named {t : Term} {scope : Option Nat} (plain : t.PlainIn scope) :
    (Term.named scope t.text).key = t.key := by
  cases t with
  | var x => exact congrArg (fun s => Term.Key.var ⟨x.name, s⟩) plain.2.symm
  | const c => exact plain.elim

/-- The terms of an atom as they are read from its phrase. -/
theorem map_named_text (scope : Option Nat) (ts : List Term) :
    (ts.map Term.text).map (Term.named scope) = ts.map fun t => .named scope t.text :=
  List.map_map

/-- It is enough that kinds of predicates do not matter and names of variables say what they are. -/
theorem Legible.of_mapTerms {sat : Atom → Valuation D → Prop} {scope : Option Nat}
    (truth : ∀ b v, sat (.truth b) v ↔ b = true)
    (kinds : ∀ a kind v, sat (.predicate { a with kind }) v ↔ sat (.predicate a) v)
    (printed : ∀ a : Atom, (∀ t ∈ a.terms, t.PlainIn scope) →
      ∀ v, sat (a.mapTerms fun t => .named scope t.text) v ↔ sat a v) : Legible sat scope where
  truth := truth
  atom a vars v := by
    have same := (printed a vars v).symm
    cases a with
    | truth b => exact Iff.rfl
    | predicate a =>
      rw [Atom.phrase, Phrase.HoldsBy, map_named_text]
      exact same.trans (kinds _ _ v).symm
    | comparison c => exact same

theorem legible_holds (M : Interpretation D) (scope : Option Nat) :
    Legible (fun a v => a.Holds M v) scope :=
  .of_mapTerms (fun _ _ => Iff.rfl) (fun _ _ _ => Iff.rfl) fun _ vars v =>
    holds_mapTerms_iff fun t ht => congrArg (Term.Key.value M v) (key_named (vars t ht))

theorem legible_holdsApart (M : Interpretation D) (scope : Option Nat) :
    Legible (fun a v => a.HoldsApart M v) scope :=
  .of_mapTerms (fun _ _ => Iff.rfl) (fun _ _ _ => Iff.rfl) fun _ vars _ =>
    holdsApart_mapTerms_iff fun t ht _ => denotes_iff_of_key (key_named (vars t ht))

/-- Formulas with the same text have the same meaning if the text groups their operands rightly. -/
theorem holdsBy_iff_of_text {sat : Atom → Valuation D → Prop} {scope : Option Nat}
    (legible : Legible sat scope) {f g : Formula} (plain : f.Plain scope) (plain' : g.Plain scope)
    (same : f.text = g.text) (bracketed : f.Bracketed) (bracketed' : g.Bracketed)
    (v : Valuation D) : f.HoldsBy sat v ↔ g.HoldsBy sat v :=
  calc
    f.HoldsBy sat v ↔ f.line.HoldsBy sat scope v := holdsBy_line legible plain bracketed v
    _ ↔ g.line.HoldsBy sat scope v := by rw [line_eq_of_text plain plain' same]
    _ ↔ g.HoldsBy sat v := (holdsBy_line legible plain' bracketed' v).symm

/-- The text of a formula determines its meaning, with plain names, one scope and no constants, if
the formula has no junction without parentheses in one of the other kind. It is also determined
among all formulas that have no disjunction without parentheses in a conjunction. -/
theorem text_determines_meaning {scope : Option Nat} {f g : Formula} (plain : f.Plain scope)
    (plain' : g.Plain scope) (same : f.text = g.text)
    (grouped : f.Unmixed ∨ f.Bracketed ∧ g.Bracketed) :
    Equivalent.{u} f g ∧ EquivalentApart.{u} f g := by
  have both : f.Bracketed ∧ g.Bracketed := by
    rcases grouped with unmixed | both
    · exact ⟨unmixed.bracketed, (unmixed.of_line (line_eq_of_text plain plain' same)).bracketed⟩
    · exact both
  exact ⟨fun D M => holdsBy_iff_of_text (legible_holds M scope) plain plain' same both.1 both.2,
    fun D M => holdsBy_iff_of_text (legible_holdsApart M scope) plain plain' same both.1 both.2⟩

/-! ## Texts with and without parentheses -/

/-- A predicate of the variable `x`. -/
def ofX (predicate : String) : Formula :=
  .predicate { predicate, terms := [.named none "x"] }

/-- `(A(x) OR B(x)) AND C(x)` is also the text of a disjunction that has the conjunction as its only
part. -/
theorem parenthesised_equivalent :
    let f := junction .and [.junction .or [ofX "A", ofX "B"], ofX "C"]
    let g := junction .or
      [.junction .and [.junction .or [ofX "A", ofX "B"], .junction .or [ofX "C"]]]
    f.text = g.text ∧ Equivalent.{0} f g ∧ EquivalentApart.{0} f g := by
  intro f g
  have plain : f.Plain none := by decide
  have plain' : g.Plain none := by decide
  have unmixed : f.Unmixed := by
    intro c d _
    cases c <;> cases d <;> rfl
  exact ⟨rfl, text_determines_meaning plain plain' rfl (.inl unmixed)⟩

/-- `A(x) OR B(x) AND C(x)` is the text of a conjunction and of a disjunction, which do not mean the
same. -/
theorem unparenthesised_not_equivalent :
    let f := junction .and [.junction .and [.junction .or [ofX "A", ofX "B"]], ofX "C"]
    let g := junction .or [ofX "A", .junction .or [.junction .and [ofX "B", ofX "C"]]]
    f.Plain none ∧ g.Plain none ∧ f.text = "A(x) OR B(x) AND C(x)" ∧ f.text = g.text ∧
      ¬ Equivalent.{0} f g := by
  intro f g
  refine ⟨by decide, by decide, by decide, rfl, fun equivalent => ?_⟩
  -- only `A` is true of the only element
  let M : Interpretation Unit := ⟨fun predicate _ => predicate = "A", fun _ => (), fun _ => ()⟩
  have verdict := equivalent Unit M fun _ => ()
  simp [f, g, Holds, HoldsBy, AllHoldBy, SomeHoldsBy, ofX, Formula.predicate, Atom.Holds,
    PredicateAtom.Holds, M] at verdict

end Formula
end QueryCalculus
