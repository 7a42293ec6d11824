import Mathlib.Data.Set.Basic
import QueryCalculus.Formula.Variables
import QueryCalculus.Semantics
import QueryCalculus.Sparql.Pattern

/-!
# What queries return

- `Graph` : the triples of a graph, and what constants and tests mean on its nodes
- `Solution` : nodes for some of the variables, by their names
- `joined`, `without`, `projected` : the algebra of solutions
- `Pattern.solutions` : the solutions of a pattern in a group of its own
- `Pattern.legal` : no name is given to a constant that is in sight already
- `Formula.HoldsIn` : truth of a formula on a graph

Every `SELECT` is `DISTINCT`, so that sets of solutions are enough. The elements of a group are
taken in order, each applied to the solutions of those before it; its filters come last, wherever
they stand. A join has no braces of its own: its parts are elements of the group around it.
-/

namespace QueryCalculus

universe u

def VarSet.names (s : VarSet) : List String :=
  s.idents.map Ident.name

namespace Sparql

/-! ## Graphs -/

/-- The triples of a graph with the nodes `D`, where `type` is the property that is written `a`. The
test `=` gives a truth value or an error. -/
structure Graph (D : Type u) where
  triple : D → D → D → Prop
  type : D
  object : String → D
  data : String → Datatype → D
  equal : D → D → Option Bool

variable {D : Type u} (G : Graph D)

namespace Graph

def constant : Constant → D
  | .object iri => G.object iri
  | .data value datatype => G.data value datatype

/-- The constant that is selected when there are no variables. -/
def one : D :=
  G.data "1" .integer

/-- What a term of a triple stands for, given the values of the variables. A blank takes any
value. -/
def Denotes (value : Variable → D → Prop) : Term → D → Prop
  | .var x, d => x.isBlank = true ∨ value x d
  | .const c, d => G.constant c = d

/-- The outcome of a test. `!=` is an error if `=` is one. -/
def Compares (d e : D) : Relation → Prop
  | .equal => G.equal d e = some true
  | .different => G.equal d e = some false

/-- Some instance of the class is denoted by the term. -/
def Instance (denotes : Term → D → Prop) (subject : Term) (name : String) : Prop :=
  ∃ d, denotes subject d ∧ G.triple d G.type (G.object name)

/-- Some nodes that the property relates are denoted by the terms. -/
def Related (denotes : Term → D → Prop) (subject : Term) (name : String) (object : Term) : Prop :=
  ∃ d e, denotes subject d ∧ denotes object e ∧ G.triple d (G.object name) e

end Graph

/-! ## Solutions -/

/-- The nodes that a solution gives to names of variables. -/
abbrev Solution (D : Type u) := String → Option D

/-- The name of the constant that is selected. -/
def dummy : String := "dummy"

namespace Solution

/-- The solution without values. -/
def unit : Solution D := fun _ => none

/-- There is no name with two different values. -/
def Compatible (μ ν : Solution D) : Prop :=
  ∀ name d e, μ name = some d → ν name = some e → d = e

/-- Some name has a value in both solutions. -/
def Overlap (μ ν : Solution D) : Prop :=
  ∃ name d e, μ name = some d ∧ ν name = some e

def merge (μ ν : Solution D) : Solution D :=
  fun name => (μ name).or (ν name)

def restrict (vars : VarSet) (μ : Solution D) : Solution D :=
  fun name => if name ∈ vars.names then μ name else none

/-- The solution that a valuation of the variables stands for. -/
def ofValuation (vars : VarSet) (v : Valuation D) : Solution D :=
  fun name => (vars.idents.find? (·.name == name)).map v

/-- What is projected of a solution: the values of the variables, or the constant if there are
none. -/
def project (vars : VarSet) (μ : Solution D) : Solution D :=
  if vars.isEmpty then fun name => if name = dummy then some G.one else none
  else μ.restrict vars

end Solution

open Solution

/-- The unions of compatible solutions. -/
def joined (A B : Set (Solution D)) : Set (Solution D) :=
  {ξ | ∃ μ ∈ A, ∃ ν ∈ B, Compatible μ ν ∧ ξ = merge μ ν}

/-- The solutions that are left when those are removed that are compatible with one of `B` and have
a variable in common with it. -/
def without (A B : Set (Solution D)) : Set (Solution D) :=
  {μ ∈ A | ∀ ν ∈ B, ¬ (Compatible μ ν ∧ Overlap μ ν)}

def projected (vars : VarSet) (A : Set (Solution D)) : Set (Solution D) :=
  {ξ | ∃ μ ∈ A, ξ = μ.project G vars}

theorem compatible_unit_left (μ : Solution D) : Compatible unit μ := by
  intro name d e value
  cases value

theorem compatible_unit_right (μ : Solution D) : Compatible μ unit := by
  intro name d e _ value
  cases value

theorem merge_unit_right (μ : Solution D) : merge μ unit = μ :=
  funext fun _ => Option.or_none

theorem joined_unit_left (A : Set (Solution D)) : joined {unit} A = A := by
  ext ξ
  constructor
  · rintro ⟨_, rfl, ν, hν, -, rfl⟩
    exact hν
  · intro hξ
    exact ⟨unit, rfl, ξ, hξ, compatible_unit_left ξ, rfl⟩

theorem joined_unit_right (A : Set (Solution D)) : joined A {unit} = A := by
  ext ξ
  constructor
  · rintro ⟨μ, hμ, _, rfl, -, rfl⟩
    rwa [merge_unit_right]
  · intro hξ
    exact ⟨ξ, hξ, unit, rfl, compatible_unit_right ξ, (merge_unit_right ξ).symm⟩

/-- The solutions for exactly the variables of a triple under which it is in the graph. -/
def matching (terms : List Term) (holds : (Term → D → Prop) → Prop) : Set (Solution D) :=
  {μ | (∀ name, (∃ d, μ name = some d) ↔ ∃ x ∈ Formula.namedVariables terms, x.name = name) ∧
    holds (G.Denotes fun x d => μ x.name = some d)}

/-! ## Patterns -/

/-- The value of a term in a filter. -/
def operand? (μ : Solution D) : Term → Option D
  | .var x => μ x.name
  | .const c => some (G.constant c)

namespace Pattern

mutual

/-- Whether a solution passes the filters of a group. A filter on a variable without value is an
error, and fails. -/
def Accepts : Pattern → Solution D → Prop
  | .filter c, μ =>
    ∃ d e, operand? G μ c.left = some d ∧ operand? G μ c.right = some e ∧ G.Compares d e c.relation
  | .never, _ => False
  | .join parts, μ => AcceptsAll parts μ
  | _, _ => True

def AcceptsAll : List Pattern → Solution D → Prop
  | [], _ => True
  | p :: ps, μ => p.Accepts μ ∧ AcceptsAll ps μ

end

mutual

/-- The solutions of a group up to a pattern, from those of the elements before it and without the
filters. -/
def step : Pattern → Set (Solution D) → Set (Solution D)
  | .instanceOf subject name, A =>
    joined A (matching G [subject] fun denotes => G.Instance denotes subject name)
  | .property subject name object, A =>
    joined A (matching G [subject, object] fun denotes => G.Related denotes subject name object)
  | .filter _, A => A
  | .never, A => A
  | .empty, A => joined A {unit}
  | .join parts, A => stepAll parts A
  | .union alternatives, A => joined A (solutionsAny alternatives)
  | .minus removed, A => without A {μ ∈ removed.step {unit} | removed.Accepts G μ}
  | .select vars body, A => joined A (projected G vars {μ ∈ body.step {unit} | body.Accepts G μ})

def stepAll : List Pattern → Set (Solution D) → Set (Solution D)
  | [], A => A
  | p :: ps, A => stepAll ps (p.step A)

/-- The solutions of groups, one for each pattern, put together. -/
def solutionsAny : List Pattern → Set (Solution D)
  | [] => ∅
  | p :: ps => {μ ∈ p.step {unit} | p.Accepts G μ} ∪ solutionsAny ps

end

/-- The solutions of the group of a pattern. -/
def solutions (p : Pattern) : Set (Solution D) :=
  {μ ∈ p.step G {unit} | p.Accepts G μ}

theorem acceptsAll_iff {ps : List Pattern} {μ : Solution D} :
    AcceptsAll G ps μ ↔ ∀ p ∈ ps, p.Accepts G μ := by
  induction ps with
  | nil => simp [AcceptsAll]
  | cons p ps ih => simp [AcceptsAll, ih]

theorem mem_solutionsAny {ps : List Pattern} {μ : Solution D} :
    μ ∈ solutionsAny G ps ↔ ∃ p ∈ ps, μ ∈ p.solutions G := by
  induction ps with
  | nil => simp [solutionsAny]
  | cons p ps ih =>
    rw [solutionsAny, Set.mem_union, ih, List.exists_mem_cons_iff]
    rfl

theorem stepAll_append {ps qs : List Pattern} {A : Set (Solution D)} :
    stepAll G (ps ++ qs) A = stepAll G qs (stepAll G ps A) := by
  induction ps generalizing A with
  | nil => rfl
  | cons p ps ih => exact ih

/-! ## Groups -/

/-- The elements that only test the solutions of a group. -/
def isTest : Pattern → Bool
  | .filter _ => true
  | .never => true
  | .minus _ => true
  | _ => false

/-- The solutions that an element adds to a group, if it adds any. -/
def source (p : Pattern) : Set (Solution D) :=
  if p.isTest then {unit} else p.solutions G

/-- Whether an element lets a solution of the group pass. -/
def Passes : Pattern → Solution D → Prop
  | .minus removed, μ => ∀ ν ∈ removed.solutions G, ¬ (Compatible μ ν ∧ Overlap μ ν)
  | .join _, _ => True
  | p, μ => p.Accepts G μ

/-- The elements that are joined with those before them. -/
def isPlain : Pattern → Bool
  | .join _ => false
  | .minus _ => false
  | _ => true

def isMinus : Pattern → Bool
  | .minus _ => true
  | _ => false

theorem source_test {p : Pattern} (test : p.isTest = true) : p.source G = {unit} :=
  if_pos test

theorem source_eq {p : Pattern} (adds : p.isTest = false) : p.source G = p.solutions G := by
  rw [source, adds]
  rfl

theorem passes_of_adds {p : Pattern} (adds : p.isTest = false) (μ : Solution D) :
    p.Passes G μ := by
  cases p with
  | filter c => cases adds
  | never => cases adds
  | minus removed => cases adds
  | _ => trivial

theorem solutions_eq (p : Pattern) : p.solutions G = {μ ∈ p.source G | p.Passes G μ} := by
  -- a test is applied to the solution without values if it is alone in its group
  cases test : p.isTest with
  | false => simp only [source_eq G test, passes_of_adds G test, and_true, Set.ofPred_mem_eq]
  | true =>
    rw [source_test G test]
    cases p with
    | minus removed =>
      ext μ
      simp [solutions, Passes, step, without, Accepts]
    | filter c => rfl
    | never => rfl
    | _ => cases test

theorem step_plain {p : Pattern} (plain : p.isPlain = true) (A : Set (Solution D)) :
    p.step G A = joined A (p.source G) := by
  cases p with
  | join parts => cases plain
  | minus removed => cases plain
  | filter c => exact (joined_unit_right A).symm
  | never => exact (joined_unit_right A).symm
  | _ =>
    rw [source_eq G rfl]
    simp [solutions, step, Accepts, joined_unit_left]

/-- All that the elements of a group add. -/
def sources (ps : List Pattern) (A : Set (Solution D)) : Set (Solution D) :=
  ps.foldl (fun A p => joined A (p.source G)) A

theorem stepAll_plain {ps : List Pattern} (plain : ∀ p ∈ ps, p.isPlain = true)
    (A : Set (Solution D)) : stepAll G ps A = sources G ps A := by
  induction ps generalizing A with
  | nil => rfl
  | cons p ps ih =>
    rw [List.forall_mem_cons] at plain
    rw [stepAll, step_plain G plain.1, ih plain.2]
    rfl

theorem sources_minus {ps : List Pattern} (minus : ∀ p ∈ ps, p.isMinus = true)
    (A : Set (Solution D)) : sources G ps A = A := by
  induction ps generalizing A with
  | nil => rfl
  | cons p ps ih =>
    rw [List.forall_mem_cons] at minus
    cases p with
    | minus removed =>
      have added : joined A ((Pattern.minus removed).source G) = A := joined_unit_right A
      rw [sources, List.foldl_cons, added]
      exact ih minus.2 A
    | _ => cases minus.1

theorem stepAll_minus {ps : List Pattern} (minus : ∀ p ∈ ps, p.isMinus = true)
    (A : Set (Solution D)) : stepAll G ps A = {μ ∈ A | ∀ p ∈ ps, p.Passes G μ} := by
  induction ps generalizing A with
  | nil => simp [stepAll]
  | cons p ps ih =>
    rw [List.forall_mem_cons] at minus
    cases p with
    | minus removed =>
      have here : (Pattern.minus removed).step G A = {μ ∈ A | (Pattern.minus removed).Passes G μ} :=
        rfl
      rw [stepAll, ih minus.2, here]
      ext μ
      simp only [Set.mem_ofPred_eq, List.forall_mem_cons, and_assoc]
    | _ => cases minus.1

theorem accepts_plain {p : Pattern} (plain : p.isPlain = true) {μ : Solution D} :
    p.Accepts G μ ↔ p.Passes G μ := by
  cases p with
  | minus removed => cases plain
  | join parts => cases plain
  | _ => exact Iff.rfl

theorem accepts_minus {p : Pattern} (minus : p.isMinus = true) (μ : Solution D) :
    p.Accepts G μ := by
  cases p with
  | minus removed => trivial
  | _ => cases minus

/-- A group of elements that are joined and, behind them, removals. -/
theorem solutions_join {ps qs : List Pattern} (plain : ∀ p ∈ ps, p.isPlain = true)
    (minus : ∀ p ∈ qs, p.isMinus = true) :
    (join (ps ++ qs)).solutions G =
      {μ ∈ sources G (ps ++ qs) {unit} | ∀ p ∈ ps ++ qs, p.Passes G μ} := by
  have added : sources G (ps ++ qs) {unit} = sources G ps {unit} := by
    rw [sources, List.foldl_append]
    exact sources_minus G minus _
  -- a removal applies to all that is joined, since nothing is added behind it
  have steps : (join (ps ++ qs)).step G {unit} =
      {μ ∈ sources G ps {unit} | ∀ p ∈ qs, p.Passes G μ} := by
    rw [step, stepAll_append, stepAll_plain G plain, stepAll_minus G minus]
  have filters : ∀ μ, (join (ps ++ qs)).Accepts G μ ↔ ∀ p ∈ ps, p.Passes G μ := by
    intro μ
    rw [Accepts, acceptsAll_iff, List.forall_mem_append,
      and_iff_left fun p hp => accepts_minus G (minus p hp) μ]
    exact forall₂_congr fun p hp => accepts_plain G (plain p hp)
  ext μ
  rw [solutions, steps, added]
  simp only [Set.mem_ofPred_eq, filters, List.forall_mem_append]
  rw [and_right_comm, and_assoc]

/-! ## Names in sight -/

def termNames (terms : List Term) : List String :=
  (Formula.namedVariables terms).map (·.name)

mutual

/-- The names that the group of a pattern may give values to. -/
def scope : Pattern → List String
  | .instanceOf subject _ => termNames [subject]
  | .property subject _ object => termNames [subject, object]
  | .join parts => scopeAll parts
  | .union alternatives => scopeAll alternatives
  | .select vars _ => if vars.isEmpty then [dummy] else vars.names
  | _ => []

def scopeAll : List Pattern → List String
  | [] => []
  | p :: ps => p.scope ++ scopeAll ps

end

mutual

/-- Whether a name that is introduced for a constant is never in sight already. -/
def legal : Pattern → Bool
  | .join parts => legalAll parts
  | .union alternatives => legalAll alternatives
  | .minus removed => removed.legal
  | .select vars body => !(vars.isEmpty && body.scope.contains dummy) && body.legal
  | _ => true

def legalAll : List Pattern → Bool
  | [] => true
  | p :: ps => p.legal && legalAll ps

end

theorem scopeAll_eq_flatMap (ps : List Pattern) : scopeAll ps = ps.flatMap scope := by
  induction ps with
  | nil => rfl
  | cons p ps ih => simp [scopeAll, ih]

theorem legalAll_eq_all (ps : List Pattern) : legalAll ps = ps.all legal := by
  induction ps with
  | nil => rfl
  | cons p ps ih => simp [legalAll, ih]

end Pattern

/-! ## Queries -/

/-- The solutions of a query. -/
def answers (vars : VarSet) (p : Pattern) : Set (Solution D) :=
  projected G vars (p.solutions G)

end Sparql

/-! ## Truth on a graph -/

open Sparql (Graph)

variable {D : Type u} (G : Graph D)

/-- What a term denotes under a valuation. -/
def Term.DenotesIn (v : Valuation D) : Term → D → Prop :=
  G.Denotes fun x d => v x.toIdent = d

/-- Unary predicates are classes, and binary ones are properties. -/
def PredicateAtom.HoldsIn (a : PredicateAtom) (v : Valuation D) : Prop :=
  match a.terms with
  | [subject] => G.Instance (Term.DenotesIn G v) subject a.predicate
  | [subject, object] => G.Related (Term.DenotesIn G v) subject a.predicate object
  | _ => False

def Comparison.HoldsIn (c : Comparison) (v : Valuation D) : Prop :=
  ∃ d e, c.left.DenotesIn G v d ∧ c.right.DenotesIn G v e ∧ G.Compares d e c.relation

def Atom.HoldsIn (v : Valuation D) : Atom → Prop
  | .truth b => b = true
  | .predicate a => a.HoldsIn G v
  | .comparison c => c.HoldsIn G v

/-- Truth of a formula on a graph, with blanks that are independent of each other. -/
def Formula.HoldsIn (f : Formula) (v : Valuation D) : Prop :=
  f.HoldsBy (fun a w => a.HoldsIn G w) v

end QueryCalculus
