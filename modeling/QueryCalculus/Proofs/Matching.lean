import QueryCalculus.Atom.Matching
import QueryCalculus.Formula.Substitution
import QueryCalculus.Proofs.Substitution

/-!
# Matching

- `Substitution.Turns` : a substitution turns one list of terms into another
- `Substitution.Follows` : a substitution does to the variables of another one what that one does
- `Substitution.extend?` : one step of the search for a matching substitution
- `follows_of_extend?`, `not_follows_of_extend?` : what a step says about every substitution that
  turns the terms into each other
- `follows_of_matchTerms?`, `not_turns_of_matchTerms?` : what the whole search says about them
- `PredicateAtom.matching_exact` : a substitution is found if there is one, and no other one is
  possible

Terms are compared without their annotations.
-/

namespace QueryCalculus

namespace Substitution

variable {σ found m : Substitution} {t target : Term} {own targets : List Term} {x : Variable}

/-- Applied to the first terms the substitution gives the second ones, annotations aside. -/
def Turns (σ : Substitution) (own targets : List Term) : Prop :=
  (own.map σ.apply).map Term.key = targets.map Term.key

/-- The substitution replaces the variables of `m` by the terms that `m` has for them. -/
def Follows (σ m : Substitution) : Prop :=
  ∀ x t, m.find? x = some t → (σ.apply (.var x)).key = t.key

theorem follows_self (m : Substitution) : m.Follows m := by
  intro x t found
  rw [apply_var_of_some found]

theorem follows_nil (σ : Substitution) : σ.Follows [] := by
  intro x t found
  cases found

theorem turns_cons :
    σ.Turns (t :: own) (target :: targets) ↔
      (σ.apply t).key = target.key ∧ σ.Turns own targets := by
  simp only [Turns, List.map_cons, List.cons.injEq]

/-- Two substitutions with the same result agree on the variables of the terms. -/
theorem Turns.apply_congr {τ : Substitution} (left : σ.Turns own targets)
    (right : τ.Turns own targets) (hx : .var x ∈ own) :
    (σ.apply (.var x)).key = (τ.apply (.var x)).key := by
  have keys : (own.map σ.apply).map Term.key = (own.map τ.apply).map Term.key :=
    left.trans right.symm
  rw [List.map_map, List.map_map, List.map_inj_left] at keys
  exact keys _ hx

/-! ## One step -/

/-- Extends the substitution so that it turns one term into another, if it can be done. -/
def extend? (found : Substitution) : Term → Term → Option Substitution
  | .var x, target =>
    match found.find? x with
    | some bound => if bound == target then some found else none
    | none => some (found ++ [(x, target)])
  | .const c, target => if Term.const c == target then some found else none

theorem extend?_var_of_some {bound : Term} (known : found.find? x = some bound) :
    found.extend? (.var x) target = if bound == target then some found else none := by
  rw [extend?, known]

theorem extend?_var_of_none (new : found.find? x = none) :
    found.extend? (.var x) target = some (found ++ [(x, target)]) := by
  rw [extend?, new]

/-- A step that succeeds has nothing to do or adds a pair for a new variable. -/
theorem extend?_cases (h : found.extend? t target = some m) :
    (m = found ∧ (∀ σ, Follows σ found → (σ.apply t).key = target.key) ∧
      ∀ x, t = .var x → found.find? x ≠ none) ∨
    ∃ x, t = .var x ∧ found.find? x = none ∧ m = found ++ [(x, target)] := by
  cases t with
  | var x =>
    cases known : found.find? x with
    | none =>
      rw [extend?_var_of_none known] at h
      exact .inr ⟨x, rfl, known, (Option.some.inj h).symm⟩
    | some bound =>
      rw [extend?_var_of_some known, Option.ite_none_right_eq_some] at h
      refine .inl ⟨(Option.some.inj h.2).symm, fun σ follows => ?_, fun y same => ?_⟩
      · exact (follows x bound known).trans (Term.beq_iff.1 h.1)
      · cases same
        rw [known]
        exact Option.some_ne_none bound
  | const c =>
    rw [extend?, Option.ite_none_right_eq_some] at h
    exact .inl ⟨(Option.some.inj h.2).symm, fun σ _ => Term.beq_iff.1 h.1, nofun⟩

/-- A step that fails leaves nothing to be found. -/
theorem not_follows_of_extend? (h : found.extend? t target = none) (follows : σ.Follows found) :
    (σ.apply t).key ≠ target.key := by
  cases t with
  | var x =>
    cases known : found.find? x with
    | none =>
      rw [extend?_var_of_none known] at h
      cases h
    | some bound =>
      rw [extend?_var_of_some known, ite_eq_right_iff] at h
      intro same
      have equal : (bound == target) = true :=
        Term.beq_iff.2 ((follows x bound known).symm.trans same)
      cases h equal
  | const c =>
    rw [extend?, ite_eq_right_iff] at h
    intro same
    cases h (Term.beq_iff.2 same)

theorem follows_append_single (new : found.find? x = none) :
    σ.Follows (found ++ [(x, target)]) ↔
      σ.Follows found ∧ (σ.apply (.var x)).key = target.key := by
  constructor
  · intro follows
    constructor
    · intro y t known
      exact follows y t (by rw [find?_append, known, Option.some_or])
    · exact follows x target (by rw [find?_append, new, Option.none_or, find?_cons_self rfl])
  · rintro ⟨follows, image⟩ y t known
    rw [find?_append] at known
    cases old : found.find? y with
    | some r =>
      rw [old, Option.some_or] at known
      exact Option.some.inj known ▸ follows y r old
    | none =>
      rw [old, Option.none_or] at known
      rcases mem_of_find? known with ⟨z, listed, same⟩
      cases List.mem_singleton.1 listed
      have keys : (Term.var y).key = (Term.var x).key := congrArg Term.Key.var same.symm
      exact (key_apply_congr keys).trans image

/-- What a step finds is followed exactly by the substitutions that follow what was found before and
turn the one term into the other. -/
theorem follows_of_extend? (h : found.extend? t target = some m) :
    σ.Follows m ↔ σ.Follows found ∧ (σ.apply t).key = target.key := by
  rcases extend?_cases h with ⟨rfl, turned, -⟩ | ⟨x, rfl, new, rfl⟩
  · exact (and_iff_left_of_imp (turned σ)).symm
  · exact follows_append_single new

/-! ## Replaced variables -/

theorem nodup_of_extend? (h : found.extend? t target = some m) (nodup : found.domain.Nodup) :
    m.domain.Nodup := by
  rcases extend?_cases h with ⟨rfl, -, -⟩ | ⟨x, rfl, new, rfl⟩
  · exact nodup
  · have absent : x.toIdent ∉ found.domain := fun listed => mem_domain_iff.1 listed new
    have apart : List.Disjoint found.domain [x.toIdent] := by
      intro z listed added
      exact absent (List.mem_singleton.1 added ▸ listed)
    rw [domain_append]
    exact nodup.append (List.nodup_singleton _) apart

theorem mem_domain_of_extend? (h : found.extend? t target = some m) {z : Ident} :
    z ∈ m.domain ↔ z ∈ found.domain ∨ ∃ x, t = .var x ∧ x.toIdent = z := by
  rcases extend?_cases h with ⟨rfl, -, known⟩ | ⟨x, rfl, new, rfl⟩
  · constructor
    · exact .inl
    · rintro (listed | ⟨x, var, rfl⟩)
      · exact listed
      · exact mem_domain_iff.2 (known x var)
  · have added : z ∈ domain [(x, target)] ↔ x.toIdent = z := List.mem_singleton.trans eq_comm
    simp only [domain_append, List.mem_append, added, Term.var.injEq, exists_eq_left']

end Substitution

theorem matchTerms?_cons (found : Substitution) (t target : Term) (own targets : List Term) :
    matchTerms? found (t :: own) (target :: targets) =
      (found.extend? t target).bind fun m => matchTerms? m own targets := by
  cases t with
  | var x =>
    rw [matchTerms?, Substitution.extend?]
    cases found.find? x with
    | none => rfl
    | some bound =>
      by_cases same : (bound == target) = true
      · simp [same]
      · simp [same]
  | const c =>
    rw [matchTerms?, Substitution.extend?]
    by_cases same : (Term.const c == target) = true
    · simp [same]
    · simp [same]

/-! ## The whole search -/

section

variable {σ found m : Substitution} {own targets : List Term}

theorem follows_of_matchTerms? (lengths : own.length = targets.length)
    (h : matchTerms? found own targets = some m) :
    σ.Follows m ↔ σ.Follows found ∧ σ.Turns own targets := by
  induction own generalizing found targets with
  | nil =>
    cases List.length_eq_zero_iff.1 lengths.symm
    cases h
    exact (and_iff_left rfl).symm
  | cons t own ih =>
    cases targets with
    | nil => cases lengths
    | cons target targets =>
      rw [matchTerms?_cons, Option.bind_eq_some_iff] at h
      rcases h with ⟨next, step, rest⟩
      calc
        σ.Follows m ↔ σ.Follows next ∧ σ.Turns own targets := ih (Nat.succ.inj lengths) rest
        _ ↔ (σ.Follows found ∧ (σ.apply t).key = target.key) ∧ σ.Turns own targets :=
          and_congr_left' (Substitution.follows_of_extend? step)
        _ ↔ σ.Follows found ∧ σ.Turns (t :: own) (target :: targets) := by
          rw [and_assoc, Substitution.turns_cons]

theorem not_turns_of_matchTerms? (lengths : own.length = targets.length)
    (h : matchTerms? found own targets = none) (follows : σ.Follows found) :
    ¬ σ.Turns own targets := by
  induction own generalizing found targets with
  | nil =>
    cases List.length_eq_zero_iff.1 lengths.symm
    cases h
  | cons t own ih =>
    cases targets with
    | nil => cases lengths
    | cons target targets =>
      rw [matchTerms?_cons] at h
      rw [Substitution.turns_cons]
      rintro ⟨first, others⟩
      cases step : found.extend? t target with
      | none => exact Substitution.not_follows_of_extend? step follows first
      | some next =>
        rw [step] at h
        have follows' := (Substitution.follows_of_extend? step).2 ⟨follows, first⟩
        exact ih (Nat.succ.inj lengths) h follows' others

theorem domain_of_matchTerms? (lengths : own.length = targets.length)
    (h : matchTerms? found own targets = some m) (nodup : found.domain.Nodup) :
    m.domain.Nodup ∧ ∀ z, z ∈ m.domain ↔ z ∈ found.domain ∨ ∃ x, .var x ∈ own ∧ x.toIdent = z := by
  induction own generalizing found targets with
  | nil =>
    cases List.length_eq_zero_iff.1 lengths.symm
    cases h
    exact ⟨nodup, by simp⟩
  | cons t own ih =>
    cases targets with
    | nil => cases lengths
    | cons target targets =>
      rw [matchTerms?_cons, Option.bind_eq_some_iff] at h
      rcases h with ⟨next, step, rest⟩
      have later := ih (Nat.succ.inj lengths) rest (Substitution.nodup_of_extend? step nodup)
      refine ⟨later.1, fun z => ?_⟩
      rw [later.2, Substitution.mem_domain_of_extend? step, or_assoc]
      simp only [List.mem_cons, or_and_right, exists_or, eq_comm]

end

namespace PredicateAtom

variable {a b : PredicateAtom} {m : Substitution}

theorem match?_eq_some_iff :
    a.match? b = some m ↔
      a.predicate = b.predicate ∧ a.terms.length = b.terms.length ∧
        matchTerms? [] a.terms b.terms = some m := by
  rw [match?, Option.ite_none_right_eq_some, and_assoc]
  rfl

theorem turns_of_match? (h : a.match? b = some m) : m.Turns a.terms b.terms := by
  rcases match?_eq_some_iff.1 h with ⟨-, lengths, found⟩
  exact ((follows_of_matchTerms? lengths found).1 m.follows_self).2

theorem exists_match?_iff :
    (∃ m, a.match? b = some m) ↔
      a.predicate = b.predicate ∧ a.arity = b.arity ∧
        ∃ σ : Substitution, σ.Turns a.terms b.terms := by
  constructor
  · rintro ⟨m, h⟩
    have parts := match?_eq_some_iff.1 h
    exact ⟨parts.1, parts.2.1, m, turns_of_match? h⟩
  · rintro ⟨name, lengths, σ, turns⟩
    cases found : matchTerms? [] a.terms b.terms with
    | some m => exact ⟨m, match?_eq_some_iff.2 ⟨name, lengths, found⟩⟩
    | none => exact absurd turns (not_turns_of_matchTerms? lengths found σ.follows_nil)

/-- What is found replaces each variable of the atom once, and no other variable. -/
theorem domain_of_match? (h : a.match? b = some m) :
    m.domain.Nodup ∧ ∀ z, z ∈ m.domain ↔ ∃ x ∈ a.vars, x.toIdent = z := by
  rcases match?_eq_some_iff.1 h with ⟨-, lengths, found⟩
  have domain := domain_of_matchTerms? lengths found List.nodup_nil
  refine ⟨domain.1, fun z => ?_⟩
  have none : z ∉ Substitution.domain [] := List.not_mem_nil
  simp only [domain.2, none, false_or, vars, mem_variablesOf]

theorem same_replace_of_match? (h : a.match? b = some m) :
    ((Formula.predicate a).replace m).same (.predicate { b with kind := a.kind }) = true :=
  Formula.same_predicate_iff.2 ⟨(match?_eq_some_iff.1 h).1, turns_of_match? h, rfl⟩

/-- An atom is matched exactly if some substitution turns it into the other one. The substitution
that is found replaces the variables of the atom and no others. Applied to all of them at once it
gives the other atom, and every substitution that does so agrees with it. -/
theorem matching_exact (a b : PredicateAtom) :
    ((∃ m, a.match? b = some m) ↔
      a.predicate = b.predicate ∧ a.arity = b.arity ∧
        ∃ σ : Substitution, σ.Turns a.terms b.terms) ∧
    ∀ m, a.match? b = some m →
      m.domain.Nodup ∧ (∀ z, z ∈ m.domain ↔ ∃ x ∈ a.vars, x.toIdent = z) ∧
      ((Formula.predicate a).replace m).same (.predicate { b with kind := a.kind }) = true ∧
      ∀ σ : Substitution, σ.Turns a.terms b.terms →
        ∀ x ∈ a.vars, (σ.apply (.var x)).key = (m.apply (.var x)).key := by
  refine ⟨exists_match?_iff, fun m h => ?_⟩
  have domain := domain_of_match? h
  refine ⟨domain.1, domain.2, same_replace_of_match? h, fun σ turns x hx => ?_⟩
  exact turns.apply_congr (turns_of_match? h) (mem_variablesOf.1 hx)

/-- `R(x, y, x, 1)` -/
def general : PredicateAtom where
  predicate := "R"
  terms := [.var { name := "x" }, .var { name := "y" }, .var { name := "x" },
    .const (.data "1" .integer)]

/-- `R(y, _, y, "1")` -/
def special : PredicateAtom where
  predicate := "R"
  terms := [.var { name := "y" }, .var { name := "_" }, .var { name := "y" },
    .const (.data "1" .string)]

theorem general_matching_exact :
    ∃ m, general.match? special = some m ∧
      m = [({ name := "x" }, .var { name := "y" }), ({ name := "y" }, .var { name := "_" })] ∧
      ((Formula.predicate general).replace m).same (.predicate special) = true ∧
      ∀ σ : Substitution, σ.Turns general.terms special.terms →
        ∀ x ∈ general.vars, (σ.apply (.var x)).key = (m.apply (.var x)).key := by
  have found := (matching_exact general special).2 _ rfl
  exact ⟨_, rfl, rfl, found.2.2.1, found.2.2.2⟩

end PredicateAtom
end QueryCalculus
