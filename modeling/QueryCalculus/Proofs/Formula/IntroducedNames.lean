import QueryCalculus.Proofs.Formula.ActiveAlphabet
import QueryCalculus.Proofs.Formula.NameClashes
import QueryCalculus.Proofs.Formula.NamedBlanks
import QueryCalculus.Proofs.Formula.PrenexVariables
import QueryCalculus.Settings

/-!
# Names that rewriting introduces

- `Formula.Introduces` : the names that a formula gets are fresh, and the first fresh name is one of
  them
- `NameDrawing` : the rewritings that draw names, each with the alphabet of the formula itself
- `NameDrawing.Needed` : when they have to
- `NameDrawing.introduced_legal_iff` : what they introduce are names of variables, unless a name of
  the formula has a digit
-/

namespace QueryCalculus
namespace Formula

/-- Every name of `g` is one of `f` or a fresh name. If there is a fresh one, then also the one that
is drawn when exactly the names of `f` are in use. -/
structure Introduces (alphabet : Alphabet) (f g : Formula) : Prop where
  origin : ∀ n ∈ g.names, n ∈ f.names ∨ ∃ reserved, n = alphabet.fresh reserved
  first : g.names ⊆ f.names ∨ alphabet.fresh f.names ∈ g.names

variable {alphabet : Alphabet} {f g h : Formula}

/-! ## Renaming apart and prenex forms -/

theorem introduces_renameApart (alphabet : Alphabet) (f : Formula) :
    Introduces alphabet f (f.renameApart alphabet) where
  origin _ hn := fresh_of_renameApart hn
  first := (fresh_mem_renameApart alphabet f).imp_left names_renameApart_subset

theorem introduces_prenex (alphabet : Alphabet) (f : Formula) :
    Introduces alphabet f (f.prenex alphabet) where
  origin _ hn := fresh_of_renameApart (mem_names_prenex.1 hn)
  first := (introduces_renameApart alphabet f).first.imp
    (fun old _ hn => old (mem_names_prenex.1 hn)) mem_names_prenex.2

theorem names_prenex_subset_iff : (f.prenex alphabet).names ⊆ f.names ↔ f.NamedApart := by
  rw [← names_renameApart_subset_iff alphabet]
  simp only [List.subset_def, mem_names_prenex]

/-! ## Explicit blanks -/

/-- Some term of an atom is a blank. -/
def HasBlank (f : Formula) : Prop :=
  ∃ x ∈ variablesOf f.terms, x.isBlank = true

instance (f : Formula) : Decidable f.HasBlank :=
  inferInstanceAs (Decidable (∃ x ∈ variablesOf f.terms, x.isBlank = true))

theorem mem_names_iff_terms {n : String} :
    n ∈ f.names ↔ (∃ x, .var x ∈ f.terms ∧ x.name = n) ∨ ∃ x ∈ f.binders, x.name = n := by
  have occurring : ∀ x : Ident, x ∈ f.vars ↔ ∃ y, .var y ∈ f.terms ∧ y.toIdent = x := fun x => by
    rw [vars, VarSet.mem_ofList]
    simp only [mem_variablesOf]
  rw [mem_names]
  constructor
  · rintro ⟨x, hx | hx, rfl⟩
    · rcases (occurring x).1 hx with ⟨y, hy, rfl⟩
      exact .inl ⟨y, hy, rfl⟩
    · exact .inr ⟨x, hx, rfl⟩
  · rintro (⟨y, hy, rfl⟩ | ⟨x, hx, rfl⟩)
    · exact ⟨_, .inl ((occurring _).2 ⟨y, hy, rfl⟩), rfl⟩
    · exact ⟨x, .inr hx, rfl⟩

theorem mem_names_explicit {n : String} :
    n ∈ (f.explicit alphabet).names ↔
      (∃ x, .var x ∈ (f.explicit alphabet).terms ∧ x.name = n) ∨ ∃ x ∈ f.binders, x.name = n := by
  have bound : (f.explicit alphabet).binders = f.binders := binders_nameBlanks alphabet f f.names
  rw [mem_names_iff_terms, bound]

/-- Without blanks no name is drawn, and otherwise the first blank gets the first fresh name. -/
theorem explicit_cases (alphabet : Alphabet) (f : Formula) :
    (¬ f.HasBlank ∧ (f.explicit alphabet).names ⊆ f.names) ∨
      (f.HasBlank ∧ alphabet.fresh f.names ∈ (f.explicit alphabet).names) := by
  refine (blanksNamed_nameBlanks alphabet f f.names).first.imp ?_ ?_
  · rintro ⟨visible, same⟩
    constructor
    · rintro ⟨x, hx, blank⟩
      exact absurd blank (Bool.eq_false_iff.1 (visible x (mem_variablesOf.1 hx)))
    · intro n hn
      rw [mem_names_explicit, explicit, same] at hn
      exact mem_names_iff_terms.2 hn
  · rintro ⟨⟨x, hx, blank⟩, y, hy, drawn⟩
    exact ⟨⟨x, mem_variablesOf.2 hx, blank⟩, mem_names_explicit.2 (.inl ⟨y, hy, drawn⟩)⟩

theorem introduces_explicit (alphabet : Alphabet) (f : Formula) :
    Introduces alphabet f (f.explicit alphabet) where
  origin n hn := by
    rcases mem_names_explicit.1 hn with ⟨x, hx, rfl⟩ | bound
    · refine ((blanksNamed_nameBlanks alphabet f f.names).origin hx).imp_left fun old => ?_
      exact mem_names_iff_terms.2 (.inl ⟨x, old, rfl⟩)
    · exact .inl (mem_names_iff_terms.2 (.inr bound))
  first := (explicit_cases alphabet f).imp And.right And.right

theorem names_explicit_subset_iff : (f.explicit alphabet).names ⊆ f.names ↔ ¬ f.HasBlank := by
  rcases explicit_cases alphabet f with ⟨visible, old⟩ | ⟨blank, drawn⟩
  · exact iff_of_true old visible
  · exact iff_of_false (fun old => alphabet.fresh_notMem f.names (old drawn)) (not_not_intro blank)

/-! ## The alphabet of the formula -/

namespace Introduces

variable {n : String} (introduced : Introduces f.activeAlphabet f g)
  (legal : ∀ n ∈ f.names, Datalog.VariableName n)
include introduced

theorem nonempty (hn : n ∈ g.names) (new : n ∉ f.names) : n ≠ "" := by
  rcases (introduced.origin n hn).resolve_left new with ⟨reserved, rfl⟩
  exact Alphabet.fresh_ne_empty _ reserved

theorem forall_mem {p : Char → Prop} (letters : ∀ c, c.isAlpha = true → p c)
    (used : ∀ c, f.UsesChar c → p c) (hn : n ∈ g.names) (new : n ∉ f.names) :
    ∀ c ∈ n.toList, p c := by
  rcases (introduced.origin n hn).resolve_left new with ⟨reserved, rfl⟩
  exact Alphabet.forall_mem_fresh (forall_mem_activeAlphabet letters used) reserved

include legal

theorem alphanum (hn : n ∈ g.names) (new : n ∉ f.names) : ∀ c ∈ n.toList, c.isAlphanum = true :=
  introduced.forall_mem (fun _ letter => Bool.or_eq_true_iff.2 (.inl letter))
    (fun _ used => isAlphanum_of_usesChar legal used) hn new

/-- Without digits, the symbols are letters. -/
theorem variableName (undigited : ¬ f.UsesDigit) (hn : n ∈ g.names) (new : n ∉ f.names) :
    Datalog.VariableName n ∧ n ≠ Variable.blankName := by
  have letters : ∀ c ∈ n.toList, c.isAlpha = true := by
    refine introduced.forall_mem (fun _ letter => letter) (fun c used => ?_) hn new
    -- a symbol that is no letter would be a digit of some name
    refine (Bool.or_eq_true_iff.1 (isAlphanum_of_usesChar legal used)).resolve_right fun digit => ?_
    rcases used with ⟨-, m, hm, hc⟩
    exact undigited ⟨m, hm, c, hc, digit⟩
  refine ⟨Datalog.variableName_of_letters (introduced.nonempty hn new) letters, ?_⟩
  rintro rfl
  exact absurd (letters '_' List.mem_cons_self) (by decide)

/-- With a digit, the first name that is drawn is a digit. -/
theorem exists_digit (digits : f.UsesDigit) (news : ¬ g.names ⊆ f.names) :
    ∃ d, d.isDigit = true ∧ String.singleton d ∈ g.names ∧ String.singleton d ∉ f.names := by
  rcases fresh_of_usesDigit legal digits with ⟨d, digit, drawn⟩
  have first := introduced.first.resolve_left news
  have fresh := f.activeAlphabet.fresh_notMem f.names
  rw [drawn] at first fresh
  exact ⟨d, digit, first, fresh⟩

end Introduces
end Formula

/-! ## The rewritings with this alphabet -/

/-- The rewritings that draw names. -/
inductive NameDrawing
  | apart
  | prenex
  | explicit

namespace NameDrawing

/-- The rewriting with the characters of the names of the formula as symbols. For prenex forms this
is the default. -/
def rewrite : NameDrawing → Formula → Formula
  | .apart, f => f.renameApart f.activeAlphabet
  | .prenex, f => ({} : Settings).prenex f
  | .explicit, f => f.explicit f.activeAlphabet

/-- Names are bound twice or bound and free, or there are blanks to be named. -/
def Needed : NameDrawing → Formula → Prop
  | .apart, f | .prenex, f => ¬ f.NamedApart
  | .explicit, f => f.HasBlank

instance : (r : NameDrawing) → (f : Formula) → Decidable (r.Needed f)
  | .apart, f | .prenex, f => inferInstanceAs (Decidable (¬ f.NamedApart))
  | .explicit, f => inferInstanceAs (Decidable f.HasBlank)

/-- The name is one of the rewritten formula only. -/
def Introduced (r : NameDrawing) (f : Formula) (n : String) : Prop :=
  n ∈ (r.rewrite f).names ∧ n ∉ f.names

variable {f : Formula} {r : NameDrawing}

theorem rewrite_prenex (f : Formula) : prenex.rewrite f = f.prenex f.activeAlphabet := by
  rw [rewrite, Settings.prenex, Option.getD_none]

theorem introduces_rewrite (r : NameDrawing) (f : Formula) :
    f.Introduces f.activeAlphabet (r.rewrite f) := by
  cases r with
  | apart => exact Formula.introduces_renameApart _ f
  | prenex => exact rewrite_prenex f ▸ Formula.introduces_prenex _ f
  | explicit => exact Formula.introduces_explicit _ f

theorem names_rewrite_subset_iff (r : NameDrawing) (f : Formula) :
    (r.rewrite f).names ⊆ f.names ↔ ¬ r.Needed f := by
  cases r with
  | apart => exact (Formula.names_renameApart_subset_iff _).trans not_not.symm
  | prenex => exact rewrite_prenex f ▸ Formula.names_prenex_subset_iff.trans not_not.symm
  | explicit => exact Formula.names_explicit_subset_iff

theorem exists_introduced_iff : (∃ n, r.Introduced f n) ↔ r.Needed f := by
  rw [← not_iff_not, ← names_rewrite_subset_iff]
  simp only [Introduced, not_exists, not_and, not_not, List.subset_def]

/-- The first name that is drawn is a digit, if there are digits at all. -/
theorem Needed.introduces_digit (needed : r.Needed f)
    (legal : ∀ n ∈ f.names, Datalog.VariableName n) (digits : f.UsesDigit) :
    ∃ d, d.isDigit = true ∧ r.Introduced f (String.singleton d) := by
  have news := (names_rewrite_subset_iff r f).not_left.2 needed
  exact (introduces_rewrite r f).exists_digit legal digits news

/-- Rewriting a formula whose names are those of variables with its own alphabet introduces words
of letters and digits, and only if it is needed. All of them are names of variables again exactly if
nothing is introduced or no name has a digit. Otherwise one of them is written like an integer. -/
theorem introduced_legal_iff (r : NameDrawing) (f : Formula)
    (legal : ∀ n ∈ f.names, Datalog.VariableName n) :
    (∀ n, r.Introduced f n → n ≠ "" ∧ ∀ c ∈ n.toList, c.isAlphanum = true) ∧
    ((∃ n, r.Introduced f n) ↔ r.Needed f) ∧
    ((∀ n, r.Introduced f n → Datalog.VariableName n ∧ n ≠ Variable.blankName) ↔
      ¬ (r.Needed f ∧ f.UsesDigit)) ∧
    (r.Needed f → f.UsesDigit →
      ∃ n, r.Introduced f n ∧ Datalog.Spells n.toList (.integer n)) := by
  have introduces := introduces_rewrite r f
  refine ⟨fun n new => ?_, exists_introduced_iff, ?_, fun needed digits => ?_⟩
  · exact ⟨introduces.nonempty new.1 new.2, introduces.alphanum legal new.1 new.2⟩
  · constructor
    · rintro named ⟨needed, digits⟩
      rcases needed.introduces_digit legal digits with ⟨d, digit, new⟩
      exact Datalog.not_variableName_digit digit (named _ new).1
    · intro rare n new
      -- something is introduced, so what is ruled out are the digits
      have needed : r.Needed f := exists_introduced_iff.1 ⟨n, new⟩
      exact introduces.variableName legal (fun digits => rare ⟨needed, digits⟩) new.1 new.2
  · rcases needed.introduces_digit legal digits with ⟨d, digit, new⟩
    refine ⟨_, new, ?_⟩
    rw [String.toList_singleton]
    exact .integer digit fun c hc => absurd hc List.not_mem_nil

/-- `R(x, _) ∧ ∃ x A(x)`, for a variable `x` of the given name -/
def clashing (name : String) : Formula :=
  let x : Variable := { name }
  .junction .and [
    .predicate ⟨"R", [.var x, .var { name := Variable.blankName }], .undefined⟩,
    .quant .exist (.ofList [x]) (.predicate ⟨"A", [.var x], .undefined⟩)]

theorem lettered_introduced_legal :
    (∀ n ∈ (clashing "x").names, Datalog.VariableName n) ∧ ∀ r : NameDrawing,
      (∃ n, r.Introduced (clashing "x") n) ∧
      ∀ n, r.Introduced (clashing "x") n → Datalog.VariableName n ∧ n ≠ Variable.blankName := by
  have legal : ∀ n ∈ (clashing "x").names, Datalog.VariableName n := by
    simp only [← Datalog.isVariableName_iff]
    decide
  have needed : ∀ r : NameDrawing, r.Needed (clashing "x") := by
    intro r
    cases r <;> decide
  have undigited : ¬ (clashing "x").UsesDigit := by decide +kernel
  refine ⟨legal, fun r => ?_⟩
  have all := introduced_legal_iff r (clashing "x") legal
  exact ⟨all.2.1.2 (needed r), all.2.2.1.2 fun both => undigited both.2⟩

/-- All names of `R(x1, _) ∧ ∃ x1 A(x1)` are those of variables, and all rewritings introduce a name
that is not. -/
theorem numbered_introduced_illegal :
    (∀ n ∈ (clashing "x1").names, Datalog.VariableName n) ∧ ∀ r : NameDrawing,
      ∃ n, r.Introduced (clashing "x1") n ∧ ¬ Datalog.VariableName n := by
  have legal : ∀ n ∈ (clashing "x1").names, Datalog.VariableName n := by
    simp only [← Datalog.isVariableName_iff]
    decide
  have needed : ∀ r : NameDrawing, r.Needed (clashing "x1") := by
    intro r
    cases r <;> decide
  refine ⟨legal, fun r => ?_⟩
  rcases (needed r).introduces_digit legal (by decide +kernel) with ⟨d, digit, new⟩
  exact ⟨_, new, Datalog.not_variableName_digit digit⟩

end NameDrawing
end QueryCalculus
