import QueryCalculus.Formula.Explicit
import QueryCalculus.Proofs.Formula.Binding

/-!
# Blanks that get names

- `BlanksNamed` : lists of terms that differ in their blanks, which have got names one after the
  other
- `blanksNamed_nameBlanks` : this is what happens to the terms of a formula
- `binders_nameBlanks` : its quantifiers stay
- `BlanksNamed.origin`, `BlanksNamed.first` : where the names of the result come from
-/

namespace QueryCalculus

variable {alphabet : Alphabet} {s t u : List String} {ts us vs ws : List Term}

/-- The second list of terms is the first one with its blanks named. The names are drawn from left
to right, starting with the names `s` in use and ending with `t`. -/
inductive BlanksNamed (alphabet : Alphabet) :
    List String → List Term → List Term → List String → Prop
  | nil (s : List String) : BlanksNamed alphabet s [] [] s
  | keep {s t : List String} {term : Term} {ts us : List Term} :
      (∀ x, term = .var x → x.isBlank = false) → BlanksNamed alphabet s ts us t →
        BlanksNamed alphabet s (term :: ts) (term :: us) t
  | name {s t : List String} {x : Variable} {ts us : List Term} : x.isBlank = true →
      BlanksNamed alphabet (alphabet.fresh s :: s) ts us t →
        BlanksNamed alphabet s (.var x :: ts) (.var (x.renamed (alphabet.fresh s)) :: us) t

namespace BlanksNamed

theorem append (left : BlanksNamed alphabet s ts us t) (right : BlanksNamed alphabet t vs ws u) :
    BlanksNamed alphabet s (ts ++ vs) (us ++ ws) u := by
  induction left with
  | nil s => exact right
  | keep visible _ ih => exact .keep visible (ih right)
  | name blank _ ih => exact .name blank (ih right)

/-- A variable of the result was there before, or its name was drawn. -/
theorem origin (named : BlanksNamed alphabet s ts us t) {x : Variable} (hx : .var x ∈ us) :
    .var x ∈ ts ∨ ∃ reserved, x.name = alphabet.fresh reserved := by
  induction named with
  | nil s => exact absurd hx List.not_mem_nil
  | keep _ _ ih =>
    rcases List.mem_cons.1 hx with rfl | hx
    · exact .inl List.mem_cons_self
    · exact (ih hx).imp_left (List.mem_cons_of_mem _)
  | @name s _ _ _ _ _ _ ih =>
    rcases List.mem_cons.1 hx with same | hx
    · cases same
      exact .inr ⟨s, rfl⟩
    · exact (ih hx).imp_left (List.mem_cons_of_mem _)

/-- The first blank gets the first name that is not in use. -/
theorem first (named : BlanksNamed alphabet s ts us t) :
    ((∀ x, .var x ∈ ts → x.isBlank = false) ∧ us = ts) ∨
      ((∃ x, .var x ∈ ts ∧ x.isBlank = true) ∧ ∃ x, .var x ∈ us ∧ x.name = alphabet.fresh s) := by
  induction named with
  | nil s => exact .inl ⟨fun x hx => absurd hx List.not_mem_nil, rfl⟩
  | keep visible _ ih =>
    rcases ih with ⟨others, same⟩ | ⟨⟨x, hx, blank⟩, y, hy, drawn⟩
    · refine .inl ⟨fun x hx => ?_, congrArg _ same⟩
      rcases List.mem_cons.1 hx with head | hx
      · exact visible x head.symm
      · exact others x hx
    · exact .inr ⟨⟨x, List.mem_cons_of_mem _ hx, blank⟩, y, List.mem_cons_of_mem _ hy, drawn⟩
  | @name _ _ x _ _ blank _ _ =>
    exact .inr ⟨⟨x, List.mem_cons_self, blank⟩, _, List.mem_cons_self, rfl⟩

end BlanksNamed

/-! ## Terms and atoms -/

theorem blanksNamed_explicit (alphabet : Alphabet) (s : List String) (term : Term) :
    BlanksNamed alphabet s [term] [(term.explicit alphabet s).1] (term.explicit alphabet s).2 := by
  cases term with
  | var x =>
    cases blank : x.isBlank with
    | true =>
      have drawn : (Term.var x).explicit alphabet s =
          (.var (x.renamed (alphabet.fresh s)), alphabet.fresh s :: s) := by
        rw [Term.explicit, blank]
        rfl
      rw [drawn]
      exact .name blank (.nil _)
    | false =>
      have kept : (Term.var x).explicit alphabet s = (.var x, s) := by
        rw [Term.explicit, blank]
        rfl
      rw [kept]
      refine .keep (fun y same => ?_) (.nil s)
      cases same
      exact blank
  | const c => exact .keep (fun y same => Term.noConfusion same) (.nil s)

theorem blanksNamed_mapM (alphabet : Alphabet) (s : List String) (ts : List Term) :
    BlanksNamed alphabet s ts (ts.mapM (Term.explicit alphabet) s).1
      (ts.mapM (Term.explicit alphabet) s).2 := by
  induction ts generalizing s with
  | nil => exact .nil s
  | cons term ts ih =>
    rw [List.mapM_cons]
    exact (blanksNamed_explicit alphabet s term).append (ih _)

theorem Atom.blanksNamed_explicit (alphabet : Alphabet) (s : List String) (a : Atom) :
    BlanksNamed alphabet s a.terms (a.explicit alphabet s).1.terms (a.explicit alphabet s).2 := by
  cases a with
  | truth b => exact .nil s
  | predicate a => exact blanksNamed_mapM alphabet s a.terms
  | comparison c =>
    have left := QueryCalculus.blanksNamed_explicit alphabet s c.left
    exact left.append (QueryCalculus.blanksNamed_explicit alphabet _ c.right)

/-! ## Formulas -/

namespace Formula

theorem terms_atom (a : Atom) : (atom a).terms = a.terms :=
  List.flatMap_singleton _ a

theorem terms_junction (c : Connective) (parts : List Formula) :
    (junction c parts).terms = parts.flatMap terms := by
  rw [terms, atoms_junction, List.flatMap_assoc]
  rfl

/-- The parts of a junction are visited from left to right. -/
theorem blanksNamed_nameBlanksAll {fs : List Formula}
    (each : ∀ f ∈ fs, ∀ s,
      BlanksNamed alphabet s f.terms (f.nameBlanks alphabet s).1.terms (f.nameBlanks alphabet s).2)
    (s : List String) :
    BlanksNamed alphabet s (fs.flatMap terms) ((nameBlanksAll alphabet fs s).1.flatMap terms)
      (nameBlanksAll alphabet fs s).2 := by
  induction fs generalizing s with
  | nil => exact .nil s
  | cons f fs ih =>
    have first := each f List.mem_cons_self s
    -- the names that the first part has drawn are in use in the others
    have rest := ih (fun g hg => each g (List.mem_cons_of_mem f hg)) (f.nameBlanks alphabet s).2
    rw [List.flatMap_cons]
    exact first.append rest

theorem blanksNamed_nameBlanks (alphabet : Alphabet) (f : Formula) (s : List String) :
    BlanksNamed alphabet s f.terms (f.nameBlanks alphabet s).1.terms
      (f.nameBlanks alphabet s).2 := by
  induction f generalizing s with
  | atom a =>
    have named := a.blanksNamed_explicit alphabet s
    rw [← terms_atom, ← terms_atom] at named
    exact named
  | junction c parts ih =>
    have named := blanksNamed_nameBlanksAll ih s
    rw [← terms_junction c, ← terms_junction c] at named
    exact named
  | neg body ih => exact ih s
  | quant q vars body ih => exact ih s

theorem binders_nameBlanks (alphabet : Alphabet) (f : Formula) (s : List String) :
    (f.nameBlanks alphabet s).1.binders = f.binders := by
  induction f generalizing s with
  | atom a => rfl
  | junction c parts ih =>
    induction parts generalizing s with
    | nil => rfl
    | cons f fs rest =>
      have first := ih f List.mem_cons_self s
      have others := rest (fun g hg => ih g (List.mem_cons_of_mem f hg)) (f.nameBlanks alphabet s).2
      exact congrArg₂ (· ++ ·) first others
  | neg body ih => exact ih s
  | quant q vars body ih => exact congrArg (vars.idents ++ ·) (ih s)

end Formula
end QueryCalculus
