import QueryCalculus.Proofs.Formula.NamedBlanks
import QueryCalculus.Proofs.Formula.ReplacementInTurn
import QueryCalculus.Proofs.FreshNames

/-!
# Formulas with explicit blanks

- `BlanksFilled` : terms whose blanks have got the listed names, from left to right
- `BlanksNamed.filled` : drawn names are different from each other and from those in use
- `Formula.shape` : a formula without regard to the terms of its atoms
- `Formula.mapTerms_eq_of_shape` : the shape and the terms determine a formula
- `Substitution.restoring` : puts the blanks back in the place of their names
- `Formula.explicit_fills_blanks` : all of this for a formula and its blanks
-/

namespace QueryCalculus

variable {alphabet : Alphabet} {s t : List String} {names : List String} {ts us : List Term}

/-! ## Blanks in lists of terms -/

/-- The second list is the first one with its blanks renamed, the first of them to the first name
and so on. Each of them keeps its type and its scope. -/
inductive BlanksFilled : List String → List Term → List Term → Prop
  | nil : BlanksFilled [] [] []
  | keep {names : List String} {term : Term} {ts us : List Term} :
      (∀ x, term = .var x → x.isBlank = false) → BlanksFilled names ts us →
        BlanksFilled names (term :: ts) (term :: us)
  | fill {name : String} {names : List String} {x : Variable} {ts us : List Term} :
      x.isBlank = true → BlanksFilled names ts us →
        BlanksFilled (name :: names) (.var x :: ts) (.var (x.renamed name) :: us)

/-- The blanks among the terms, in order. -/
def blanksOf (ts : List Term) : List Variable :=
  (variablesOf ts).filter (·.isBlank)

theorem blanksOf_cons_of_blank {x : Variable} (blank : x.isBlank = true) (ts : List Term) :
    blanksOf (.var x :: ts) = x :: blanksOf ts :=
  List.filter_cons_of_pos blank

theorem blanksOf_cons_of_visible {term : Term} (visible : ∀ x, term = .var x → x.isBlank = false)
    (ts : List Term) : blanksOf (term :: ts) = blanksOf ts := by
  cases term with
  | var x => exact List.filter_cons_of_neg (by simp [visible x rfl])
  | const c => rfl

/-- Names that are drawn in turn avoid those in use at the start and each other. -/
theorem BlanksNamed.filled (named : BlanksNamed alphabet s ts us t) :
    ∃ names, BlanksFilled names ts us ∧
      names.Pairwise (fun m n => Text.lower m ≠ Text.lower n) ∧
      ∀ n ∈ names, Sql.isKeyword n = false ∧ ∀ m ∈ s, Text.lower m ≠ Text.lower n := by
  induction named with
  | nil s => exact ⟨[], .nil, List.Pairwise.nil, List.forall_mem_nil _⟩
  | keep visible _ ih =>
    rcases ih with ⟨names, filled, different, free⟩
    exact ⟨names, .keep visible filled, different, free⟩
  | @name s _ x _ _ blank _ ih =>
    rcases ih with ⟨names, filled, different, free⟩
    have drawn := Alphabet.isTaken_lower_eq_false_iff.1 (alphabet.isTaken_fresh s)
    refine ⟨alphabet.fresh s :: names, .fill blank filled, ?_, ?_⟩
    · exact List.pairwise_cons.2 ⟨fun n hn => (free n hn).2 _ List.mem_cons_self, different⟩
    · refine List.forall_mem_cons.2 ⟨drawn.symm, fun n hn => ⟨(free n hn).1, fun m hm => ?_⟩⟩
      exact (free n hn).2 m (List.mem_cons_of_mem _ hm)

namespace BlanksFilled

theorem length_blanksOf (filled : BlanksFilled names ts us) :
    (blanksOf ts).length = names.length := by
  induction filled with
  | nil => rfl
  | keep visible _ ih => rw [blanksOf_cons_of_visible visible, ih]
  | fill blank _ ih => simp [blanksOf_cons_of_blank blank, ih]

theorem length_eq (filled : BlanksFilled names ts us) : us.length = ts.length := by
  induction filled with
  | nil => rfl
  | keep _ _ ih => simp [ih]
  | fill _ _ ih => simp [ih]

/-- If there is a name then there is a blank, whose name must not be used. -/
theorem visible (filled : BlanksFilled names ts us)
    (apart : ∀ n ∈ names, ∀ x, .var x ∈ ts → x.name ≠ n) {y : Variable} (hy : .var y ∈ us) :
    y.isBlank = false := by
  induction filled with
  | nil => cases hy
  | @keep _ term ts _ visible _ ih =>
    rcases List.mem_cons.1 hy with here | hy
    · exact visible y here.symm
    · exact ih (fun n hn x hx => apart n hn x (List.mem_cons_of_mem term hx)) hy
  | @fill name names x ts _ blank _ ih =>
    have rest : ∀ n ∈ names, ∀ z, .var z ∈ ts → z.name ≠ n := fun n hn z hz =>
      apart n (List.mem_cons_of_mem name hn) z (List.mem_cons_of_mem _ hz)
    rcases List.mem_cons.1 hy with here | hy
    · have other : x.name ≠ name := apart name List.mem_cons_self x List.mem_cons_self
      have named : x.name = Variable.blankName := by simpa [Variable.isBlank] using blank
      cases here
      simpa [Variable.isBlank, Variable.renamed, ← named] using other.symm
    · exact ih rest hy

end BlanksFilled

/-! ## Putting blanks back -/

namespace Substitution

/-- Replaces each name by the blank that it was given to. -/
def restoring (blanks : List Variable) (names : List String) : Substitution :=
  List.zipWith (fun x name => (x.renamed name, .var x)) blanks names

theorem map_name_domain_restoring {blanks : List Variable}
    (sizes : blanks.length = names.length) :
    (restoring blanks names).domain.map Ident.name = names := by
  induction blanks generalizing names with
  | nil => cases names <;> simp_all [restoring, domain]
  | cons x blanks ih =>
    cases names with
    | nil => cases sizes
    | cons name names =>
      have rest := ih (Nat.succ.inj sizes)
      simpa [restoring, domain, Variable.renamed] using rest

/-- A substitution that finds the blanks by their names, and nothing else, restores the terms. -/
theorem map_apply_of_filled {σ : Substitution} (filled : BlanksFilled names ts us)
    (others : ∀ y, .var y ∈ ts → y.isBlank = false → σ.find? y = none)
    (found : ∀ p ∈ restoring (blanksOf ts) names, σ.find? p.1 = some p.2) :
    us.map σ.apply = ts := by
  induction filled with
  | nil => rfl
  | @keep names term ts us visible _ ih =>
    have kept : σ.apply term = term := by
      cases term with
      | var y => exact apply_var_of_none (others y List.mem_cons_self (visible y rfl))
      | const c => rfl
    -- a term that stays gives nothing to restore
    rw [blanksOf_cons_of_visible visible] at found
    have rest := ih (fun y hy => others y (List.mem_cons_of_mem term hy)) found
    rw [List.map_cons, kept, rest]
  | @fill name names x ts us blank _ ih =>
    rw [blanksOf_cons_of_blank blank] at found
    have first := found (x.renamed name, .var x) List.mem_cons_self
    have rest := ih (fun y hy => others y (List.mem_cons_of_mem _ hy))
      fun p hp => found p (List.mem_cons_of_mem _ hp)
    rw [List.map_cons, apply_var_of_some first, rest]

theorem map_apply_restoring (filled : BlanksFilled names ts us) (distinct : names.Nodup)
    (apart : ∀ n ∈ names, ∀ x, .var x ∈ ts → x.name ≠ n) :
    us.map (restoring (blanksOf ts) names).apply = ts := by
  have domain := map_name_domain_restoring filled.length_blanksOf
  have once : (restoring (blanksOf ts) names).domain.Nodup :=
    List.Nodup.of_map Ident.name (domain.symm ▸ distinct)
  refine map_apply_of_filled filled (fun y hy _ => ?_) fun p hp => find?_of_mem once hp
  refine find?_eq_none_iff.2 fun p hp same => ?_
  have listed : p.1.name ∈ names :=
    domain ▸ List.mem_map_of_mem (mem_domain.2 ⟨p, hp, rfl⟩)
  exact apart _ listed y hy (congrArg Ident.name same).symm

end Substitution

/-! ## Shapes -/

theorem Atom.mapTerms_eq_of_shape {a b : Atom} {k : Term} {h : Term → Term}
    (shape : b.mapTerms (fun _ => k) = a.mapTerms fun _ => k) (terms : b.terms.map h = a.terms) :
    b.mapTerms h = a := by
  cases a with
  | truth v => cases b <;> simp_all [Atom.mapTerms]
  | predicate a => cases b <;> simp_all [Atom.mapTerms, Atom.terms]
  | comparison c => cases b <;> simp_all [Atom.mapTerms, Atom.terms]

namespace Formula

/-- The formula with the same term everywhere, so that only its structure is left. -/
def shape (f : Formula) : Formula :=
  f.mapTerms fun _ => .const (.object "")

theorem mapTerms_junction (h : Term → Term) (c : Connective) (parts : List Formula) :
    (junction c parts).mapTerms h = .junction c (parts.map (mapTerms h)) :=
  congrArg (junction c) (mapTermsAll_eq_map h parts)

theorem terms_mapTerms (h : Term → Term) (f : Formula) : (f.mapTerms h).terms = f.terms.map h := by
  induction f with
  | atom a => rw [mapTerms, terms_atom, terms_atom, a.terms_mapTerms h]
  | junction c parts ih =>
    rw [mapTerms_junction, terms_junction, terms_junction, List.flatMap_map, List.map_flatMap]
    exact List.flatMap_congr ih
  | neg body ih => exact ih
  | quant q vars body ih => exact ih

theorem length_terms_of_shape {f g : Formula} (shape : g.shape = f.shape) :
    g.terms.length = f.terms.length := by
  have same := congrArg (List.length ∘ terms) shape
  simpa [Formula.shape, terms_mapTerms] using same

/-- The terms of a list of formulas are dealt out according to the shapes. -/
theorem map_mapTerms_eq_of_shape {h : Term → Term} {fs gs : List Formula}
    (each : ∀ f ∈ fs, ∀ g : Formula, g.shape = f.shape → g.terms.map h = f.terms → g.mapTerms h = f)
    (shapes : gs.map shape = fs.map shape)
    (terms : (gs.flatMap Formula.terms).map h = fs.flatMap Formula.terms) :
    gs.map (mapTerms h) = fs := by
  induction fs generalizing gs with
  | nil => cases gs <;> simp_all
  | cons f fs ih =>
    cases gs with
    | nil => cases shapes
    | cons g gs =>
      have heads : g.shape = f.shape := (List.cons.inj shapes).1
      have tails : gs.map shape = fs.map shape := (List.cons.inj shapes).2
      -- the shapes tell where the terms of the first formula end
      have sizes : (g.terms.map h).length = f.terms.length := by
        rw [List.length_map, length_terms_of_shape heads]
      rw [List.flatMap_cons, List.flatMap_cons, List.map_append] at terms
      have split := List.append_inj terms sizes
      rw [List.map_cons, each f List.mem_cons_self g heads split.1,
        ih (fun f' hf => each f' (List.mem_cons_of_mem f hf)) tails split.2]

/-- Two formulas of one shape are equal if their terms are. -/
theorem mapTerms_eq_of_shape {h : Term → Term} (f g : Formula) (shape : g.shape = f.shape)
    (terms : g.terms.map h = f.terms) : g.mapTerms h = f := by
  induction f generalizing g with
  | atom a =>
    cases g with
    | atom b =>
      rw [terms_atom, terms_atom] at terms
      exact congrArg Formula.atom (Atom.mapTerms_eq_of_shape (Formula.atom.inj shape) terms)
    | junction _ _ => cases shape
    | neg _ => cases shape
    | quant _ _ _ => cases shape
  | junction c parts ih =>
    cases g with
    | atom _ => cases shape
    | junction d others =>
      rw [Formula.shape, Formula.shape, mapTerms_junction, mapTerms_junction] at shape
      rw [terms_junction, terms_junction] at terms
      rcases Formula.junction.inj shape with ⟨rfl, shapes⟩
      rw [mapTerms_junction, map_mapTerms_eq_of_shape ih shapes terms]
    | neg _ => cases shape
    | quant _ _ _ => cases shape
  | neg body ih =>
    cases g with
    | atom _ => cases shape
    | junction _ _ => cases shape
    | neg other => exact congrArg Formula.neg (ih other (Formula.neg.inj shape) terms)
    | quant _ _ _ => cases shape
  | quant q vars body ih =>
    cases g with
    | atom _ => cases shape
    | junction _ _ => cases shape
    | neg _ => cases shape
    | quant r xs other =>
      rcases Formula.quant.inj shape with ⟨rfl, rfl, bodies⟩
      exact congrArg (Formula.quant r xs) (ih other bodies terms)

/-! ## Named blanks -/

theorem shape_explicit_atom (alphabet : Alphabet) (s : List String) (a : Atom) (k : Term) :
    (a.explicit alphabet s).1.mapTerms (fun _ => k) = a.mapTerms fun _ => k := by
  cases a with
  | truth b => rfl
  | predicate a =>
    rcases (blanksNamed_mapM alphabet s a.terms).filled with ⟨names, filled, -⟩
    have terms : (a.terms.mapM (Term.explicit alphabet) s).1.map (fun _ => k) =
        a.terms.map fun _ => k := by
      simp [filled.length_eq]
    exact congrArg (fun ts => Atom.predicate { a with terms := ts }) terms
  | comparison c => rfl

theorem shape_nameBlanks (alphabet : Alphabet) (f : Formula) (s : List String) :
    (f.nameBlanks alphabet s).1.shape = f.shape := by
  induction f generalizing s with
  | atom a => exact congrArg Formula.atom (shape_explicit_atom alphabet s a _)
  | junction c parts ih =>
    refine congrArg (Formula.junction c) ?_
    induction parts generalizing s with
    | nil => rfl
    | cons f fs rest =>
      have first := ih f List.mem_cons_self s
      have others := rest (fun g hg => ih g (List.mem_cons_of_mem f hg)) (f.nameBlanks alphabet s).2
      exact congrArg₂ List.cons first others
  | neg body ih => exact congrArg Formula.neg (ih s)
  | quant q vars body ih => exact congrArg (Formula.quant q vars) (ih s)

/-- A substitution of variables that no quantifier binds only changes the terms. -/
theorem replace_eq_mapTerms {σ : Substitution} {f : Formula}
    (unbound : ∀ x ∈ f.binders, x ∉ σ.domain) : f.replace σ = f.mapTerms σ.apply := by
  induction f with
  | atom a => rfl
  | junction c parts ih =>
    rw [replace_junction, mapTerms_junction]
    refine congrArg _ (List.map_congr_left fun f hf => ih f hf fun x hx => ?_)
    exact unbound x (mem_binders_junction.2 ⟨f, hf, hx⟩)
  | neg body ih => exact congrArg Formula.neg (ih unbound)
  | quant q vars body ih =>
    -- the substitution has no entry for a bound variable
    have kept : ∀ x ∈ vars.toList, σ.applyBound? x = some x := by
      intro x hx
      have absent := unbound x.toIdent (mem_binders_quant.2 (.inl (VarSet.toIdent_mem hx)))
      have missed : σ.find? x = none := not_not.1 (mt Substitution.mem_domain_iff.2 absent)
      simp [Substitution.applyBound?, missed]
    have same : vars.replace σ = vars := by
      rw [VarSet.replace, List.filterMap_congr kept, List.filterMap_some, VarSet.ofList_toList]
    have inner := ih fun x hx => unbound x (mem_binders_quant.2 (.inr hx))
    rw [replace, same, inner]
    rfl

/-- Every occurrence of the blank gets a name, and nothing else changes: there are names `n₁`, `n₂`
and so on for the blanks, depth first, with which the blanks keep their types and scopes. The names
differ from each other and from all names of the formula, also ignoring case, and none of them is a
word of SQL. So no blank is left, and putting the blank in the place of the names restores the
formula. -/
theorem explicit_fills_blanks (alphabet : Alphabet) (f : Formula) :
    ∃ names : List String,
      (f.explicit alphabet).shape = f.shape ∧
      BlanksFilled names f.terms (f.explicit alphabet).terms ∧
      (∀ x, .var x ∈ (f.explicit alphabet).terms → x.isBlank = false) ∧
      names.Pairwise (fun m n => Text.lower m ≠ Text.lower n) ∧
      (∀ n ∈ names, Sql.isKeyword n = false ∧
        ∀ x : Ident, x ∈ f.vars ∨ x ∈ f.bound → Text.lower x.name ≠ Text.lower n) ∧
      (f.explicit alphabet).replace (.restoring (blanksOf f.terms) names) = f := by
  rcases (blanksNamed_nameBlanks alphabet f f.names).filled with ⟨names, filled, different, free⟩
  have shape := shape_nameBlanks alphabet f f.names
  have apart : ∀ n ∈ names, ∀ x : Ident, x ∈ f.vars ∨ x ∈ f.bound →
      Text.lower x.name ≠ Text.lower n := by
    intro n hn x hx
    exact (free n hn).2 x.name (mem_names.2 ⟨x, hx.imp_right mem_bound.1, rfl⟩)
  have occurring : ∀ n ∈ names, ∀ x, .var x ∈ f.terms → x.name ≠ n := by
    intro n hn x hx same
    have listed : x.toIdent ∈ f.vars := VarSet.mem_ofList.2 ⟨x, mem_variablesOf.2 hx, rfl⟩
    exact apart n hn x.toIdent (.inl listed) (congrArg Text.lower same)
  have distinct : names.Nodup := different.imp fun lower same => lower (congrArg _ same)
  refine ⟨names, shape, filled, fun x hx => filled.visible occurring hx, different,
    fun n hn => ⟨(free n hn).1, apart n hn⟩, ?_⟩
  -- no quantifier is in the way of putting the blanks back
  have unbound : ∀ x ∈ (f.explicit alphabet).binders,
      x ∉ (Substitution.restoring (blanksOf f.terms) names).domain := by
    intro x hx listed
    have name := List.mem_map_of_mem (f := Ident.name) listed
    rw [Substitution.map_name_domain_restoring filled.length_blanksOf] at name
    have bound : x ∈ f.bound := mem_bound.2 (binders_nameBlanks alphabet f f.names ▸ hx)
    exact apart x.name name x (.inr bound) rfl
  rw [replace_eq_mapTerms unbound]
  exact mapTerms_eq_of_shape f _ shape (Substitution.map_apply_restoring filled distinct occurring)

end Formula
end QueryCalculus
