import QueryCalculus.Proofs.Formula.Equivalence
import QueryCalculus.Term.Substitution

/-!
# Substitutions

- `Substitution.find?_eq_none_iff`, `Substitution.mem_of_find?` : the pairs of a substitution
- `Substitution.domain` : the variables that a substitution replaces
- `Substitution.key_apply_congr` : equal terms are replaced by equal terms
- `Substitution.valuation` : the values of the terms that replace the variables
- `Substitution.value_apply`, `Substitution.holds_mapTerms_apply_iff` : truth after a substitution
  is truth under these values
- `Substitution.Named`, `Substitution.holdsApart_mapTerms_apply_iff` : the same for independent
  blanks, if no blank is replaced or brought in
-/

namespace QueryCalculus

universe u

variable {D : Type u} {M : Interpretation D} {v : Valuation D}

theorem Variable.exists_toIdent (z : Ident) : ∃ x : Variable, x.toIdent = z :=
  ⟨{ z with type := .undefined }, rfl⟩

theorem Term.var?_eq_some_iff {t : Term} {x : Variable} : t.var? = some x ↔ t = .var x := by
  cases t with
  | var y => simp [Term.var?]
  | const c => simp [Term.var?]

theorem Atom.same_mapTerms {a : Atom} {f g : Term → Term}
    (keys : ∀ t ∈ a.terms, (f t).key = (g t).key) :
    (a.mapTerms f).same (a.mapTerms g) = true := by
  cases a with
  | truth b => exact beq_self_eq_true b
  | predicate a =>
    refine Formula.same_predicate_iff.2 ⟨rfl, ?_, rfl⟩
    rw [List.map_map, List.map_map]
    exact List.map_congr_left keys
  | comparison c =>
    have left := keys c.left (by simp [Atom.terms])
    have right := keys c.right (by simp [Atom.terms])
    exact Formula.same_comparison_iff.2 ⟨rfl, .inl ⟨left, right⟩⟩

namespace Substitution

variable {σ : Substitution} {x y : Variable} {s t : Term}

/-! ## Pairs -/

theorem find?_congr (same : x.toIdent = y.toIdent) : σ.find? x = σ.find? y :=
  congrArg (Option.map Prod.snd) (find?_entry_congr same)

theorem find?_eq_none_iff : σ.find? x = none ↔ ∀ entry ∈ σ, entry.1.toIdent ≠ x.toIdent :=
  find?_entry_eq_none_iff

theorem mem_of_find? (h : σ.find? x = some t) : ∃ y, (y, t) ∈ σ ∧ y.toIdent = x.toIdent :=
  mem_of_find?_entry h

theorem apply_var_of_some (h : σ.find? x = some t) : σ.apply (.var x) = t := by
  rw [apply, h, Option.getD_some]

theorem apply_var_of_none (h : σ.find? x = none) : σ.apply (.var x) = .var x := by
  rw [apply, h, Option.getD_none]

theorem apply_nil : apply [] = id := by
  funext t
  cases t <;> rfl

/-- The first pair of a variable decides. -/
theorem find?_cons_self (same : x.toIdent = y.toIdent) : find? ((x, t) :: σ) y = some t := by
  have found : (x == y) = true := Variable.beq_iff.2 same
  simp [find?, found]

theorem find?_cons_of_ne (different : x.toIdent ≠ y.toIdent) :
    find? ((x, t) :: σ) y = σ.find? y := by
  have missed : (x == y) = false :=
    Bool.eq_false_iff.2 fun found => different (Variable.beq_iff.1 found)
  simp [find?, missed]

theorem find?_append (σ τ : Substitution) (x : Variable) :
    find? (σ ++ τ) x = (σ.find? x).or (τ.find? x) := by
  simp only [find?, List.find?_append, Option.map_or]

/-- The variables that are replaced. -/
def domain (σ : Substitution) : List Ident :=
  σ.map (·.1.toIdent)

theorem mem_domain {z : Ident} : z ∈ σ.domain ↔ ∃ p ∈ σ, p.1.toIdent = z :=
  List.mem_map

theorem domain_append (σ τ : Substitution) : domain (σ ++ τ) = σ.domain ++ τ.domain :=
  List.map_append

theorem mem_domain_iff : x.toIdent ∈ σ.domain ↔ σ.find? x ≠ none := by
  rw [ne_eq, find?_eq_none_iff, mem_domain]
  simp only [ne_eq, not_forall, not_not, exists_prop]

theorem find?_of_mem (nodup : σ.domain.Nodup) (h : (x, t) ∈ σ) : σ.find? x = some t := by
  induction σ with
  | nil => cases h
  | cons p σ ih =>
    have split := List.nodup_cons.1 nodup
    rcases List.mem_cons.1 h with rfl | h
    · exact find?_cons_self rfl
    · have different : p.1.toIdent ≠ x.toIdent := by
        intro same
        exact split.1 (mem_domain.2 ⟨_, h, same.symm⟩)
      exact (find?_cons_of_ne different).trans (ih split.2 h)

/-- The annotations of a term do not decide what replaces it. -/
theorem key_apply_congr (same : s.key = t.key) : (σ.apply s).key = (σ.apply t).key := by
  cases s with
  | var x =>
    cases t with
    | var y =>
      have idents : x.toIdent = y.toIdent := Term.Key.var.inj same
      cases found : σ.find? x with
      | some r => rw [apply_var_of_some found, apply_var_of_some (find?_congr idents ▸ found)]
      | none =>
        rw [apply_var_of_none found, apply_var_of_none (find?_congr idents ▸ found)]
        exact same
    | const c => cases c <;> cases same
  | const c =>
    cases t with
    | var y => cases c <;> cases same
    | const d => exact same

/-! ## Values -/

/-- The values of the terms that take the places of the variables. -/
def valuation (σ : Substitution) (M : Interpretation D) (v : Valuation D) : Valuation D :=
  fun x => (σ.apply (.var { x with type := .undefined })).value M v

theorem value_apply (t : Term) : (σ.apply t).value M v = t.value M (σ.valuation M v) := by
  cases t with
  | var x =>
    have same : (σ.apply (.var x)).key =
        (σ.apply (.var { x.toIdent with type := .undefined })).key :=
      key_apply_congr rfl
    exact congrArg (Term.Key.value M v) same
  | const c => cases c <;> rfl

theorem holds_mapTerms_apply_iff {a : Atom} :
    (a.mapTerms σ.apply).Holds M v ↔ a.Holds M (σ.valuation M v) :=
  Formula.holds_mapTerms_iff fun t _ => value_apply t

theorem valuation_of_none (h : σ.find? x = none) : σ.valuation M v x.toIdent = v x.toIdent := by
  have absent : σ.find? { x.toIdent with type := .undefined } = none := find?_congr rfl ▸ h
  rw [valuation, apply_var_of_none absent]
  rfl

theorem valuation_of_notMem {z : Ident} (outside : z ∉ σ.domain) :
    σ.valuation M v z = v z := by
  rcases Variable.exists_toIdent z with ⟨x, rfl⟩
  refine valuation_of_none ?_
  by_contra found
  exact outside (mem_domain_iff.2 found)

theorem valuation_of_some (h : σ.find? x = some t) :
    σ.valuation M v x.toIdent = t.value M v := by
  have found : σ.find? { x.toIdent with type := .undefined } = some t := find?_congr rfl ▸ h
  rw [valuation, apply_var_of_some found]

/-! ## Independent blanks -/

/-- No blank is replaced, and none is brought in. -/
structure Named (σ : Substitution) : Prop where
  replaced : ∀ x t, σ.find? x = some t → x.isBlank = false
  brought : ∀ x y, σ.find? x = some (.var y) → y.isBlank = false

theorem Named.of_mem
    (each : ∀ p ∈ σ, p.1.isBlank = false ∧ ∀ y ∈ p.2.var?, y.isBlank = false) : σ.Named where
  replaced x t found := by
    rcases mem_of_find? found with ⟨y, listed, same⟩
    have names : y.name = x.name := congrArg Ident.name same
    simpa [Variable.isBlank, names] using (each _ listed).1
  brought x z found := by
    rcases mem_of_find? found with ⟨y, listed, -⟩
    exact (each _ listed).2 z rfl

theorem denotes_apply_iff (named : σ.Named) (t : Term) {d : D} :
    (σ.apply t).Denotes M v d ↔ t.Denotes M (σ.valuation M v) d := by
  cases t with
  | var x =>
    cases found : σ.find? x with
    | none =>
      -- the variable stays, be it a blank or not
      rw [apply_var_of_none found]
      apply Formula.denotes_congr
      intro y same _
      cases same
      exact (valuation_of_none found).symm
    | some r =>
      have old : ∀ y, Term.var x = .var y → y.isBlank = false := by
        intro y same
        cases same
        exact named.replaced x r found
      have new : ∀ y, r = .var y → y.isBlank = false := by
        intro y same
        exact named.brought x y (same ▸ found)
      have values : r.value M v = (Term.var x).value M (σ.valuation M v) :=
        (valuation_of_some found).symm
      rw [apply_var_of_some found, Formula.denotes_iff old, Formula.denotes_iff new, values]
  | const c =>
    have plain : ∀ y, Term.const c = .var y → y.isBlank = false := nofun
    rw [apply, Formula.denotes_iff plain, Formula.denotes_iff plain]
    exact iff_of_eq (congrArg (· = d) (value_apply (.const c)))

theorem holdsApart_mapTerms_apply_iff (named : σ.Named) {a : Atom} :
    (a.mapTerms σ.apply).HoldsApart M v ↔ a.HoldsApart M (σ.valuation M v) :=
  Formula.holdsApart_mapTerms_iff fun t _ _ => denotes_apply_iff named t

end Substitution
end QueryCalculus
