import Mathlib.Data.List.Perm.Subperm
import Mathlib.Data.List.Lattice
import Mathlib.Data.List.Pairwise
import QueryCalculus.Proofs.Formula.NormalForms

/-!
# Bound and unbound variables

- `binders` : every variable that a quantifier binds, once for each quantifier
- `Unbound` : a variable occurs outside of the quantifiers that bind it, and blanks do as well
- `BlankFree` : no variable of the formula is a blank
- `BoundApart` : no variable is bound twice, and none is bound at one place and unbound at another

Without blanks the unbound variables are the free ones.
-/

namespace QueryCalculus
namespace Formula

/-! ## Binders -/

mutual

/-- The variables that the quantifiers of the formula bind, outermost first. -/
def binders : Formula → List Ident
  | .atom _ => []
  | .junction _ parts => bindersAll parts
  | .neg body => body.binders
  | .quant _ vars body => vars.idents ++ body.binders

def bindersAll : List Formula → List Ident
  | [] => []
  | f :: fs => f.binders ++ bindersAll fs

end

theorem bindersAll_eq_flatMap (fs : List Formula) : bindersAll fs = fs.flatMap binders := by
  induction fs with
  | nil => rfl
  | cons f fs ih => simp [bindersAll, ih]

theorem binders_junction (c : Connective) (parts : List Formula) :
    (Formula.junction c parts).binders = parts.flatMap binders := by
  rw [binders, bindersAll_eq_flatMap]

theorem mem_binders_junction {c : Connective} {parts : List Formula} {x : Ident} :
    x ∈ (Formula.junction c parts).binders ↔ ∃ f ∈ parts, x ∈ f.binders := by
  rw [binders_junction, List.mem_flatMap]

theorem mem_binders_quant {q : Quantifier} {vars : VarSet} {body : Formula} {x : Ident} :
    x ∈ (Formula.quant q vars body).binders ↔ x ∈ vars ∨ x ∈ body.binders := by
  rw [binders, List.mem_append, VarSet.mem_idents]

theorem mem_bound {f : Formula} {x : Ident} : x ∈ f.bound ↔ x ∈ f.binders := by
  induction f with
  | atom a => exact iff_of_false (VarSet.not_mem_empty x) List.not_mem_nil
  | junction c parts ih =>
    have listed : x ∈ (Formula.junction c parts).bound ↔ ∃ y ∈ boundAll parts, y.toIdent = x :=
      VarSet.mem_ofList
    rw [listed, boundAll_eq_flatMap, mem_binders_junction]
    constructor
    · rintro ⟨y, hy, rfl⟩
      rcases List.mem_flatMap.1 hy with ⟨f, hf, hy⟩
      exact ⟨f, hf, (ih f hf).1 (VarSet.toIdent_mem hy)⟩
    · rintro ⟨f, hf, hx⟩
      rcases VarSet.mem_iff.1 ((ih f hf).2 hx) with ⟨y, hy, same⟩
      exact ⟨y, List.mem_flatMap.2 ⟨f, hf, hy⟩, same⟩
  | neg body ih => exact ih
  | quant q vars body ih => rw [bound, VarSet.mem_union, ih, mem_binders_quant, or_comm]

/-! ## Unbound variables -/

/-- The variable occurs in an atom outside of the quantifiers that bind it. -/
inductive Unbound (x : Ident) : Formula → Prop
  | atom {a : Atom} {y : Variable} : Term.var y ∈ a.terms → y.toIdent = x → Unbound x (.atom a)
  | part {c : Connective} {parts : List Formula} {f : Formula} :
    f ∈ parts → Unbound x f → Unbound x (.junction c parts)
  | neg {body : Formula} : Unbound x body → Unbound x (.neg body)
  | quant {q : Quantifier} {vars : VarSet} {body : Formula} :
    x ∉ vars → Unbound x body → Unbound x (.quant q vars body)

theorem unbound_atom {a : Atom} {x : Ident} :
    Unbound x (.atom a) ↔ ∃ y, Term.var y ∈ a.terms ∧ y.toIdent = x := by
  constructor
  · rintro (⟨hy, same⟩)
    exact ⟨_, hy, same⟩
  · rintro ⟨y, hy, same⟩
    exact .atom hy same

theorem unbound_junction {c : Connective} {parts : List Formula} {x : Ident} :
    Unbound x (.junction c parts) ↔ ∃ f ∈ parts, Unbound x f := by
  constructor
  · intro h
    cases h with
    | part hf h => exact ⟨_, hf, h⟩
  · rintro ⟨f, hf, h⟩
    exact .part hf h

theorem unbound_neg {body : Formula} {x : Ident} : Unbound x (.neg body) ↔ Unbound x body := by
  constructor
  · intro h
    cases h with
    | neg h => exact h
  · exact .neg

theorem unbound_quant {q : Quantifier} {vars : VarSet} {body : Formula} {x : Ident} :
    Unbound x (.quant q vars body) ↔ Unbound x body ∧ x ∉ vars := by
  constructor
  · intro h
    cases h with
    | quant outside h => exact ⟨h, outside⟩
  · rintro ⟨h, outside⟩
    exact .quant outside h

/-- The free variables are the unbound ones that are no blanks. -/
theorem mem_free_iff {f : Formula} {x : Ident} :
    x ∈ f.free ↔ Unbound x f ∧ x.name ≠ Variable.blankName := by
  induction f with
  | atom a =>
    rw [mem_free_atom, unbound_atom]
    constructor
    · rintro ⟨y, hy, named, rfl⟩
      exact ⟨⟨y, hy, rfl⟩, by simpa [Variable.isBlank] using named⟩
    · rintro ⟨⟨y, hy, rfl⟩, named⟩
      exact ⟨y, hy, by simpa [Variable.isBlank] using named, rfl⟩
  | junction c parts ih =>
    rw [mem_free_junction, unbound_junction]
    constructor
    · rintro ⟨f, hf, hx⟩
      exact ⟨⟨f, hf, ((ih f hf).1 hx).1⟩, ((ih f hf).1 hx).2⟩
    · rintro ⟨⟨f, hf, hx⟩, named⟩
      exact ⟨f, hf, (ih f hf).2 ⟨hx, named⟩⟩
  | neg body ih => rw [mem_free_neg, unbound_neg, ih]
  | quant q vars body ih => rw [mem_free_quant, unbound_quant, ih, and_right_comm]

/-! ## Formulas without blanks -/

/-- No variable has the name of the blank, neither in an atom nor in a quantifier. -/
def BlankFree (f : Formula) : Prop :=
  Variable.blankName ∉ f.names

instance (f : Formula) : Decidable f.BlankFree :=
  inferInstanceAs (Decidable (_ ∉ _))

theorem mem_vars {f : Formula} {x : Ident} :
    x ∈ f.vars ↔ ∃ a ∈ f.atoms, ∃ y, Term.var y ∈ a.terms ∧ y.toIdent = x := by
  rw [vars, VarSet.mem_ofList]
  simp only [mem_variablesOf, terms, List.mem_flatMap]
  constructor
  · rintro ⟨y, ⟨a, ha, hy⟩, same⟩
    exact ⟨a, ha, y, hy, same⟩
  · rintro ⟨a, ha, y, hy, same⟩
    exact ⟨y, ⟨a, ha, hy⟩, same⟩

theorem mem_names {f : Formula} {n : String} :
    n ∈ f.names ↔ ∃ x : Ident, (x ∈ f.vars ∨ x ∈ f.binders) ∧ x.name = n := by
  rw [names, Text.mem_sortedWords, List.mem_map]
  simp only [List.mem_append, ← mem_bound, VarSet.mem_iff]
  constructor
  · rintro ⟨y, hy, rfl⟩
    exact ⟨y.toIdent, hy.imp (fun h => ⟨y, h, rfl⟩) (fun h => ⟨y, h, rfl⟩), rfl⟩
  · rintro ⟨x, ⟨y, hy, rfl⟩ | ⟨y, hy, rfl⟩, rfl⟩
    · exact ⟨y, .inl hy, rfl⟩
    · exact ⟨y, .inr hy, rfl⟩

/-- An unbound variable occurs in an atom. -/
theorem Unbound.mem_vars {f : Formula} {x : Ident} (h : Unbound x f) : x ∈ f.vars := by
  rw [Formula.mem_vars]
  induction h with
  | @atom a y hy same => exact ⟨a, List.mem_singleton_self a, y, hy, same⟩
  | part hf _ ih =>
    rcases ih with ⟨a, ha, occurs⟩
    exact ⟨a, mem_atoms_junction.2 ⟨_, hf, ha⟩, occurs⟩
  | neg _ ih => exact ih
  | quant _ _ ih => exact ih

theorem Unbound.name_mem {f : Formula} {x : Ident} (h : Unbound x f) : x.name ∈ f.names :=
  mem_names.2 ⟨x, .inl h.mem_vars, rfl⟩

theorem name_mem_of_binders {f : Formula} {x : Ident} (h : x ∈ f.binders) : x.name ∈ f.names :=
  mem_names.2 ⟨x, .inr h, rfl⟩

/-- A variable of an atom is unbound or bound by one of the quantifiers around it. -/
theorem unbound_or_binder {f : Formula} {x : Ident} (h : x ∈ f.vars) :
    Unbound x f ∨ x ∈ f.binders := by
  rw [mem_vars] at h
  induction f with
  | atom a =>
    rcases h with ⟨_, ha, y, hy, same⟩
    cases List.mem_singleton.1 ha
    exact .inl (.atom hy same)
  | junction c parts ih =>
    rcases h with ⟨a, ha, occurs⟩
    rcases mem_atoms_junction.1 ha with ⟨f, hf, ha⟩
    exact (ih f hf ⟨a, ha, occurs⟩).imp (.part hf) fun hx => mem_binders_junction.2 ⟨f, hf, hx⟩
  | neg body ih => exact (ih h).imp_left .neg
  | quant q vars body ih =>
    by_cases bound : x ∈ vars
    · exact .inr (mem_binders_quant.2 (.inl bound))
    · exact (ih h).imp (.quant bound) fun hx => mem_binders_quant.2 (.inr hx)

theorem mem_names_iff {f : Formula} {n : String} :
    n ∈ f.names ↔ ∃ x : Ident, (Unbound x f ∨ x ∈ f.binders) ∧ x.name = n := by
  rw [mem_names]
  constructor
  · rintro ⟨x, hx | hx, name⟩
    · exact ⟨x, unbound_or_binder hx, name⟩
    · exact ⟨x, .inr hx, name⟩
  · rintro ⟨x, hx | hx, name⟩
    · exact ⟨x, .inl hx.mem_vars, name⟩
    · exact ⟨x, .inr hx, name⟩

/-- Fewer atoms and quantifiers have fewer names. Truth has none of its own. -/
theorem names_subset {f g : Formula} (atoms : ∀ a ∈ g.atoms, a ∈ f.atoms ∨ a = .truth true)
    (binders : g.binders ⊆ f.binders) : g.names ⊆ f.names := by
  intro n hn
  rcases mem_names.1 hn with ⟨x, hx | hx, rfl⟩
  · rcases mem_vars.1 hx with ⟨a, ha, y, hy, same⟩
    rcases atoms a ha with ha | rfl
    · exact mem_names.2 ⟨x, .inl (mem_vars.2 ⟨a, ha, y, hy, same⟩), rfl⟩
    · exact absurd hy List.not_mem_nil
  · exact mem_names.2 ⟨x, .inr (binders hx), rfl⟩

theorem names_part_subset {c : Connective} {parts : List Formula} {f : Formula} (hf : f ∈ parts) :
    f.names ⊆ (Formula.junction c parts).names :=
  names_subset (fun _ ha => .inl (mem_atoms_junction.2 ⟨f, hf, ha⟩))
    (fun _ hx => mem_binders_junction.2 ⟨f, hf, hx⟩)

theorem names_body_subset {q : Quantifier} {vars : VarSet} {body : Formula} :
    body.names ⊆ (Formula.quant q vars body).names :=
  names_subset (fun _ ha => .inl ha) (fun _ hx => mem_binders_quant.2 (.inr hx))

/-- Without blanks the unbound variables are the free ones. -/
theorem BlankFree.mem_free_iff {f : Formula} (named : f.BlankFree) {x : Ident} :
    x ∈ f.free ↔ Unbound x f := by
  rw [Formula.mem_free_iff]
  refine and_iff_left_of_imp fun h same => ?_
  exact named (same ▸ h.name_mem)

theorem BlankFree.mono {f g : Formula} (named : f.BlankFree) (names : g.names ⊆ f.names) :
    g.BlankFree :=
  fun h => named (names h)

/-! ## Distinct binders -/

/-- No variable is bound twice, and no bound variable occurs unbound. -/
structure BoundApart (f : Formula) : Prop where
  nodup : f.binders.Nodup
  disjoint : ∀ x ∈ f.binders, ¬ Unbound x f

namespace BoundApart

variable {f g : Formula} {x : Ident}

theorem mono (apart : f.BoundApart) (binders : g.binders.Subperm f.binders)
    (unbound : ∀ x, Unbound x g → Unbound x f) : g.BoundApart where
  nodup := by
    rcases binders with ⟨l, perm, sub⟩
    exact perm.nodup_iff.1 (apart.nodup.sublist sub)
  disjoint x hx h := apart.disjoint x (binders.subset hx) (unbound x h)

theorem part {c : Connective} {parts : List Formula} (apart : (junction c parts).BoundApart)
    (hf : f ∈ parts) : f.BoundApart where
  nodup := by
    have nodup := apart.nodup
    rw [binders_junction, List.nodup_flatMap] at nodup
    exact nodup.1 f hf
  disjoint x hx h :=
    apart.disjoint x (mem_binders_junction.2 ⟨f, hf, hx⟩) (unbound_junction.2 ⟨f, hf, h⟩)

/-- Only one part of a junction binds a variable. -/
theorem eq_of_mem {c : Connective} {parts : List Formula} (apart : (junction c parts).BoundApart)
    (hf : f ∈ parts) (hg : g ∈ parts) (hxf : x ∈ f.binders) (hxg : x ∈ g.binders) : f = g := by
  have nodup := apart.nodup
  rw [binders_junction, List.nodup_flatMap] at nodup
  have symmetric : Std.Symm (Function.onFun List.Disjoint binders) :=
    ⟨fun _ _ => List.Disjoint.symm⟩
  by_contra different
  exact nodup.2.forall hf hg different hxf hxg

theorem neg (apart : (Formula.neg f).BoundApart) : f.BoundApart where
  nodup := apart.nodup
  disjoint x hx h := apart.disjoint x hx (unbound_neg.2 h)

/-- What is bound inside of a quantifier is not bound by it, so it would be unbound outside. -/
theorem body {q : Quantifier} {vars : VarSet} (apart : (quant q vars f).BoundApart) :
    f.BoundApart where
  nodup := (List.nodup_append.1 apart.nodup).2.1
  disjoint x hx h := by
    have outside : x ∉ vars := fun bound =>
      (List.nodup_append.1 apart.nodup).2.2 x bound x hx rfl
    exact apart.disjoint x (mem_binders_quant.2 (.inr hx)) (unbound_quant.2 ⟨h, outside⟩)

end BoundApart

end Formula
end QueryCalculus
