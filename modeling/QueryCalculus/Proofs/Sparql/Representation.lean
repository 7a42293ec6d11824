import QueryCalculus.Proofs.Formula.FreeVariables
import QueryCalculus.Proofs.Sparql.Evaluation

/-!
# Solutions and the valuations that fit them

- `Apart` : variables that can be told apart by their names
- `Fits` : the valuation gives the variables the values of the solution, where it has any
- `Represents` : a property holds of the valuations that fit some solution of a set
- `represents_matching`, `Represents.joined`, `Represents.filter`, `Represents.projected` : what
  triples stand for, and what the algebra does to the properties

A solution need not have values for all variables. It stands for all valuations that fit it.
-/

namespace QueryCalculus
namespace Sparql

universe u

variable {D : Type u} {G : Graph D} {vars vars' : VarSet} {A B : Set (Solution D)}
  {P Q : Valuation D → Prop} {μ ν : Solution D} {v : Valuation D}

open Solution

/-! ## Names of variables -/

/-- The variables have different names, and none has the name of the constant. -/
structure Apart (vars : VarSet) : Prop where
  named : ∀ x : Ident, x ∈ vars → x.name ≠ dummy
  injective : ∀ x y : Ident, x ∈ vars → y ∈ vars → x.name = y.name → x = y

theorem apart_of_nodup (distinct : (dummy :: vars.names).Nodup) : Apart vars := by
  rw [List.nodup_cons] at distinct
  constructor
  · intro x hx same
    exact distinct.1 (List.mem_map.2 ⟨x, hx, same⟩)
  · intro x y hx hy same
    exact List.inj_on_of_nodup_map distinct.2 hx hy same

theorem Apart.mono (apart : Apart vars') (sub : ∀ x : Ident, x ∈ vars → x ∈ vars') :
    Apart vars where
  named x hx := apart.named x (sub x hx)
  injective x y hx hy := apart.injective x y (sub x hx) (sub y hy)

theorem mem_names {name : String} : name ∈ vars.names ↔ ∃ x : Ident, x ∈ vars ∧ x.name = name :=
  List.mem_map

/-! ## Valuations as solutions -/

theorem ofValuation_name (apart : Apart vars) {x : Ident} (hx : x ∈ vars) (v : Valuation D) :
    ofValuation vars v x.name = some (v x) := by
  unfold ofValuation
  cases found : vars.idents.find? (·.name == x.name) with
  | none =>
    have missed := List.find?_eq_none.1 found x hx
    simp at missed
  | some y =>
    have same : y.name = x.name := by simpa using List.find?_some found
    rw [Option.map_some, apart.injective y x (List.mem_of_find?_eq_some found) hx same]

theorem exists_of_ofValuation {name : String} {d : D} (value : ofValuation vars v name = some d) :
    ∃ x : Ident, x ∈ vars ∧ x.name = name ∧ v x = d := by
  rcases Option.map_eq_some_iff.1 value with ⟨x, found, same⟩
  exact ⟨x, List.mem_of_find?_eq_some found, by simpa using List.find?_some found, same⟩

/-! ## Valuations that fit a solution -/

/-- There are values for the variables only, apart from the constant. -/
def Within (G : Graph D) (vars : VarSet) (μ : Solution D) : Prop :=
  ∀ name d, μ name = some d →
    (∃ x : Ident, x ∈ vars ∧ x.name = name) ∨ name = dummy ∧ d = G.one

theorem Within.constant (within : Within G vars μ) (apart : Apart vars) {d : D}
    (value : μ dummy = some d) : d = G.one := by
  rcases within dummy d value with ⟨x, hx, same⟩ | ⟨-, same⟩
  · exact absurd same (apart.named x hx)
  · exact same

def Fits (vars : VarSet) (μ : Solution D) (v : Valuation D) : Prop :=
  ∀ x : Ident, x ∈ vars → ∀ d, μ x.name = some d → v x = d

theorem fits_widen_iff (within : Within G vars μ) (apart : Apart vars')
    (sub : ∀ x : Ident, x ∈ vars → x ∈ vars') : Fits vars' μ v ↔ Fits vars μ v := by
  constructor
  · exact fun fits x hx => fits x (sub x hx)
  · intro fits x hx d value
    rcases within _ _ value with ⟨y, hy, same⟩ | ⟨same, -⟩
    · have equal : y = x := apart.injective y x (sub y hy) hx same
      exact fits x (equal ▸ hy) d value
    · exact absurd same (apart.named x hx)

/-- The solution has a value for some of the variables. -/
def Gives (X : Ident → Prop) (μ : Solution D) : Prop :=
  ∃ x, X x ∧ ∃ d, μ x.name = some d

theorem gives_merge {X : Ident → Prop} (some : Gives X μ ∨ Gives X ν) : Gives X (merge μ ν) := by
  rcases some with ⟨x, hx, d, value⟩ | ⟨x, hx, e, value⟩
  · exact ⟨x, hx, d, Option.or_eq_some_iff.2 (.inl value)⟩
  · -- the other solution may come first with a value of its own
    cases first : μ x.name with
    | none => exact ⟨x, hx, e, Option.or_eq_some_iff.2 (.inr ⟨first, value⟩)⟩
    | some d => exact ⟨x, hx, d, Option.or_eq_some_iff.2 (.inl first)⟩

/-- Solutions that one valuation fits are compatible. -/
theorem compatible_of_fits (withinμ : Within G vars μ) (withinν : Within G vars ν)
    (fitsμ : Fits vars μ v) (fitsν : Fits vars ν v) (apart : Apart vars) : Compatible μ ν := by
  intro name d e hd he
  rcases withinμ name d hd with ⟨x, hx, rfl⟩ | ⟨rfl, rfl⟩
  · exact (fitsμ x hx d hd).symm.trans (fitsν x hx e he)
  · rcases withinν dummy e he with ⟨y, hy, same⟩ | ⟨-, rfl⟩
    · exact absurd same (apart.named y hy)
    · rfl

theorem fits_merge_iff (compatible : Compatible μ ν) :
    Fits vars (merge μ ν) v ↔ Fits vars μ v ∧ Fits vars ν v := by
  constructor
  · intro fits
    have left : Fits vars μ v := fun x hx d value =>
      fits x hx d (Option.or_eq_some_iff.2 (.inl value))
    refine ⟨left, fun x hx e value => ?_⟩
    -- where both solutions have a value, it is the same
    cases first : μ x.name with
    | none => exact fits x hx e (Option.or_eq_some_iff.2 (.inr ⟨first, value⟩))
    | some d => exact (left x hx d first).trans (compatible _ _ _ first value)
  · rintro ⟨left, right⟩ x hx d value
    rcases Option.or_eq_some_iff.1 value with value | ⟨-, value⟩
    · exact left x hx d value
    · exact right x hx d value

/-! ## Sets of solutions -/

/-- The property holds of a valuation just if it fits some solution of the set. -/
structure Represents (G : Graph D) (vars : VarSet) (A : Set (Solution D))
    (P : Valuation D → Prop) : Prop where
  within : ∀ μ ∈ A, Within G vars μ
  holds_iff : ∀ v, P v ↔ ∃ μ ∈ A, Fits vars μ v

theorem Represents.congr (h : Represents G vars A P) (same : ∀ v, P v ↔ Q v) :
    Represents G vars A Q where
  within := h.within
  holds_iff v := (same v).symm.trans (h.holds_iff v)

theorem Represents.widen (h : Represents G vars A P) (apart : Apart vars')
    (sub : ∀ x : Ident, x ∈ vars → x ∈ vars') : Represents G vars' A P where
  within μ hμ name d value :=
    (h.within μ hμ name d value).imp_left fun ⟨x, hx, same⟩ => ⟨x, sub x hx, same⟩
  holds_iff v := (h.holds_iff v).trans (exists_congr fun μ => and_congr_right fun hμ =>
    (fits_widen_iff (h.within μ hμ) apart sub).symm)

theorem represents_unit (vars : VarSet) : Represents G vars {unit} fun _ => True where
  within := by
    rintro _ rfl name d value
    cases value
  holds_iff v := iff_of_true trivial ⟨unit, rfl, fun x hx d value => by cases value⟩

theorem Represents.joined (hA : Represents G vars A P) (hB : Represents G vars B Q)
    (apart : Apart vars) : Represents G vars (joined A B) fun v => P v ∧ Q v where
  within := by
    rintro _ ⟨μ, hμ, ν, hν, -, rfl⟩ name d value
    rcases Option.or_eq_some_iff.1 value with value | ⟨-, value⟩
    · exact hA.within μ hμ name d value
    · exact hB.within ν hν name d value
  holds_iff v := by
    rw [hA.holds_iff, hB.holds_iff]
    constructor
    · rintro ⟨⟨μ, hμ, fitsμ⟩, ⟨ν, hν, fitsν⟩⟩
      have compatible :=
        compatible_of_fits (hA.within μ hμ) (hB.within ν hν) fitsμ fitsν apart
      exact ⟨_, ⟨μ, hμ, ν, hν, compatible, rfl⟩, (fits_merge_iff compatible).2 ⟨fitsμ, fitsν⟩⟩
    · rintro ⟨_, ⟨μ, hμ, ν, hν, compatible, rfl⟩, fits⟩
      have both := (fits_merge_iff compatible).1 fits
      exact ⟨⟨μ, hμ, both.1⟩, ⟨ν, hν, both.2⟩⟩

/-- The solutions that pass a test, if the test decides a property of the valuations that fit. -/
theorem Represents.filter {T : Solution D → Prop} (h : Represents G vars A P)
    (decides : ∀ μ ∈ A, ∀ v, Fits vars μ v → (T μ ↔ Q v)) :
    Represents G vars {μ ∈ A | T μ} fun v => P v ∧ Q v where
  within μ hμ := h.within μ hμ.1
  holds_iff v := by
    rw [h.holds_iff]
    constructor
    · rintro ⟨⟨μ, hμ, fits⟩, holds⟩
      exact ⟨μ, ⟨hμ, (decides μ hμ v fits).2 holds⟩, fits⟩
    · rintro ⟨μ, ⟨hμ, passed⟩, fits⟩
      exact ⟨⟨μ, hμ, fits⟩, (decides μ hμ v fits).1 passed⟩

/-! ## Groups -/

/-- If all that one element of a group adds gives a value, so do the solutions of the group. -/
theorem gives_sources {X : Ident → Prop} {ps : List Pattern}
    (some : (∀ μ ∈ A, Gives X μ) ∨ ∃ p ∈ ps, ∀ μ ∈ p.source G, Gives X μ) :
    ∀ μ ∈ Pattern.sources G ps A, Gives X μ := by
  induction ps generalizing A with
  | nil => exact some.resolve_right nofun
  | cons p ps ih =>
    refine ih ?_
    rw [List.exists_mem_cons_iff] at some
    rcases some with before | here | later
    · refine .inl ?_
      rintro _ ⟨μ, hμ, ν, -, -, rfl⟩
      exact gives_merge (.inl (before μ hμ))
    · refine .inl ?_
      rintro _ ⟨μ, -, ν, hν, -, rfl⟩
      exact gives_merge (.inr (here ν hν))
    · exact .inr later

theorem represents_sources {Ps : List (Valuation D → Prop)} {ps : List Pattern}
    (each : List.Forall₂ (fun P p => Represents G vars (p.source G) P) Ps ps) (apart : Apart vars)
    (start : Represents G vars A P) :
    Represents G vars (Pattern.sources G ps A) fun v => P v ∧ ∀ Q ∈ Ps, Q v := by
  induction each generalizing A P with
  | nil => exact start.congr fun v => (and_iff_left nofun).symm
  | cons head tail ih =>
    refine (ih (start.joined head apart)).congr fun v => ?_
    rw [List.forall_mem_cons, and_assoc]

/-! ## Projections -/

theorem project_eq_restrict {x : Ident} (hx : x ∈ vars) (μ : Solution D) :
    μ.project G vars = μ.restrict vars := by
  have filled : ¬ vars.isEmpty = true := fun empty => VarSet.isEmpty_iff.1 empty x hx
  rw [project, if_neg filled]

theorem project_name {x : Ident} (hx : x ∈ vars) (μ : Solution D) :
    μ.project G vars x.name = μ x.name := by
  have listed : x.name ∈ vars.names := mem_names.2 ⟨x, hx, rfl⟩
  rw [project_eq_restrict hx, restrict, if_pos listed]

theorem within_project (μ : Solution D) : Within G vars (μ.project G vars) := by
  intro name d value
  by_cases empty : vars.isEmpty = true
  · rw [project, if_pos empty] at value
    split at value
    · rename_i same
      exact .inr ⟨same, (Option.some.inj value).symm⟩
    · cases value
  · rw [project, if_neg empty, restrict] at value
    split at value
    · rename_i listed
      exact .inl (mem_names.1 listed)
    · cases value

/-- A projection stands for the valuations that can be completed by values of the bound
variables. -/
theorem Represents.projected (h : Represents G vars A P) (bound : VarSet) :
    Represents G (vars.diff bound) (projected G (vars.diff bound) A)
      fun v => ∃ w, AgreeOutside bound v w ∧ P w where
  within := by
    rintro _ ⟨μ, -, rfl⟩
    exact within_project μ
  holds_iff v := by
    simp only [h.holds_iff]
    constructor
    · rintro ⟨w, outside, μ, hμ, fits⟩
      refine ⟨_, ⟨μ, hμ, rfl⟩, fun x hx d value => ?_⟩
      rw [project_name hx] at value
      have kept := VarSet.mem_diff.1 hx
      exact (outside x kept.2).symm.trans (fits x kept.1 d value)
    · rintro ⟨_, ⟨μ, hμ, rfl⟩, fits⟩
      -- bound variables take their values from the solution, as far as it has any
      refine ⟨fun x => if x ∈ bound then (μ x.name).getD (v x) else v x, ?_, μ, hμ, ?_⟩
      · intro x hx
        exact if_neg hx
      · intro x hx d value
        by_cases inside : x ∈ bound
        · simp [inside, value]
        · have kept : x ∈ vars.diff bound := VarSet.mem_diff.2 ⟨hx, inside⟩
          have same : v x = d := fits x kept d ((project_name kept μ).trans value)
          simp [inside, same]

/-! ## Triples -/

theorem instance_congr {R S : Term → D → Prop} {subject : Term} {name : String}
    (same : ∀ t ∈ [subject], ∀ d, R t d ↔ S t d) :
    G.Instance R subject name ↔ G.Instance S subject name := by
  have here := same subject List.mem_cons_self
  simp only [Graph.Instance, here]

theorem related_congr {R S : Term → D → Prop} {subject object : Term} {name : String}
    (same : ∀ t ∈ [subject, object], ∀ d, R t d ↔ S t d) :
    G.Related R subject name object ↔ G.Related S subject name object := by
  have first := same subject List.mem_cons_self
  have second := same object (List.mem_cons_of_mem subject List.mem_cons_self)
  simp only [Graph.Related, first, second]

/-- The terms denote the same under a valuation and a solution with its values. -/
theorem denotes_iff_of_values {terms : List Term}
    (values : ∀ x ∈ Formula.namedVariables terms, μ x.name = some (v x.toIdent)) {t : Term}
    (ht : t ∈ terms) (d : D) :
    G.Denotes (fun x d => μ x.name = some d) t d ↔ t.DenotesIn G v d := by
  cases t with
  | const c => exact Iff.rfl
  | var x =>
    cases blank : x.isBlank with
    | true => exact iff_of_true (.inl blank) (.inl blank)
    | false =>
      have value := values x (Formula.mem_namedVariables.2 ⟨ht, blank⟩)
      simp only [Term.DenotesIn, Graph.Denotes, value, Option.some.injEq]

theorem ofValuation_domain {terms : List Term}
    (apart : Apart (VarSet.ofList (Formula.namedVariables terms))) (v : Valuation D)
    (name : String) :
    (∃ d, ofValuation (VarSet.ofList (Formula.namedVariables terms)) v name = some d) ↔
      ∃ x ∈ Formula.namedVariables terms, x.name = name := by
  constructor
  · rintro ⟨d, value⟩
    rcases exists_of_ofValuation value with ⟨x, hx, rfl, -⟩
    rcases VarSet.mem_ofList.1 hx with ⟨y, hy, rfl⟩
    exact ⟨y, hy, rfl⟩
  · rintro ⟨x, hx, rfl⟩
    exact ⟨_, ofValuation_name apart (VarSet.mem_ofList.2 ⟨x, hx, rfl⟩) v⟩

theorem represents_matching {terms : List Term} {holds : (Term → D → Prop) → Prop}
    (congr : ∀ R S : Term → D → Prop, (∀ t ∈ terms, ∀ d, R t d ↔ S t d) → (holds R ↔ holds S))
    (apart : Apart (VarSet.ofList (Formula.namedVariables terms))) :
    Represents G (VarSet.ofList (Formula.namedVariables terms)) (matching G terms holds)
      fun v => holds (Term.DenotesIn G v) where
  within μ hμ name d value := by
    rcases (hμ.1 name).1 ⟨d, value⟩ with ⟨x, hx, same⟩
    exact .inl ⟨x.toIdent, VarSet.mem_ofList.2 ⟨x, hx, rfl⟩, same⟩
  holds_iff v := by
    constructor
    · intro holdsAt
      refine ⟨ofValuation _ v, ⟨ofValuation_domain apart v, ?_⟩, ?_⟩
      · refine (congr _ _ fun t ht d => denotes_iff_of_values (fun x hx => ?_) ht d).2 holdsAt
        exact ofValuation_name apart (VarSet.mem_ofList.2 ⟨x, hx, rfl⟩) v
      · intro x hx d value
        exact Option.some.inj ((ofValuation_name apart hx v).symm.trans value)
    · rintro ⟨μ, ⟨domain, holdsAt⟩, fits⟩
      refine (congr _ _ fun t ht d => denotes_iff_of_values (fun x hx => ?_) ht d).1 holdsAt
      -- the solution has a value for the variable, and the valuation fits it
      rcases (domain x.name).2 ⟨x, hx, rfl⟩ with ⟨d, value⟩
      rw [value, fits x.toIdent (VarSet.mem_ofList.2 ⟨x, hx, rfl⟩) d value]

end Sparql
end QueryCalculus
