import QueryCalculus.Formula.Apart
import QueryCalculus.Proofs.FreshNames
import QueryCalculus.Proofs.Formula.Equivalence

/-!
# Renaming apart keeps the meaning

- `Apart.ident` : what the pending renamings make of a variable
- `Apart.Binds` : what binding a list of variables does to them and to the names in use
- `Formula.Renamed` : what renaming apart promises of a formula, given the pending renamings
- `Formula.renamed_apart` : it keeps the promise everywhere in a formula

The pending renamings never make two variables one. They are applied to inner binders as well, so
this has to hold for all names of the formula and not only for its unbound variables.
-/

namespace QueryCalculus

universe u

/-! ## Outlines -/

/-- The blank in place of all variables. -/
def VarSet.outline (vars : VarSet) : VarSet :=
  if vars.isEmpty then ∅ else VarSet.empty.insert { name := Variable.blankName }

namespace Formula

mutual

/-- What is left of a formula without its atoms and the variables of its quantifiers. -/
def outline : Formula → Formula
  | .atom _ => .atom (.truth true)
  | .junction c parts => .junction c (outlineAll parts)
  | .neg body => .neg body.outline
  | .quant q vars body => .quant q vars.outline body.outline

def outlineAll : List Formula → List Formula
  | [] => []
  | f :: fs => f.outline :: outlineAll fs

end

theorem outlineAll_eq_map (fs : List Formula) : outlineAll fs = fs.map outline := by
  induction fs with
  | nil => rfl
  | cons f fs ih => simp [outlineAll, ih]

namespace Apart

/-! ## Pending renamings -/

/-- The variable that takes the place of `x` when a single renaming is applied. -/
def identOnce (pair : Variable × Variable) (x : Ident) : Ident :=
  if x = pair.1.toIdent then pair.2.toIdent else x

/-- The variable that takes the place of `x` when the renamings are applied in turn. -/
def ident (pending : Renaming) (x : Ident) : Ident :=
  pending.foldl (fun x pair => identOnce pair x) x

theorem ident_append (first second : Renaming) (x : Ident) :
    ident (first ++ second) x = ident second (ident first x) :=
  List.foldl_append

theorem find?_single (pair : Variable × Variable) (x : Variable) :
    Substitution.find? [(pair.1, .var pair.2)] x =
      if x.toIdent = pair.1.toIdent then some (.var pair.2) else none := by
  by_cases same : x.toIdent = pair.1.toIdent
  · have found : (pair.1 == x) = true := Variable.beq_iff.2 same.symm
    simp [Substitution.find?, found, same]
  · have missed : (pair.1 == x) = false :=
      Bool.eq_false_iff.2 fun found => same (Variable.beq_iff.1 found).symm
    simp [Substitution.find?, missed, same]

theorem applyTerm_var (pending : Renaming) (x : Variable) :
    ∃ y : Variable, applyTerm pending (.var x) = .var y ∧ y.toIdent = ident pending x.toIdent := by
  induction pending generalizing x with
  | nil => exact ⟨x, rfl, rfl⟩
  | cons pair rest ih =>
    by_cases same : x.toIdent = pair.1.toIdent
    · rcases ih pair.2 with ⟨y, term, image⟩
      refine ⟨y, ?_, ?_⟩
      · simpa [applyTerm, Substitution.apply, find?_single, same] using term
      · simpa [ident, identOnce, same] using image
    · rcases ih x with ⟨y, term, image⟩
      refine ⟨y, ?_, ?_⟩
      · simpa [applyTerm, Substitution.apply, find?_single, same] using term
      · simpa [ident, identOnce, same] using image

theorem applyTerm_const (pending : Renaming) (c : Constant) :
    applyTerm pending (.const c) = .const c := by
  induction pending with
  | nil => rfl
  | cons pair rest ih => exact ih

theorem mem_replace_single {pair : Variable × Variable} {vars : VarSet} {y : Ident} :
    y ∈ vars.replace [(pair.1, .var pair.2)] ↔ ∃ x ∈ vars, identOnce pair x = y := by
  have image : ∀ x : Variable, ∃ z : Variable,
      Substitution.applyBound? [(pair.1, .var pair.2)] x = some z ∧
        z.toIdent = identOnce pair x.toIdent := by
    intro x
    by_cases same : x.toIdent = pair.1.toIdent
    · exact ⟨pair.2, by simp [Substitution.applyBound?, find?_single, same, Term.var?],
        by simp [identOnce, same]⟩
    · exact ⟨x, by simp [Substitution.applyBound?, find?_single, same], by simp [identOnce, same]⟩
  rw [VarSet.replace, VarSet.mem_ofList]
  constructor
  · rintro ⟨z, hz, rfl⟩
    rcases List.mem_filterMap.1 hz with ⟨x, hx, applied⟩
    rcases image x with ⟨z', found, same⟩
    cases found.symm.trans applied
    exact ⟨x.toIdent, VarSet.toIdent_mem hx, same.symm⟩
  · rintro ⟨x, hx, rfl⟩
    rcases VarSet.mem_iff.1 hx with ⟨x, listed, rfl⟩
    rcases image x with ⟨z, found, same⟩
    exact ⟨z, List.mem_filterMap.2 ⟨x, listed, found⟩, same⟩

theorem mem_applySet {pending : Renaming} {vars : VarSet} {y : Ident} :
    y ∈ applySet pending vars ↔ ∃ x ∈ vars, ident pending x = y := by
  induction pending generalizing vars with
  | nil => simp [applySet, ident]
  | cons pair rest ih =>
    calc
      y ∈ applySet (pair :: rest) vars
        ↔ ∃ z ∈ vars.replace [(pair.1, .var pair.2)], ident rest z = y := ih
      _ ↔ ∃ x ∈ vars, ident rest (identOnce pair x) = y := by
        simp only [mem_replace_single, exists_exists_and_eq_and]

/-! ## Names in use -/

/-- The state `s'` is reached from `s` by binding the listed names, no name twice. If a fresh name
is drawn on the way, the first one is the fresh name of the state `s`. -/
structure Extends (alphabet : Alphabet) (s s' : State) (names : List String) : Prop where
  nodup : names.Nodup
  fresh : ∀ n ∈ names, n ∉ s.bound
  bound : ∀ n, n ∈ s'.bound ↔ n ∈ s.bound ∨ n ∈ names
  within : s'.bound ⊆ s'.taken
  taken : s.taken ⊆ s'.taken
  added : ∀ n ∈ s'.taken, n ∈ s.taken ∨ ∃ reserved, n = alphabet.fresh reserved
  drawn : s'.taken = s.taken ∨ alphabet.fresh s.taken ∈ names

namespace Extends

variable {alphabet : Alphabet} {s t u : State} {names more : List String}

theorem refl (within : s.bound ⊆ s.taken) : Extends alphabet s s [] where
  nodup := List.nodup_nil
  fresh _ hn := absurd hn List.not_mem_nil
  bound := by simp
  within := within
  taken := List.Subset.refl _
  added _ hn := .inl hn
  drawn := .inl rfl

theorem trans (first : Extends alphabet s t names) (second : Extends alphabet t u more) :
    Extends alphabet s u (names ++ more) where
  nodup := by
    refine List.nodup_append.2 ⟨first.nodup, second.nodup, ?_⟩
    rintro n hn m hm rfl
    exact second.fresh n hm ((first.bound n).2 (.inr hn))
  fresh n hn := by
    rcases List.mem_append.1 hn with hn | hn
    · exact first.fresh n hn
    · exact fun h => second.fresh n hn ((first.bound n).2 (.inl h))
  bound n := by rw [second.bound, first.bound, List.mem_append, or_assoc]
  within := second.within
  taken := List.Subset.trans first.taken second.taken
  added n hn := by
    rcases second.added n hn with hn | hn
    · exact first.added n hn
    · exact .inr hn
  drawn := by
    rcases first.drawn with same | listed
    · have later := second.drawn
      rw [same] at later
      exact later.imp_right (List.mem_append_right names)
    · exact .inr (List.mem_append_left more listed)

theorem perm (h : Extends alphabet s t names) (perm : names.Perm more) :
    Extends alphabet s t more where
  nodup := perm.nodup_iff.1 h.nodup
  fresh n hn := h.fresh n (perm.mem_iff.2 hn)
  bound n := by rw [h.bound, perm.mem_iff]
  within := h.within
  taken := h.taken
  added := h.added
  drawn := h.drawn.imp_right perm.mem_iff.1

theorem mem_taken (h : Extends alphabet s t names) {n : String} (hn : n ∈ names) : n ∈ t.taken :=
  h.within ((h.bound n).2 (.inr hn))

end Extends

/-! ## Binding a list of variables -/

/-- Binding the variables `xs` renames them by `σ` and leads from the state `s` to `s'`. -/
structure Binds (alphabet : Alphabet) (xs : List Ident) (s : State) (σ : Ident → Ident)
    (s' : State) : Prop where
  fixes : ∀ z, z.name ∈ s.taken → z ∉ xs → σ z = z
  injective : ∀ x y, x.name ∈ s.taken → y.name ∈ s.taken → σ x = σ y → x = y
  names : Extends alphabet s s' ((xs.map σ).map Ident.name)

namespace Binds

variable {alphabet : Alphabet} {x y : Ident} {xs : List Ident} {s t s' : State}
  {σ τ : Ident → Ident}

/-- A variable whose name is not bound yet stays. -/
theorem keep (within : s.bound ⊆ s.taken) (named : x.name ∈ s.taken) (free : x.name ∉ s.bound) :
    Binds alphabet [x] s id { s with bound := x.name :: s.bound } where
  fixes _ _ _ := rfl
  injective _ _ _ _ same := same
  names :=
    { nodup := List.nodup_singleton _
      fresh := by simpa using free
      bound := fun n => by simp [or_comm]
      within := List.cons_subset.2 ⟨named, within⟩
      taken := List.Subset.refl _
      added := fun _ hn => .inl hn
      drawn := .inl rfl }

/-- A variable whose name is bound already gets a fresh one. -/
theorem rename (within : s.bound ⊆ s.taken) (drawn : y.name = alphabet.fresh s.taken) :
    Binds alphabet [x] s (fun z => if z = x then y else z)
      { bound := y.name :: s.bound, taken := y.name :: s.taken } := by
  have fresh : y.name ∉ s.taken := drawn ▸ alphabet.fresh_notMem s.taken
  have stays : ∀ z, z.name ∈ s.taken → z ≠ y := by
    rintro z hz rfl
    exact fresh hz
  constructor
  · intro z _ absent
    exact if_neg fun same => absent (List.mem_singleton.2 same)
  · intro z w hz hw same
    -- a variable that stays has a taken name, which the new one has not
    split at same <;> split at same
    · rename_i hzx hwx
      exact hzx.trans hwx.symm
    · exact absurd same.symm (stays w hw)
    · exact absurd same (stays z hz)
    · exact same
  · rw [List.map_singleton, List.map_singleton, if_pos rfl]
    exact
      { nodup := List.nodup_singleton _
        fresh := fun n hn h => fresh (List.mem_singleton.1 hn ▸ within h)
        bound := fun n => by simp [or_comm]
        within := List.cons_subset_cons _ within
        taken := List.subset_cons_self _ _
        added := fun n hn => (List.mem_cons.1 hn).symm.imp_right fun h => ⟨_, h.trans drawn⟩
        drawn := .inr (List.mem_singleton.2 drawn.symm) }

theorem unmoved (step : Binds alphabet [x] s τ t) {z : Ident} (named : z.name ∈ s.taken)
    (different : z ≠ x) : τ z = z :=
  step.fixes z named fun listed => different (List.mem_singleton.1 listed)

/-- What happens to the other variables does not change the first one. -/
theorem head (step : Binds alphabet [x] s τ t) (rest : Binds alphabet xs t σ s')
    (settled : τ x ∉ xs) : σ (τ x) = τ x :=
  rest.fixes _ (step.names.mem_taken (List.mem_singleton_self _)) settled

theorem taken (h : Binds alphabet xs s σ s') {z : Ident} (named : z.name ∈ s.taken) :
    (σ z).name ∈ s'.taken := by
  by_cases listed : z ∈ xs
  · exact h.names.mem_taken (List.mem_map_of_mem (List.mem_map_of_mem listed))
  · rw [h.fixes z named listed]
    exact h.names.taken named

/-- The variables are bound one after the other. -/
theorem cons (step : Binds alphabet [x] s τ t) (rest : Binds alphabet xs t σ s')
    (outside : x ∉ xs) (others : ∀ z ∈ xs, z.name ∈ s.taken) (settled : τ x ∉ xs) :
    Binds alphabet (x :: xs) s (fun z => σ (τ z)) s' := by
  constructor
  · intro z hz absent
    rw [List.mem_cons, not_or] at absent
    rw [step.unmoved hz absent.1]
    exact rest.fixes z (step.names.taken hz) absent.2
  · intro z w hz hw same
    exact step.injective z w hz hw (rest.injective _ _ (step.taken hz) (step.taken hw) same)
  · have tail : xs.map (fun z => σ (τ z)) = xs.map σ := by
      refine List.map_congr_left fun z hz => ?_
      rw [step.unmoved (others z hz) fun same => outside (same ▸ hz)]
    rw [List.map_cons, step.head rest settled, tail]
    exact step.names.trans rest.names

end Binds

/-- One variable is bound at a time: `y` takes the place of `x`, by renamings that are appended to
the pending ones. -/
theorem binds_step (alphabet : Alphabet) {x : Variable} {s : State} (named : x.name ∈ s.taken)
    (within : s.bound ⊆ s.taken) :
    ∃ y new t, (∀ xs done pending, bind alphabet (x :: xs) done pending s =
        bind alphabet xs (done.insert y) (pending ++ new) t) ∧
      Binds alphabet [x.toIdent] s (ident new) t ∧ ident new x.toIdent = y.toIdent ∧
      (y.toIdent = x.toIdent ∨ y.name ∉ s.taken) := by
  by_cases bound : x.name ∈ s.bound
  · let y := x.renamed (alphabet.fresh s.taken)
    refine ⟨y, [(x, y)], _, fun xs done pending => ?_, .rename within rfl, if_pos rfl, .inr ?_⟩
    · rw [bind, if_pos (List.contains_iff_mem.2 bound)]
    · exact alphabet.fresh_notMem s.taken
  · refine ⟨x, [], _, fun xs done pending => ?_, .keep within named bound, rfl, .inl rfl⟩
    rw [bind, if_neg fun found => bound (List.contains_iff_mem.1 found), List.append_nil]

/-- Binding appends renamings to the pending ones, and the variables they lead to are bound. -/
theorem binds_bind (alphabet : Alphabet) {xs : List Variable} (done : VarSet) (pending : Renaming)
    {s : State} (nodup : (xs.map Variable.toIdent).Nodup) (named : ∀ x ∈ xs, x.name ∈ s.taken)
    (within : s.bound ⊆ s.taken) :
    ∃ extra, (bind alphabet xs done pending s).1.2 = pending ++ extra ∧
      Binds alphabet (xs.map Variable.toIdent) s (ident extra) (bind alphabet xs done pending s).2 ∧
      ∀ z, z ∈ (bind alphabet xs done pending s).1.1 ↔
        z ∈ done ∨ ∃ x ∈ xs.map Variable.toIdent, ident extra x = z := by
  induction xs generalizing done pending s with
  | nil =>
    refine ⟨[], (List.append_nil pending).symm, ?_, by simp [bind]⟩
    exact ⟨fun _ _ _ => rfl, fun _ _ _ _ same => same, Extends.refl within⟩
  | cons x xs ih =>
    rw [List.map_cons, List.nodup_cons] at nodup
    have others : ∀ z ∈ xs.map Variable.toIdent, z.name ∈ s.taken :=
      List.forall_mem_map.2 fun z hz => named z (List.mem_cons_of_mem x hz)
    rcases binds_step alphabet (named x List.mem_cons_self) within
      with ⟨y, new, t, unfolded, step, placed, origin⟩
    rcases ih (done.insert y) (pending ++ new) (s := t) nodup.2
      (fun z hz => step.names.taken (named z (List.mem_cons_of_mem x hz))) step.names.within
      with ⟨extra, appended, rest, image⟩
    -- what takes the place of `x` is not renamed again: it is `x`, or its name is not taken
    have settled : ident new x.toIdent ∉ xs.map Variable.toIdent := by
      intro listed
      rw [placed] at listed
      rcases origin with same | fresh
      · exact nodup.1 (same ▸ listed)
      · exact fresh (others _ listed)
    have first : ident (new ++ extra) x.toIdent = y.toIdent := by
      rw [ident_append, step.head rest settled, placed]
    have tail : ∀ z ∈ xs.map Variable.toIdent, ident (new ++ extra) z = ident extra z := by
      intro z hz
      rw [ident_append, step.unmoved (others z hz) fun same => nodup.1 (same ▸ hz)]
    refine ⟨new ++ extra, ?_, ?_, fun z => ?_⟩
    · rw [unfolded, appended, List.append_assoc]
    · rw [unfolded, funext (ident_append new extra)]
      exact step.cons rest nodup.1 others settled
    · rw [unfolded, image, VarSet.mem_insert, List.map_cons, List.exists_mem_cons_iff, first,
        or_assoc, or_left_comm, eq_comm (a := z)]
      refine or_congr_right (or_congr_right (exists_congr fun w => and_congr_right fun hw => ?_))
      rw [tail w hw]

/-! ## Formulas -/

/-- What is needed to rename a formula with the given names: the pending renamings keep its
variables apart, and the names that they lead to are taken. -/
structure Fits (names : List String) (pending : Renaming) (s : State) : Prop where
  injective : ∀ x y : Ident, x.name ∈ names → y.name ∈ names →
    ident pending x = ident pending y → x = y
  taken : ∀ x : Ident, x.name ∈ names → (ident pending x).name ∈ s.taken
  within : s.bound ⊆ s.taken

namespace Fits

variable {alphabet : Alphabet} {names fewer : List String} {pending extra : Renaming} {s t : State}

theorem mono (fits : Fits names pending s) (sub : fewer ⊆ names) : Fits fewer pending s where
  injective x y hx hy := fits.injective x y (sub hx) (sub hy)
  taken x hx := fits.taken x (sub hx)
  within := fits.within

theorem extend {used : List String} (fits : Fits names pending s)
    (later : Extends alphabet s t used) : Fits names pending t where
  injective := fits.injective
  taken x hx := later.taken (fits.taken x hx)
  within := later.within

theorem bind {xs : List Ident} (fits : Fits names pending s)
    (binds : Binds alphabet xs s (ident extra) t) : Fits names (pending ++ extra) t where
  injective x y hx hy same := by
    rw [ident_append, ident_append] at same
    exact fits.injective x y hx hy (binds.injective _ _ (fits.taken x hx) (fits.taken y hy) same)
  taken x hx := by
    rw [ident_append]
    exact binds.taken (fits.taken x hx)
  within := binds.names.within

end Fits

end Apart

/-! ## Formulas renamed apart -/

/-- The promise of renaming apart: the result means what the formula means when its unbound
variables are renamed, has the same outline, and binds new names only. -/
structure Renamed (alphabet : Alphabet) (pending : Apart.Renaming) (s : Apart.State) (f : Formula)
    (r : Formula × Apart.State) : Prop where
  holds : ∀ (D : Type u) (M : Interpretation D) (v : Valuation D),
    r.1.Holds M v ↔ f.Holds M fun x => v (Apart.ident pending x)
  unbound : ∀ y, Unbound y r.1 ↔ ∃ x, Unbound x f ∧ Apart.ident pending x = y
  outline : r.1.outline = f.outline
  names : Apart.Extends alphabet s r.2 (r.1.binders.map Ident.name)

section

open Apart

variable {alphabet : Alphabet} {pending : Renaming} {s : State}

theorem value_applyTerm {D : Type u} {M : Interpretation D} {v : Valuation D} (t : Term) :
    (applyTerm pending t).value M v = t.value M fun x => v (ident pending x) := by
  cases t with
  | var x =>
    rcases applyTerm_var pending x with ⟨y, term, image⟩
    rw [term]
    exact congrArg v image
  | const c =>
    rw [applyTerm_const]
    cases c <;> rfl

theorem holds_mapTerms {D : Type u} {M : Interpretation D} {v : Valuation D} (a : Atom) :
    (a.mapTerms (applyTerm pending)).Holds M v ↔ a.Holds M fun x => v (ident pending x) :=
  holds_mapTerms_iff fun t _ => value_applyTerm t

theorem unbound_mapTerms (a : Atom) {y : Ident} :
    Unbound y (.atom (a.mapTerms (applyTerm pending))) ↔
      ∃ x, Unbound x (.atom a) ∧ ident pending x = y := by
  simp only [unbound_atom, Atom.terms_mapTerms, List.mem_map]
  constructor
  · rintro ⟨y, ⟨t, ht, term⟩, rfl⟩
    cases t with
    | var x =>
      rcases applyTerm_var pending x with ⟨z, applied, image⟩
      cases applied.symm.trans term
      exact ⟨x.toIdent, ⟨x, ht, rfl⟩, image.symm⟩
    | const c => cases (applyTerm_const pending c).symm.trans term
  · rintro ⟨_, ⟨x, hx, rfl⟩, rfl⟩
    rcases applyTerm_var pending x with ⟨z, applied, image⟩
    exact ⟨z, ⟨.var x, hx, applied⟩, image⟩

theorem renamed_atom (a : Atom) (within : s.bound ⊆ s.taken) :
    Renamed.{u} alphabet pending s (.atom a) ((Formula.atom a).apart alphabet pending s) where
  holds _ _ _ := holds_mapTerms a
  unbound _ := unbound_mapTerms a
  outline := rfl
  names := Extends.refl within

theorem Renamed.neg {f : Formula} {r : Formula × State}
    (h : Renamed.{u} alphabet pending s f r) :
    Renamed.{u} alphabet pending s (.neg f) (.neg r.1, r.2) where
  holds D M v := not_congr (h.holds D M v)
  unbound y := by simpa only [unbound_neg] using h.unbound y
  outline := congrArg Formula.neg h.outline
  names := h.names

theorem renamed_nil (c : Connective) (within : s.bound ⊆ s.taken) :
    Renamed.{u} alphabet pending s (.junction c []) (.junction c [], s) where
  holds D M v := by simp only [holds_junction]; cases c <;> simp [Connective.Joins]
  unbound y := by simp [unbound_junction]
  outline := rfl
  names := Extends.refl within

/-- The parts of a junction are renamed one after the other. -/
theorem Renamed.cons {c : Connective} {f g : Formula} {fs gs : List Formula} {t u : State}
    (first : Renamed.{u} alphabet pending s f (g, t))
    (rest : Renamed.{u} alphabet pending t (.junction c fs) (.junction c gs, u)) :
    Renamed.{u} alphabet pending s (.junction c (f :: fs)) (.junction c (g :: gs), u) where
  holds D M v := by
    have head := first.holds D M v
    have tail := rest.holds D M v
    simp only [holds_junction] at tail ⊢
    cases c with
    | and => simpa only [Connective.Joins, List.forall_mem_cons] using and_congr head tail
    | or => simpa only [Connective.Joins, List.exists_mem_cons_iff] using or_congr head tail
  unbound y := by
    have head := first.unbound y
    have tail := rest.unbound y
    simp only [unbound_junction, List.exists_mem_cons_iff] at tail ⊢
    rw [head, tail, ← exists_or]
    simp only [or_and_right]
  outline := by
    have parts : outlineAll gs = outlineAll fs := by
      have same := rest.outline
      simp only [Formula.outline] at same
      injection same
    simp only [Formula.outline, outlineAll, first.outline, parts]
  names := by
    have names := first.names.trans rest.names
    rwa [binders, bindersAll, List.map_append]

theorem renamed_junction {c : Connective} {parts : List Formula}
    (each : ∀ f ∈ parts, ∀ s, Fits f.names pending s →
      Renamed.{u} alphabet pending s f (f.apart alphabet pending s))
    (fits : ∀ f ∈ parts, Fits f.names pending s) (within : s.bound ⊆ s.taken) :
    Renamed.{u} alphabet pending s (.junction c parts)
      ((Formula.junction c parts).apart alphabet pending s) := by
  induction parts generalizing s with
  | nil => exact renamed_nil c within
  | cons f fs ih =>
    -- the names bound in the first part may not be bound in the others
    have first := each f List.mem_cons_self s (fits f List.mem_cons_self)
    have rest := ih (fun g hg => each g (List.mem_cons_of_mem f hg))
      (fun g hg => (fits g (List.mem_cons_of_mem f hg)).extend first.names) first.names.within
    exact first.cons rest

section Quantifier

variable {q : Quantifier} {vars vars' : VarSet} {body : Formula} {extra : Renaming} {t : State}
  {x y : Ident}

theorem name_mem_of_bound (hx : x ∈ vars) : x.name ∈ (Formula.quant q vars body).names :=
  name_mem_of_binders (mem_binders_quant.2 (.inl hx))

theorem name_mem_of_unbound (hx : Unbound x body) :
    x.name ∈ (Formula.quant q vars body).names :=
  names_body_subset hx.name_mem

theorem mem_bound_iff
    (members : ∀ z, z ∈ vars' ↔ ∃ x ∈ (applySet pending vars).idents, ident extra x = z)
    {z : Ident} : z ∈ vars' ↔ ∃ x ∈ vars, ident (pending ++ extra) x = z := by
  simp only [members, VarSet.mem_idents, mem_applySet, ident_append, exists_exists_and_eq_and]

/-- A variable that is not bound here is none of those that are renamed. -/
theorem ident_of_unbound (fits : Fits (Formula.quant q vars body).names pending s)
    (binds : Binds alphabet (applySet pending vars).idents s (ident extra) t) (hx : Unbound x body)
    (free : x ∉ vars) : ident (pending ++ extra) x = ident pending x := by
  rw [ident_append]
  refine binds.fixes _ (fits.taken x (name_mem_of_unbound hx)) fun renamed => ?_
  rcases mem_applySet.1 (VarSet.mem_idents.1 renamed) with ⟨y, hy, same⟩
  exact free (fits.injective y x (name_mem_of_bound hy) (name_mem_of_unbound hx) same ▸ hy)

theorem extends_bound (binds : Binds alphabet (applySet pending vars).idents s (ident extra) t)
    (members : ∀ z, z ∈ vars' ↔ ∃ x ∈ (applySet pending vars).idents, ident extra x = z) :
    Extends alphabet s t (vars'.idents.map Ident.name) := by
  have images : ((applySet pending vars).idents.map (ident extra)).Perm vars'.idents := by
    refine (List.perm_ext_iff_of_nodup binds.names.nodup.of_map (VarSet.nodup_idents vars')).2 ?_
    intro z
    rw [List.mem_map, VarSet.mem_idents, members]
  exact binds.names.perm (images.map Ident.name)

/-- The variables of a quantifier are bound first, with renamings that its body takes over. -/
theorem Renamed.quant {r : Formula × State}
    (fits : Fits (Formula.quant q vars body).names pending s)
    (binds : Binds alphabet (applySet pending vars).idents s (ident extra) t)
    (members : ∀ z, z ∈ vars' ↔ ∃ x ∈ (applySet pending vars).idents, ident extra x = z)
    (inner : Renamed.{u} alphabet (pending ++ extra) t body r) :
    Renamed.{u} alphabet pending s (.quant q vars body) (.quant q vars' r.1, r.2) := by
  -- a variable from outside is not captured, whatever the bound variables are renamed to
  have apart : ∀ x, Unbound x body → ∀ y, y ∈ vars →
      ident (pending ++ extra) x = ident (pending ++ extra) y → x = y := fun x hx y hy =>
    (fits.bind binds).injective x y (name_mem_of_unbound hx) (name_mem_of_bound hy)
  have outside : ∀ x, Unbound x body → x ∉ vars →
      ident (pending ++ extra) x = ident pending x := fun x hx free =>
    ident_of_unbound fits binds hx free
  constructor
  · intro D M v
    have bound : {z | z ∈ vars'} = Set.image (ident (pending ++ extra)) {x | x ∈ vars} :=
      Set.ext fun z => mem_bound_iff members
    calc
      (Formula.quant q vars' r.1).Holds M v
        ↔ q.Over {z | z ∈ vars'} (r.1.Holds M) v := holds_quant
      _ ↔ q.Over (Set.image (ident (pending ++ extra)) {x | x ∈ vars})
            (fun w => body.Holds M fun x => w (ident (pending ++ extra) x)) v :=
        bound ▸ Quantifier.over_congr (inner.holds D M)
      _ ↔ q.Over {x | x ∈ vars} (body.Holds M) fun x => v (ident pending x) :=
        Quantifier.over_rename (dependsOn_holds body) apart outside
      _ ↔ (Formula.quant q vars body).Holds M fun x => v (ident pending x) := holds_quant.symm
  · intro y
    simp only [unbound_quant, inner.unbound]
    constructor
    · rintro ⟨⟨x, hx, rfl⟩, free⟩
      have hv : x ∉ vars := fun hv => free ((mem_bound_iff members).2 ⟨x, hv, rfl⟩)
      exact ⟨x, ⟨hx, hv⟩, (outside x hx hv).symm⟩
    · rintro ⟨x, ⟨hx, hv⟩, rfl⟩
      refine ⟨⟨x, hx, outside x hx hv⟩, fun bound => ?_⟩
      rcases (mem_bound_iff members).1 bound with ⟨z, hz, same⟩
      exact hv (apart x hx z hz ((outside x hx hv).trans same.symm) ▸ hz)
  · have empty : vars'.isEmpty = vars.isEmpty := by
      rw [Bool.eq_iff_iff, VarSet.isEmpty_iff, VarSet.isEmpty_iff]
      simp only [mem_bound_iff members]
      constructor
      · exact fun none x hx => none _ ⟨x, hx, rfl⟩
      · rintro none z ⟨x, hx, -⟩
        exact none x hx
    simp only [Formula.outline, VarSet.outline, empty, inner.outline]
  · rw [binders, List.map_append]
    exact (extends_bound binds members).trans inner.names

end Quantifier

theorem renamed_apart (alphabet : Alphabet) (f : Formula) {pending : Renaming} {s : State}
    (fits : Fits f.names pending s) :
    Renamed.{u} alphabet pending s f (f.apart alphabet pending s) := by
  induction f generalizing pending s with
  | atom a => exact renamed_atom a fits.within
  | junction c parts ih =>
    exact renamed_junction (fun f hf s fits => ih f hf fits)
      (fun f hf => fits.mono (names_part_subset hf)) fits.within
  | neg body ih => exact (ih fits).neg
  | quant q vars body ih =>
    have named : ∀ x ∈ (applySet pending vars).toList, x.name ∈ s.taken := by
      intro x hx
      rcases mem_applySet.1 (VarSet.toIdent_mem hx) with ⟨z, hz, image⟩
      exact image ▸ fits.taken z (name_mem_of_binders (mem_binders_quant.2 (.inl hz)))
    rcases binds_bind alphabet ∅ pending (VarSet.nodup_idents _) named fits.within
      with ⟨extra, appended, binds, members⟩
    -- the body is renamed by what was pending before and by what the quantifier has added
    have inner := ih ((fits.bind binds).mono names_body_subset)
    have result := inner.quant fits binds (q := q) fun z => by
      rw [members, or_iff_right (VarSet.not_mem_empty z)]
      exact Iff.rfl
    rw [← appended] at result
    exact result

end

/-! ## Whole formulas -/

/-- At first the names of the free variables may not be bound, and all names are taken. -/
theorem renamed_renameApart (alphabet : Alphabet) (f : Formula) :
    Renamed.{u} alphabet [] { bound := f.free.toList.map (·.name), taken := f.names } f
      (f.apart alphabet [] { bound := f.free.toList.map (·.name), taken := f.names }) := by
  refine renamed_apart alphabet f ⟨fun x y _ _ same => same, fun x hx => hx, fun n hn => ?_⟩
  rcases List.mem_map.1 hn with ⟨x, hx, rfl⟩
  exact (mem_free_iff.1 (VarSet.toIdent_mem hx)).1.name_mem

theorem equivalent_renameApart (alphabet : Alphabet) (f : Formula) :
    Equivalent.{u} (f.renameApart alphabet) f :=
  (renamed_renameApart alphabet f).holds

theorem outline_renameApart (alphabet : Alphabet) (f : Formula) :
    (f.renameApart alphabet).outline = f.outline :=
  (renamed_renameApart.{0} alphabet f).outline

theorem unbound_renameApart {alphabet : Alphabet} {f : Formula} {x : Ident} :
    Unbound x (f.renameApart alphabet) ↔ Unbound x f := by
  rw [renameApart, (renamed_renameApart.{0} alphabet f).unbound]
  exact exists_eq_right

theorem nodup_names_renameApart (alphabet : Alphabet) (f : Formula) :
    ((f.renameApart alphabet).binders.map Ident.name).Nodup :=
  (renamed_renameApart.{0} alphabet f).names.nodup

theorem name_ne_of_binder {alphabet : Alphabet} {f : Formula} {x y : Ident}
    (hx : x ∈ (f.renameApart alphabet).binders) (hy : y ∈ f.free) : x.name ≠ y.name := by
  intro same
  rcases VarSet.mem_iff.1 hy with ⟨z, hz, rfl⟩
  refine (renamed_renameApart.{0} alphabet f).names.fresh x.name (List.mem_map_of_mem hx) ?_
  exact same ▸ List.mem_map_of_mem hz

theorem boundApart_renameApart (alphabet : Alphabet) {f : Formula} (named : f.BlankFree) :
    (f.renameApart alphabet).BoundApart where
  nodup := (nodup_names_renameApart alphabet f).of_map
  disjoint _ hx h :=
    name_ne_of_binder hx (named.mem_free_iff.2 (unbound_renameApart.1 h)) rfl

/-- A name that is introduced is a fresh one. -/
theorem fresh_of_renameApart {alphabet : Alphabet} {f : Formula} {n : String}
    (occurs : n ∈ (f.renameApart alphabet).names) :
    n ∈ f.names ∨ ∃ reserved, n = alphabet.fresh reserved := by
  rcases mem_names_iff.1 occurs with ⟨x, unbound | bound, rfl⟩
  · exact .inl (unbound_renameApart.1 unbound).name_mem
  · have names := (renamed_renameApart.{0} alphabet f).names
    exact names.added _ (names.mem_taken (List.mem_map_of_mem bound))

/-- Either no name is drawn, or the first one is the fresh name for those of the formula. -/
theorem fresh_mem_renameApart (alphabet : Alphabet) (f : Formula) :
    (f.apart alphabet [] { bound := f.free.toList.map (·.name), taken := f.names }).2.taken =
      f.names ∨ alphabet.fresh f.names ∈ (f.renameApart alphabet).names := by
  refine (renamed_renameApart.{0} alphabet f).names.drawn.imp_right fun drawn => ?_
  rcases List.mem_map.1 drawn with ⟨x, bound, name⟩
  exact name ▸ name_mem_of_binders bound

theorem names_renameApart_subset {alphabet : Alphabet} {f : Formula}
    (same : (f.apart alphabet []
      { bound := f.free.toList.map (·.name), taken := f.names }).2.taken = f.names) :
    (f.renameApart alphabet).names ⊆ f.names := by
  intro n hn
  rcases mem_names_iff.1 hn with ⟨x, unbound | bound, rfl⟩
  · exact (unbound_renameApart.1 unbound).name_mem
  · rw [← same]
    exact (renamed_renameApart.{0} alphabet f).names.mem_taken (List.mem_map_of_mem bound)

theorem blankFree_renameApart {alphabet : Alphabet} {f : Formula} (named : f.BlankFree)
    (blank : Variable.blankName ∉ alphabet.symbols) : (f.renameApart alphabet).BlankFree := by
  intro occurs
  rcases fresh_of_renameApart occurs with old | ⟨reserved, drawn⟩
  · exact named old
  · exact Alphabet.fresh_ne_blankName blank reserved drawn.symm

/-- Renaming apart keeps the free variables, and the meaning if the blank is read as an ordinary
variable. No name is bound twice, and none that a free variable has. With independent blanks the
meaning of a formula without blanks is kept unless the blank is drawn, for which it has to be a
symbol of the alphabet. -/
theorem renameApart_equivalent (alphabet : Alphabet) (f : Formula) :
    Equivalent.{u} (f.renameApart alphabet) f ∧
      (∀ x, x ∈ (f.renameApart alphabet).free ↔ x ∈ f.free) ∧
      ((f.renameApart alphabet).binders.map Ident.name).Nodup ∧
      (∀ x ∈ (f.renameApart alphabet).binders, ∀ y, y ∈ f.free → x.name ≠ y.name) ∧
      (f.BlankFree → Variable.blankName ∉ alphabet.symbols →
        (f.renameApart alphabet).BlankFree) ∧
      (f.BlankFree → (f.renameApart alphabet).BlankFree →
        EquivalentApart.{u} (f.renameApart alphabet) f) := by
  have equivalent := equivalent_renameApart.{u} alphabet f
  refine ⟨equivalent, fun x => ?_, nodup_names_renameApart alphabet f,
    fun x hx y hy => name_ne_of_binder hx hy, blankFree_renameApart,
    fun named renamed => equivalent.apart renamed named⟩
  rw [mem_free_iff, mem_free_iff, unbound_renameApart]

/-- `A(x) ∧ ∃ x (B(x) ∧ C(x))`, with the given name for the second `x` -/
def reused (name : String) : Formula :=
  let x : Variable := { name := "x" }
  let y : Variable := { name := name }
  .junction .and [
    .predicate ⟨"A", [.var x], .undefined⟩,
    .quant .exist (.ofList [y]) (.junction .and [
      .predicate ⟨"B", [.var y], .undefined⟩, .predicate ⟨"C", [.var y], .undefined⟩])]

theorem renameApart_reused (alphabet : Alphabet) :
    (reused "x").renameApart alphabet = reused (alphabet.fresh ["x"]) :=
  rfl

theorem reused_renameApart_equivalentApart :
    (reused "x").BlankFree ∧ Variable.blankName ∉ Alphabet.latin.symbols ∧
      EquivalentApart.{u} ((reused "x").renameApart .latin) (reused "x") := by
  have named : (reused "x").BlankFree := by decide
  have absent : Variable.blankName ∉ Alphabet.latin.symbols := by decide
  have renamed := renameApart_equivalent.{u} .latin (reused "x")
  exact ⟨named, absent, renamed.2.2.2.2.2 named (renamed.2.2.2.2.1 named absent)⟩

/-- `B` holds of truth only, `C` of falsity only, and all else holds. -/
def opposed : Interpretation Bool where
  relation predicate row :=
    (predicate = "B" → row = [true]) ∧ (predicate = "C" → row = [false])
  object _ := true
  data _ := true

/-- Whatever holds of some value holds of a blank. -/
theorem holdsApart_opposed {predicate : String} {y : Variable} (blank : y.isBlank = true)
    (v : Valuation Bool) :
    (Formula.predicate ⟨predicate, [.var y], .undefined⟩).HoldsApart opposed v := by
  refine ⟨[decide (predicate ≠ "C")], ⟨?_, ?_⟩, .cons (.inl ⟨y, rfl, blank⟩) .nil⟩
  · rintro rfl
    rfl
  · rintro rfl
    rfl

theorem holdsApart_opposed_named (v : Valuation Bool) :
    (Formula.predicate ⟨"A", [.var { name := "x" }], .undefined⟩).HoldsApart opposed v := by
  refine ⟨[v ⟨"x", none⟩], ⟨fun same => ?_, fun same => ?_⟩, .cons (.inr rfl) .nil⟩
  · exact absurd same (by decide)
  · exact absurd same (by decide)

theorem not_holdsApart_opposed (v : Valuation Bool) :
    ¬ (reused "x").HoldsApart opposed v := by
  rintro ⟨-, ⟨w, -, ⟨row, left, first⟩, ⟨row', right, second⟩, -⟩, -⟩
  have named : ∀ y : Variable, Term.var y ∈ [Term.var { name := "x" }] → y.isBlank = false := by
    simp [Variable.isBlank, Variable.blankName]
  have same := (forall₂_denotes_iff_map named).1 first
  have same' := (forall₂_denotes_iff_map named).1 second
  have both : [true] = [false] :=
    (left.1 rfl).symm.trans (same.symm.trans (same'.trans (right.2 rfl)))
  cases both

/-- Two blanks need not have the same value, as two occurrences of `x` must. -/
theorem reused_renameApart_not_equivalentApart :
    (reused "x").BlankFree ∧ (reused "x").renameApart .blanks = reused Variable.blankName ∧
      ¬ EquivalentApart.{0} ((reused "x").renameApart .blanks) (reused "x") := by
  have drawn : (reused "x").renameApart .blanks = reused Variable.blankName := by
    rw [renameApart_reused, Alphabet.fresh_blanks (by decide)]
  refine ⟨by decide, drawn, fun equivalent => not_holdsApart_opposed (fun _ => true) ?_⟩
  refine (equivalent Bool opposed fun _ => true).1 ?_
  rw [drawn]
  refine ⟨holdsApart_opposed_named _, ⟨fun _ => true, fun _ _ => rfl, ?_⟩, trivial⟩
  exact ⟨holdsApart_opposed rfl _, holdsApart_opposed rfl _, trivial⟩

end Formula
end QueryCalculus
