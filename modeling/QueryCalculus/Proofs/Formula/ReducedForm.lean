import Mathlib.Logic.Function.Iterate
import QueryCalculus.Proofs.Formula.FlatForm
import QueryCalculus.Settings

/-!
# Reduced formulas

- `Lightens` : a formula is kept as it is, or something lighter takes its place
- `simplifying_lightens` : every step of simplification is of this kind
- `simplifyWithin_eq_iterate` : the passes end, and the last of them changes nothing
- `ReducedAt` : no part of a junction and no bound variable of the node is superfluous
- `reduced_of_stable` : a formula that a pass does not change is flat and reduced at every node
- `optimize_reduced`, `Settings.normalize_idempotent` : simplified formulas are reduced, and they
  stay as they are

A pass is made of many steps. None of them makes a formula heavier, so if the whole pass changes
nothing then neither does any of its steps.
-/

namespace QueryCalculus

namespace VarSet

theorem length_place_le (keep : Bool) (x : Variable) (ys : List Variable) :
    (place keep x ys).length ≤ ys.length + 1 := by
  induction ys with
  | nil => simp [place]
  | cons y ys ih =>
    unfold place
    split
    · simp
    · simp
    · simpa using ih

theorem size_union_le (s t : VarSet) : (s.union t).size ≤ s.size + t.size := by
  have extended : ∀ (xs : List Variable) (s : VarSet), (s.extend xs).size ≤ s.size + xs.length := by
    intro xs
    induction xs with
    | nil => exact fun s => Nat.le_refl _
    | cons x xs ih =>
      intro s
      have step : (s.insert x).size ≤ s.size + 1 := length_place_le true x s.toList
      have rest : (s.extend (x :: xs)).size ≤ (s.insert x).size + xs.length := ih (s.insert x)
      rw [List.length_cons]
      omega
  exact extended t.toList s

theorem filter_eq_or_size_lt (keep : Variable → Bool) (s : VarSet) :
    s.filter keep = s ∨ (s.filter keep).size < s.size := by
  have kept : (s.toList.filter keep).Sublist s.toList := List.filter_sublist
  rcases Nat.lt_or_eq_of_le kept.length_le with fewer | all
  · exact .inr fewer
  · exact .inl (ext_toList (kept.eq_of_length all))

end VarSet

namespace Formula

variable {c : Connective} {q : Quantifier} {vars : VarSet} {f g h body : Formula}
  {parts : List Formula}

/-! ## Equal formulas -/

theorem same_symm {f g : Formula} (h : f.same g = true) : g.same f = true := by
  refine same_induction (P := fun f g => g.same f = true) ?atom ?junction ?neg ?quant h
  case atom => exact fun _ _ equal => same_atom_symm equal
  case junction => exact fun _ _ _ pairs => same_junction_iff.2 ⟨rfl, pairs.flip⟩
  case neg => exact fun _ _ body => body
  case quant =>
    intro q xs ys f g bound body
    exact same_quant_iff.2 ⟨rfl, VarSet.beq_iff.2 (VarSet.beq_iff.1 bound).symm, body⟩

theorem same_comm (f g : Formula) : f.same g = g.same f :=
  Bool.eq_iff_iff.2 ⟨same_symm, same_symm⟩

/-! ## Weight -/

theorem weight_junction : (junction c parts).weight = weightAll parts + 1 :=
  rfl

theorem weight_neg : (neg body).weight = body.weight + 1 :=
  rfl

theorem weight_quant : (quant q vars body).weight = vars.size + body.weight + 1 :=
  rfl

theorem weightAll_cons : weightAll (f :: parts) = f.weight + weightAll parts :=
  rfl

theorem weightAll_singleton : weightAll [f] = f.weight :=
  rfl

theorem weight_pos (f : Formula) : 0 < f.weight := by
  cases f <;> exact Nat.succ_pos _

theorem weight_eq_of_same (equal : f.same g = true) : f.weight = g.weight := by
  refine same_induction (P := fun f g => f.weight = g.weight) ?atom ?junction ?neg ?quant equal
  case atom => exact fun _ _ _ => rfl
  case junction =>
    intro c fs gs pairs
    have parts : weightAll fs = weightAll gs := by
      induction pairs with
      | nil => rfl
      | cons head tail ih => rw [weightAll_cons, weightAll_cons, head, ih]
    rw [weight_junction, weight_junction, parts]
  case neg => exact fun _ _ body => congrArg (· + 1) body
  case quant =>
    intro q xs ys f g bound body
    have sizes := congrArg List.length (VarSet.beq_iff.1 bound)
    rw [VarSet.idents, VarSet.idents, List.length_map, List.length_map] at sizes
    rw [weight_quant, weight_quant, VarSet.size, VarSet.size, sizes, body]

theorem weightAll_append (fs gs : List Formula) :
    weightAll (fs ++ gs) = weightAll fs + weightAll gs := by
  induction fs with
  | nil => exact (Nat.zero_add _).symm
  | cons f fs ih => rw [List.cons_append, weightAll_cons, weightAll_cons, ih, Nat.add_assoc]

/-- Splicing loses the junctions around the parts that it merges. -/
theorem weightAll_splice (c : Connective) (parts : List Formula) :
    weightAll (splice c parts) ≤ weightAll parts ∧
      ∀ f ∈ parts, f.connective? = some c → weightAll (splice c parts) < weightAll parts := by
  induction parts with
  | nil => exact ⟨Nat.le_refl _, fun f hf => absurd hf List.not_mem_nil⟩
  | cons part parts ih =>
    have total : weightAll (splice c (part :: parts)) =
        weightAll ((part.partsOf? c).getD [part]) + weightAll (splice c parts) := by
      rw [← weightAll_append]
      rfl
    have rest := ih.1
    rw [total, weightAll_cons]
    by_cases here : part.connective? = some c
    · cases part with
      | junction d fs =>
        cases here
        -- the parts are kept without the junction around them
        have lost : weightAll (((junction c fs).partsOf? c).getD [junction c fs]) <
            (junction c fs).weight := by simp [partsOf?, weight_junction]
        exact ⟨by omega, fun f hf nested => by omega⟩
      | _ => cases here
    · have kept : weightAll ((part.partsOf? c).getD [part]) = part.weight := by
        rw [partsOf?_eq_none here, Option.getD_none, weightAll_singleton]
      refine ⟨by omega, fun f hf nested => ?_⟩
      rcases List.mem_cons.1 hf with rfl | hf
      · exact absurd nested here
      · have lighter := ih.2 f hf nested
        omega

/-! ## Steps that make formulas lighter -/

/-- The formula is kept, or a lighter one takes its place. -/
def Lightens (f g : Formula) : Prop :=
  g = f ∨ g.weight < f.weight

theorem Lightens.le (step : Lightens f g) : g.weight ≤ f.weight := by
  rcases step with rfl | lighter
  · exact Nat.le_refl _
  · exact Nat.le_of_lt lighter

theorem Lightens.trans (first : Lightens f g) (second : Lightens g h) : Lightens f h := by
  rcases second with rfl | lighter
  · exact first
  · exact .inr (Nat.lt_of_lt_of_le lighter first.le)

/-- Steps that lead back to the formula have not left it. -/
theorem Lightens.squeeze (first : Lightens f g) (second : Lightens g h) (back : h = f) : g = f := by
  rcases first with same | lighter
  · exact same
  · have heavier := second.le
    rw [back] at heavier
    omega

theorem lightens_junction {fs gs : List Formula} (weights : gs = fs ∨ weightAll gs < weightAll fs) :
    Lightens (junction c fs) (junction c gs) := by
  rcases weights with rfl | lighter
  · exact .inl rfl
  · exact .inr (Nat.succ_lt_succ lighter)

theorem lightens_parts {fs gs : List Formula} (each : List.Forall₂ Lightens fs gs) :
    Lightens (junction c fs) (junction c gs) := by
  refine lightens_junction ?_
  induction each with
  | nil => exact .inl rfl
  | cons head tail ih =>
    have here := head.le
    rw [weightAll_cons, weightAll_cons]
    rcases ih with rfl | lighter
    · rcases head with rfl | lighter
      · exact .inl rfl
      · exact .inr (by omega)
    · exact .inr (by omega)

theorem lightens_neg (step : Lightens f g) : Lightens (neg f) (neg g) := by
  rcases step with rfl | lighter
  · exact .inl rfl
  · exact .inr (Nat.succ_lt_succ lighter)

theorem lightens_quant (step : Lightens f g) : Lightens (quant q vars f) (quant q vars g) := by
  rcases step with rfl | lighter
  · exact .inl rfl
  · exact .inr (Nat.succ_lt_succ (Nat.add_lt_add_left lighter vars.size))

theorem lightens_splice (c : Connective) (parts : List Formula) :
    Lightens (junction c parts) (junction c (splice c parts)) := by
  by_cases unnested : ∀ f ∈ parts, f.connective? ≠ some c
  · exact .inl (congrArg _ (splice_eq_self unnested))
  · push Not at unnested
    rcases unnested with ⟨f, hf, nested⟩
    exact .inr (Nat.succ_lt_succ ((weightAll_splice c parts).2 f hf nested))

theorem lightens_union (q : Quantifier) (vars inner : VarSet) (f : Formula) :
    Lightens (quant q vars (quant q inner f)) (quant q (vars.union inner) f) := by
  refine .inr ?_
  have merged := vars.size_union_le inner
  rw [weight_quant, weight_quant, weight_quant]
  omega

theorem lightens_sublist {fs gs : List Formula} (sub : gs.Sublist fs) :
    Lightens (junction c fs) (junction c gs) := by
  refine lightens_junction ?_
  induction sub with
  | slnil => exact .inl rfl
  | cons f sub ih =>
    have positive := f.weight_pos
    rw [weightAll_cons]
    rcases ih with rfl | lighter <;> exact .inr (by omega)
  | cons_cons f sub ih =>
    rw [weightAll_cons, weightAll_cons]
    rcases ih with rfl | lighter
    · exact .inl rfl
    · exact .inr (by omega)

theorem lightens_inter (q : Quantifier) (vars : VarSet) (body : Formula) :
    Lightens (quant q vars body) (quant q (vars.inter body.free) body) := by
  rcases VarSet.filter_eq_or_size_lt body.free.contains vars with all | fewer
  · exact .inl (congrArg (quant q · body) all)
  · exact .inr (Nat.succ_lt_succ (Nat.add_lt_add_right fewer body.weight))

theorem rewriting_lightens : Rewriting Lightens where
  refl _ := .inl rfl
  trans := Lightens.trans
  junction := lightens_parts
  neg := lightens_neg
  quant := lightens_quant
  negNeg f := .inr (Nat.lt_succ_of_lt (Nat.lt_succ_self f.weight))
  single _ f := .inr (Nat.lt_succ_self f.weight)
  vacuous _ vars f _ := .inr (Nat.lt_succ_of_le (Nat.le_add_left f.weight vars.size))
  nested := lightens_splice
  repeated := lightens_union

theorem simplifying_lightens : Simplifying Lightens :=
  rewriting_lightens.simplifying (fun _ _ _ => lightens_sublist) lightens_inter

/-! ## Passes -/

theorem simplify_eq_of_same (equal : f.simplify.same f = true) : f.simplify = f := by
  rcases simplifying_lightens.simplify f with kept | lighter
  · exact kept
  · rw [weight_eq_of_same equal] at lighter
    exact absurd lighter (Nat.lt_irrefl _)

theorem simplifyWithin_succ {n : Nat} :
    simplifyWithin (n + 1) f =
      if f.simplify == f then f.simplify else simplifyWithin n f.simplify :=
  rfl

/-- With more passes than the formula has weight the last one changes nothing, and it is the first
of this kind. -/
theorem simplifyWithin_eq_iterate {n : Nat} (enough : f.weight < n) :
    ∃ k ≤ f.weight, simplifyWithin n f = simplify^[k + 1] f ∧
      simplify^[k + 1] f = simplify^[k] f ∧
      ∀ m < k, (simplify^[m + 1] f).same (simplify^[m] f) = false := by
  induction n generalizing f with
  | zero => omega
  | succ n ih =>
    rw [simplifyWithin_succ]
    by_cases done : (f.simplify == f) = true
    · rw [if_pos done]
      exact ⟨0, Nat.zero_le _, rfl, simplify_eq_of_same done,
        fun m hm => absurd hm (Nat.not_lt_zero m)⟩
    · rw [if_neg done]
      -- a pass that changes the formula makes it lighter, so that one pass less is enough
      have changed : f.simplify ≠ f := fun same => done (same.symm ▸ f.same_refl)
      have lighter := (simplifying_lightens.simplify f).resolve_left changed
      rcases ih (f := f.simplify) (by omega) with ⟨k, bound, result, last, before⟩
      refine ⟨k + 1, by omega, result, last, fun m hm => ?_⟩
      cases m with
      | zero => exact Bool.eq_false_iff.2 done
      | succ m => exact before m (by omega)

theorem simplify_optimize (f : Formula) : f.optimize.simplify = f.optimize := by
  rcases simplifyWithin_eq_iterate (f := f) (Nat.lt_succ_self f.weight) with
    ⟨k, -, (result : f.optimize = _), last, -⟩
  calc
    f.optimize.simplify = simplify (simplify^[k] f) := by rw [result, last]
    _ = f.optimize := by rw [result, Function.iterate_succ_apply']

/-! ## Formulas that a pass does not change -/

theorem unwrap_lightens (f : Formula) : Lightens f f.unwrap :=
  rewriting_lightens.unwrap f

theorem unwrap_ne_of_lighter (lighter : f.weight < g.weight) : f.unwrap ≠ g := by
  intro same
  have shrunk := (unwrap_lightens f).le
  rw [same] at shrunk
  omega

theorem flatAt_junction (stable : (junction c parts).flattenRoot = junction c parts) :
    (junction c parts).FlatAt := by
  have unwrapped : Lightens (junction c parts) (junction c (parts.map unwrap)) :=
    rewriting_lightens.parts fun f _ => unwrap_lightens f
  have spliced := lightens_splice c (parts.map unwrap)
  have root := unwrap_lightens (junction c (splice c (parts.map unwrap)))
  -- the three steps lead back to the junction, so none of them has changed it
  have kept : parts.map unwrap = parts := by
    injection unwrapped.squeeze (spliced.trans root) stable
  have whole : splice c (parts.map unwrap) = parts := by
    injection (unwrapped.trans spliced).squeeze root stable
  have last : (junction c (splice c (parts.map unwrap))).unwrap = junction c parts := stable
  rw [whole] at last
  refine ⟨fun single => ?_, fun f hf nested => ?_⟩
  · rcases List.length_eq_one_iff.1 single with ⟨part, rfl⟩
    refine unwrap_ne_of_lighter (f := part) ?_ last
    rw [weight_junction, weightAll_singleton]
    omega
  · have lighter := (weightAll_splice c parts).2 f hf nested
    rw [kept] at whole
    rw [whole] at lighter
    exact Nat.lt_irrefl _ lighter

theorem flatAt_neg (stable : (neg body).flattenRoot = neg body) : (neg body).FlatAt := by
  have inside := lightens_neg (unwrap_lightens body)
  have kept := inside.squeeze (unwrap_lightens _) stable
  have last : (neg body.unwrap).unwrap = neg body := stable
  rw [kept] at last
  rintro inner rfl
  refine unwrap_ne_of_lighter (f := inner) ?_ last
  rw [weight_neg, weight_neg]
  omega

theorem flatAt_quant (stable : (quant q vars body).flattenRoot = quant q vars body) :
    (quant q vars body).FlatAt := by
  have inside : Lightens (quant q vars body) (quant q vars body.unwrap) :=
    lightens_quant (unwrap_lightens body)
  have merged := rewriting_lightens.mergeQuant q vars body.unwrap
  have root := unwrap_lightens (mergeQuant q vars body.unwrap)
  have kept : body.unwrap = body := by
    injection inside.squeeze (merged.trans root) stable
  have whole := (inside.trans merged).squeeze root stable
  have last : (mergeQuant q vars body.unwrap).unwrap = quant q vars body := stable
  rw [whole] at last
  refine ⟨?_, fun nested => ?_⟩
  · rw [Bool.eq_false_iff]
    intro empty
    have needless : (quant q vars body).unwrap = body.unwrap := if_pos empty
    refine unwrap_ne_of_lighter ?_ (needless.symm.trans last)
    rw [weight_quant]
    omega
  · cases body with
    | quant r inner g =>
      cases nested
      -- merging the quantifiers would have lost one of them
      have lighter := (rewriting_lightens.mergeQuant q (vars.union inner) g).le
      have joint := vars.size_union_le inner
      have joined : mergeQuant q vars (quant q inner g) = mergeQuant q (vars.union inner) g :=
        if_pos rfl
      rw [kept, joined] at whole
      rw [whole, weight_quant, weight_quant, weight_quant] at lighter
      omega
    | _ => cases nested

theorem flatAt_of_flattenRoot (stable : f.flattenRoot = f) : f.FlatAt := by
  cases f with
  | atom a => trivial
  | junction c parts => exact flatAt_junction stable
  | neg body => exact flatAt_neg stable
  | quant q vars body => exact flatAt_quant stable

theorem pairwise_of_eraseDups (stable : parts.eraseDups = parts) :
    parts.Pairwise fun f g => f.same g = false := by
  induction parts with
  | nil => exact .nil
  | cons f fs ih =>
    rw [List.eraseDups_cons] at stable
    injection stable with _ stable
    -- what is equal to the first part would be missing behind it
    have kept : (fs.filter fun g => !g == f) = fs := by
      refine List.filter_sublist.eq_of_length (Nat.le_antisymm (List.length_filter_le _ fs) ?_)
      have shorter := (eraseDups_sublist (fs.filter fun g => !g == f)).length_le
      rwa [stable] at shorter
    rw [kept] at stable
    refine .cons (fun g hg => ?_) (ih stable)
    have differs : (!g.same f) = true := List.filter_eq_self.1 kept g hg
    rw [same_comm]
    simpa using differs

/-- What a pass does to the parts of a junction, if it does not change them. -/
theorem stable_parts (stable : dropRedundant c parts = parts) :
    (∀ f ∈ parts, isAbsorbed c (parts.filter (·.predicate?.isSome)) f = false) ∧
      ∀ f ∈ parts, isNeutral c f = false := by
  let atoms := parts.filter (·.predicate?.isSome)
  let unabsorbed := parts.filter (!isAbsorbed c atoms ·)
  let reduced := unabsorbed.map (reduceNegated c atoms)
  have first : Lightens (junction c parts) (junction c unabsorbed) :=
    lightens_sublist List.filter_sublist
  have second : Lightens (junction c unabsorbed) (junction c reduced) :=
    rewriting_lightens.parts fun f _ =>
      rewriting_lightens.reduceNegated (fun _ _ _ => lightens_sublist) c atoms f
  have third : Lightens (junction c reduced) (junction c (dropRedundant c parts)) :=
    lightens_sublist List.filter_sublist
  -- the parts that are left are those of the start, so they are all there after every step
  have back : junction c (dropRedundant c parts) = junction c parts := congrArg _ stable
  have allKept : unabsorbed = parts := by
    injection first.squeeze (second.trans third) back
  have allReduced : reduced = parts := by
    injection (first.trans second).squeeze third back
  constructor
  · intro f hf
    simpa using List.filter_eq_self.1 allKept f hf
  · have needed : reduced.filter (!isNeutral c ·) = reduced := stable.trans allReduced.symm
    intro f hf
    simpa using List.filter_eq_self.1 needed f (allReduced.symm ▸ hf)

/-- What happens to a junction once its parts are simplified, if that does not change it. -/
theorem stable_simplifyJunction (stable : simplifyJunction c parts = junction c parts) :
    (junction c parts).flattenRoot = junction c parts ∧ parts.eraseDups = parts ∧
      dropRedundant c parts = parts := by
  have flat := rewriting_lightens.flattenRoot (junction c parts)
  simp only [simplifyJunction] at stable
  split at stable
  · rename_i spliced found
    have root := eq_junction_of_partsOf? found
    rw [root] at flat
    have unique : Lightens (junction c spliced) (junction c spliced.eraseDups) :=
      lightens_sublist (eraseDups_sublist spliced)
    have dropped := rewriting_lightens.dropRedundant (fun _ _ _ => lightens_sublist) c
      spliced.eraseDups
    have unwrapped := unwrap_lightens (junction c (dropRedundant c spliced.eraseDups))
    -- flattening, erasing and dropping each give the junction back
    have first : spliced = parts := by
      injection flat.squeeze (unique.trans (dropped.trans unwrapped)) stable
    have second : spliced.eraseDups = parts := by
      injection (flat.trans unique).squeeze (dropped.trans unwrapped) stable
    have third : dropRedundant c spliced.eraseDups = parts := by
      injection (flat.trans (unique.trans dropped)).squeeze unwrapped stable
    subst first
    rw [second] at third
    exact ⟨root, second, third⟩
  · -- the result is a junction of the same kind
    rename_i missing
    rw [stable, partsOf?, if_pos rfl] at missing
    cases missing

theorem stable_junction (stable : (junction c parts).simplify = junction c parts) :
    (∀ f ∈ parts, f.simplify = f) ∧ (junction c parts).flattenRoot = junction c parts ∧
      parts.eraseDups = parts ∧ dropRedundant c parts = parts := by
  have made : simplifyJunction c (simplifyAll parts) = junction c parts := stable
  rw [simplifyAll_eq_map] at made
  have each : ∀ f : Formula, Lightens f f.simplify.unwrap := fun f =>
    (simplifying_lightens.simplify f).trans (unwrap_lightens _)
  have inside : Lightens (junction c parts) (junction c (parts.map (·.simplify.unwrap))) :=
    rewriting_lightens.parts fun f _ => each f
  have kept : parts.map (·.simplify.unwrap) = parts := by
    injection inside.squeeze (simplifying_lightens.simplifyJunction c _) made
  rw [kept] at made
  refine ⟨fun f hf => ?_, stable_simplifyJunction made⟩
  have here : f.simplify.unwrap = f := map_eq_self_iff.1 kept f hf
  exact (simplifying_lightens.simplify f).squeeze (unwrap_lightens _) here

theorem stable_neg (stable : (neg body).simplify = neg body) :
    body.simplify = body ∧ (neg body).flattenRoot = neg body := by
  have inside := (simplifying_lightens.simplify body).trans (unwrap_lightens _)
  have kept : body.simplify.unwrap = body := by
    injection (lightens_neg inside).squeeze (unwrap_lightens _) stable
  have below := (simplifying_lightens.simplify body).squeeze (unwrap_lightens _) kept
  refine ⟨below, ?_⟩
  have made : (neg body.simplify.unwrap).unwrap = neg body := stable
  rw [below] at made
  exact made

theorem stable_quant (stable : (quant q vars body).simplify = quant q vars body) :
    body.simplify = body ∧ (quant q vars body).flattenRoot = quant q vars body ∧
      vars.inter body.free = vars := by
  have below := (simplifying_lightens.simplify body).trans (unwrap_lightens _)
  have inside : Lightens (quant q vars body) (quant q vars body.simplify.unwrap) :=
    lightens_quant below
  have flat := rewriting_lightens.flattenRoot (quant q vars body.simplify.unwrap)
  have restricted := simplifying_lightens.restrictQuant
    (quant q vars body.simplify.unwrap).flattenRoot
  have kept : body.simplify.unwrap = body := by
    injection inside.squeeze (flat.trans restricted) stable
  have whole := (inside.trans flat).squeeze restricted stable
  rw [kept] at whole
  refine ⟨(simplifying_lightens.simplify body).squeeze (unwrap_lightens _) kept, whole, ?_⟩
  have made : restrictQuant (quant q vars body.simplify.unwrap).flattenRoot = quant q vars body :=
    stable
  rw [kept, whole] at made
  injection (lightens_inter q vars body).squeeze (unwrap_lightens _) made

/-! ## Reduced nodes -/

/-- The parts of a junction are different from each other, none of them is evidently neutral, and
none becomes superfluous by an atom beside it, also from below existential quantifiers. A quantifier
binds only what is free in its body. -/
def ReducedAt : Formula → Prop
  | .junction c parts =>
    (parts.Pairwise fun f g => f.same g = false) ∧
      (c = .and → ∀ f ∈ parts, f.isTautology = false) ∧
      (c = .or → ∀ f ∈ parts, f.isContradiction = false) ∧
      ∀ f ∈ parts, ∀ inner, f.stripExists = .junction c.dual inner →
        ∀ g ∈ inner, ∀ a ∈ parts, a.predicate?.isSome = true → g.same a = false
  | .quant _ vars body => ∀ x : Ident, x ∈ vars → x ∈ body.free
  | _ => True

theorem not_same_of_unabsorbed {atoms inner : List Formula} {a : Formula}
    (unabsorbed : isAbsorbed c atoms f = false) (below : f.stripExists = .junction c.dual inner)
    (hg : g ∈ inner) (ha : a ∈ atoms) : g.same a = false := by
  rw [isAbsorbed, below, partsOf?, if_pos rfl] at unabsorbed
  have absent := List.any_eq_false.1 unabsorbed g hg
  rw [List.contains_iff_exists_mem_beq] at absent
  push Not at absent
  have differs : ¬ g.same a = true := absent a ha
  simpa using differs

/-- A formula that a pass does not change has nothing left to simplify at any of its nodes. -/
theorem reduced_of_stable (stable : f.simplify = f) : ∀ g ∈ f.nodes, g.FlatAt ∧ g.ReducedAt := by
  induction f with
  | atom a => exact forall_nodes_atom.2 ⟨trivial, trivial⟩
  | junction c parts ih =>
    rcases stable_junction stable with ⟨inside, flat, unique, needed⟩
    refine forall_nodes_junction.2
      ⟨⟨flatAt_of_flattenRoot flat, ?_⟩, fun f hf => ih f hf (inside f hf)⟩
    rcases stable_parts needed with ⟨unabsorbed, unneutral⟩
    refine ⟨pairwise_of_eraseDups unique, ?_, ?_, ?_⟩
    · rintro rfl
      exact unneutral
    · rintro rfl
      exact unneutral
    · intro f hf inner below g hg a ha atomic
      exact not_same_of_unabsorbed (unabsorbed f hf) below hg (List.mem_filter.2 ⟨ha, atomic⟩)
  | neg body ih =>
    rcases stable_neg stable with ⟨inside, flat⟩
    exact forall_nodes_neg.2 ⟨⟨flatAt_of_flattenRoot flat, trivial⟩, ih inside⟩
  | quant q vars body ih =>
    rcases stable_quant stable with ⟨inside, flat, used⟩
    refine forall_nodes_quant.2 ⟨⟨flatAt_of_flattenRoot flat, fun x hx => ?_⟩, ih inside⟩
    rw [← used] at hx
    exact (VarSet.mem_inter.1 hx).2

theorem flat_optimize (f : Formula) : f.optimize.Flat :=
  fun g hg => (reduced_of_stable (simplify_optimize f) g hg).1

theorem optimize_eq_self (stable : f.simplify = f) : f.optimize = f := by
  have done : f.simplify.same f = true := by
    rw [stable]
    exact f.same_refl
  calc
    f.optimize = f.simplify := if_pos done
    _ = f := stable

/-- The passes of simplification end: after finitely many of them, no more than the weight of the
formula, the next one gives an equal formula for the first time, and this is the simplified formula.
At every node it is flat and reduced. -/
theorem optimize_reduced (f : Formula) :
    (∃ n ≤ f.weight, f.optimize = simplify^[n + 1] f ∧
      (simplify^[n + 1] f).same (simplify^[n] f) = true ∧
      ∀ m < n, (simplify^[m + 1] f).same (simplify^[m] f) = false) ∧
    ∀ g ∈ f.optimize.nodes, g.FlatAt ∧ g.ReducedAt := by
  refine ⟨?passes, reduced_of_stable (simplify_optimize f)⟩
  rcases simplifyWithin_eq_iterate (f := f) (Nat.lt_succ_self f.weight) with
    ⟨n, bound, result, last, before⟩
  refine ⟨n, bound, result, ?_, before⟩
  rw [last]
  exact same_refl _

end Formula

namespace Settings

open Formula

/-- Normal forms are normal forms of themselves, with or without simplification: simplified formulas
are flat, and simplification keeps them. -/
theorem normalize_idempotent (s : Settings) (f : Formula) :
    s.normalize (s.normalize f) = s.normalize f ∧
      f.optimize.flatten = f.optimize ∧ f.optimize.optimize = f.optimize := by
  have flat : ∀ f : Formula, f.optimize.flatten = f.optimize := fun f =>
    flatten_eq_self (flat_optimize f)
  have simple : ∀ f : Formula, f.optimize.optimize = f.optimize := fun f =>
    optimize_eq_self (simplify_optimize f)
  refine ⟨?_, flat f, simple f⟩
  unfold normalize
  split
  · rw [flat, simple]
  · exact flatten_eq_self (flat_flatten f)

end Settings
end QueryCalculus
