import QueryCalculus.Proofs.Formula.PrenexVariables

/-!
# Conversion to prenex form

- `ordered_outline`, `layered_outline` : how quantifiers are nested does not depend on names
- `layered` : negations at atoms only, and no existential quantifier inside of a universal one
- `kinds_hoist` : such a formula gets one existential block around one universal block
- `prenex_below` : the meaning of a prenex form, compared to that of the formula
- `prenex_layered` : the prenex forms of layered formulas

Quantifiers are renamed apart before they are moved, so what is asked of a formula here must be seen
from its outline.
-/

namespace QueryCalculus

universe u

namespace Formula

/-! ## Nesting of quantifiers -/

mutual

/-- Negations stand at atoms only and no existential quantifier inside of a universal one. If `q` is
the universal quantifier there are no existential ones at all. -/
def layered : Formula → Quantifier → Bool
  | .atom _, _ => true
  | .junction _ parts, q => layeredAll parts q
  | .neg (.atom _), _ => true
  | .neg _, _ => false
  | .quant r _ body, q => (r == .forAll || q == .exist) && body.layered r

def layeredAll : List Formula → Quantifier → Bool
  | [], _ => true
  | f :: fs, q => f.layered q && layeredAll fs q

end

theorem layeredAll_eq_all (fs : List Formula) (q : Quantifier) :
    layeredAll fs q = fs.all (layered · q) := by
  induction fs with
  | nil => rfl
  | cons f fs ih => simp [layeredAll, ih]

theorem layered_neg {body : Formula} {q : Quantifier} (h : (neg body).layered q = true) :
    ∃ a, body = .atom a := by
  cases body with
  | atom a => exact ⟨a, rfl⟩
  | _ => cases h

theorem layered_of_nodes {f : Formula} {q : Quantifier}
    (normal : ∀ body, .neg body ∈ f.nodes → ∃ a, body = .atom a)
    (order : ∀ vars body, .quant .forAll vars body ∈ f.nodes →
      ∀ inner g, .quant .exist inner g ∉ body.nodes)
    (only : q = .forAll → ∀ vars body, .quant .exist vars body ∉ f.nodes) :
    f.layered q = true := by
  induction f generalizing q with
  | atom a => rfl
  | junction c parts ih =>
    rw [layered, layeredAll_eq_all, List.all_eq_true]
    intro f hf
    have inside : ∀ g, g ∈ f.nodes → g ∈ (junction c parts).nodes := fun g hg =>
      mem_nodes_junction.2 (.inr ⟨f, hf, hg⟩)
    exact ih f hf (fun body hbody => normal body (inside _ hbody))
      (fun vars body hbody => order vars body (inside _ hbody))
      (fun same vars body hbody => only same vars body (inside _ hbody))
  | neg body ih =>
    rcases normal body List.mem_cons_self with ⟨a, rfl⟩
    rfl
  | quant r vars body ih =>
    have inside : ∀ g, g ∈ body.nodes → g ∈ (quant r vars body).nodes := fun g hg =>
      List.mem_cons_of_mem _ hg
    -- below a universal quantifier there are no existential ones
    have below : body.layered r = true := by
      refine ih (fun g hg => normal g (inside _ hg)) (fun xs g hg => order xs g (inside _ hg)) ?_
      rintro rfl
      exact order vars body List.mem_cons_self
    have allowed : (r == .forAll || q == .exist) = true := by
      cases r with
      | forAll => rfl
      | exist =>
        cases q with
        | exist => rfl
        | forAll => exact absurd List.mem_cons_self (only rfl vars body)
    rw [layered, allowed, below, Bool.true_and]

/-! ## Outlines -/

theorem isEmpty_outline (vars : VarSet) : vars.outline.isEmpty = vars.isEmpty := by
  rw [VarSet.outline]
  split
  · rename_i empty
    exact empty.symm
  · rename_i filled
    rw [Bool.eq_false_iff.2 filled]
    rfl

theorem all_map_outline {p : Formula → Bool} {parts : List Formula}
    (each : ∀ f ∈ parts, p f.outline = p f) : (parts.map outline).all p = parts.all p := by
  rw [Bool.eq_iff_iff, List.all_eq_true, List.all_eq_true, List.forall_mem_map]
  exact forall₂_congr fun f hf => by rw [each f hf]

theorem boundAs_outline (f : Formula) (q : Quantifier) :
    f.outline.boundAs q = [] ↔ f.boundAs q = [] := by
  induction f generalizing q with
  | atom a => exact Iff.rfl
  | junction c parts ih =>
    rw [outline, outlineAll_eq_map, boundAs, boundAs, boundAsAll_eq_flatMap, boundAsAll_eq_flatMap,
      List.flatMap_eq_nil_iff, List.flatMap_eq_nil_iff, List.forall_mem_map]
    exact forall₂_congr fun f hf => ih f hf q
  | neg body ih => exact ih q.dual
  | quant r vars body ih =>
    have listed : ∀ vars : VarSet, vars.idents = [] ↔ vars.isEmpty = true := fun vars => by
      rw [VarSet.idents, List.map_eq_nil_iff, VarSet.isEmpty, List.isEmpty_iff]
    rw [outline, boundAs, boundAs, List.append_eq_nil_iff, List.append_eq_nil_iff, ih]
    refine and_congr_left fun _ => ?_
    split
    · rw [listed, listed, isEmpty_outline]
    · exact Iff.rfl

theorem ordered_outline (f : Formula) (q : Quantifier) : f.outline.ordered q = f.ordered q := by
  induction f generalizing q with
  | atom a => rfl
  | junction c parts ih =>
    rw [outline, outlineAll_eq_map, ordered, ordered, orderedAll_eq_all, orderedAll_eq_all]
    exact all_map_outline fun f hf => ih f hf q
  | neg body ih => exact ih q.dual
  | quant r vars body ih =>
    have empty : (body.outline.boundAs q).isEmpty = (body.boundAs q).isEmpty := by
      rw [Bool.eq_iff_iff, List.isEmpty_iff, List.isEmpty_iff, boundAs_outline]
    rw [outline, ordered, ordered, ih, isEmpty_outline, empty]

theorem hoistable_outline (f : Formula) : f.outline.hoistable = f.hoistable := by
  induction f with
  | atom a => rfl
  | junction c parts ih => exact ordered_outline (.junction c parts) .exist
  | neg body ih => exact ih
  | quant r vars body ih => exact ih

theorem leaning_outline (f : Formula) : f.outline.leaning = f.leaning := by
  induction f with
  | atom a => rfl
  | junction c parts ih => rfl
  | neg body ih => exact congrArg Quantifier.dual ih
  | quant r vars body ih => exact ih

theorem layered_outline (f : Formula) (q : Quantifier) : f.outline.layered q = f.layered q := by
  induction f generalizing q with
  | atom a => rfl
  | junction c parts ih =>
    rw [outline, outlineAll_eq_map, layered, layered, layeredAll_eq_all, layeredAll_eq_all]
    exact all_map_outline fun f hf => ih f hf q
  | neg body ih =>
    cases body with
    | atom a => rfl
    | _ => rfl
  | quant r vars body ih => rw [outline, layered, layered, ih]

/-! ## Layered formulas -/

/-- In a layered formula all quantifiers act as what they are. -/
theorem ordered_of_layered {f : Formula} {q : Quantifier} (h : f.layered q = true) :
    f.ordered .exist = true ∧ (q = .forAll → f.boundAs .exist = []) := by
  induction f generalizing q with
  | atom a => exact ⟨rfl, fun _ => rfl⟩
  | junction c parts ih =>
    rw [layered, layeredAll_eq_all, List.all_eq_true] at h
    constructor
    · rw [ordered, orderedAll_eq_all, List.all_eq_true]
      exact fun f hf => (ih f hf (h f hf)).1
    · intro same
      rw [boundAs, boundAsAll_eq_flatMap, List.flatMap_eq_nil_iff]
      exact fun f hf => (ih f hf (h f hf)).2 same
  | neg body ih =>
    rcases layered_neg h with ⟨a, rfl⟩
    exact ⟨rfl, fun _ => rfl⟩
  | quant r vars body ih =>
    rw [layered, Bool.and_eq_true] at h
    have inner := ih h.2
    cases r with
    | exist =>
      refine ⟨by rw [ordered, inner.1]; rfl, ?_⟩
      rintro rfl
      exact absurd h.1 Bool.false_ne_true
    | forAll =>
      -- nothing below acts as an existential quantifier
      have none := inner.2 rfl
      refine ⟨by rw [ordered, inner.1, none, List.isEmpty_nil, Bool.or_true, Bool.and_true], ?_⟩
      intro _
      rw [boundAs_quant_of_ne Quantifier.noConfusion, none]

theorem hoistable_of_layered {f : Formula} {q : Quantifier} (h : f.layered q = true) :
    f.hoistable = true := by
  induction f generalizing q with
  | atom a => rfl
  | junction c parts ih => exact (ordered_of_layered h).1
  | neg body ih =>
    rcases layered_neg h with ⟨a, rfl⟩
    rfl
  | quant r vars body ih =>
    rw [layered, Bool.and_eq_true] at h
    exact ih h.2

/-- The quantifiers that may follow one another from `q` on. -/
def kindsFrom : Quantifier → List Quantifier
  | .exist => [.exist, .forAll]
  | .forAll => [.forAll]

theorem cons_dropWhile_sublist {q : Quantifier} {kinds rest : List Quantifier}
    (h : kinds.Sublist (q :: rest)) : (q :: kinds.dropWhile (· == q)).Sublist (q :: rest) := by
  apply List.Sublist.cons_cons
  cases h with
  | cons _ skipped => exact (List.dropWhile_sublist _).trans skipped
  | cons_cons _ taken =>
    rw [List.dropWhile_cons, if_pos (beq_self_eq_true q)]
    exact (List.dropWhile_sublist _).trans taken

theorem kinds_dropVacuous (blocks : List Block) :
    ((dropVacuous blocks).map Prod.fst).Sublist (blocks.map Prod.fst) :=
  (List.dropWhile_sublist _).map Prod.fst

theorem kinds_pooledBlocks {blocks : List Block} {q : Quantifier}
    (only : q = .forAll → ∀ x, ¬ BoundIn blocks .exist x) :
    ((pooledBlocks blocks).map Prod.fst).Sublist (kindsFrom q) := by
  have universal := kinds_dropVacuous [(.forAll, gatherBlocks .forAll blocks)]
  cases q with
  | exist => exact (kinds_dropVacuous _).trans (List.Sublist.cons_cons Quantifier.exist universal)
  | forAll =>
    have empty : (gatherBlocks .exist blocks).isEmpty = true :=
      VarSet.isEmpty_iff.2 fun x hx => only rfl x (mem_gatherBlocks.1 hx)
    rw [pooledBlocks, dropVacuous, List.dropWhile_cons, if_pos empty]
    exact (kinds_dropVacuous _).trans universal

theorem kinds_hoist {f : Formula} {q : Quantifier} (h : f.layered q = true) :
    (f.hoist.splitBlocks.1.map Prod.fst).Sublist (kindsFrom q) := by
  induction f generalizing q with
  | atom a => exact List.nil_sublist _
  | junction c parts ih =>
    have each : ∀ f ∈ parts, Hoisted.{0} f f.hoist := fun f _ => hoisted_hoist f
    rw [hoist, hoistAll_eq_map, prenexJunction_eq_wrapBlocks,
      splitBlocks_wrapBlocks _ (quantifierFree_parts each)]
    refine kinds_pooledBlocks fun same x bound => ?_
    rw [boundIn_parts each (c := c), (ordered_of_layered h).2 same] at bound
    exact List.not_mem_nil bound
  | neg body ih =>
    rcases layered_neg h with ⟨a, rfl⟩
    exact List.nil_sublist _
  | quant r vars body ih =>
    rw [layered, Bool.and_eq_true] at h
    have hoisted := hoisted_hoist.{0} body
    rcases exists_flattenRoot_wrapBlocks.{0} r vars hoisted.free hoisted.filled
      with ⟨m, flat, free, -⟩
    rw [wrapBlocks_splitBlocks] at flat
    rw [hoist, flat, splitBlocks_wrapBlocks _ free]
    -- a first block of the same kind takes in the variables, and otherwise they are a block of
    -- their own
    have merged := kinds_dropVacuous (mergeBlock r vars body.hoist.splitBlocks.1)
    rw [kinds_mergeBlock] at merged
    have inner := ih h.2
    cases r with
    | exist =>
      cases q with
      | exist => exact merged.trans (cons_dropWhile_sublist inner)
      | forAll => exact absurd h.1 Bool.false_ne_true
    | forAll =>
      refine (merged.trans (cons_dropWhile_sublist inner)).trans ?_
      cases q <;> decide

/-! ## Conversion -/

theorem hoistable_renameApart (alphabet : Alphabet) (f : Formula) :
    (f.renameApart alphabet).hoistable = f.hoistable := by
  rw [← hoistable_outline, outline_renameApart, hoistable_outline]

theorem leaning_renameApart (alphabet : Alphabet) (f : Formula) :
    (f.renameApart alphabet).leaning = f.leaning := by
  rw [← leaning_outline, outline_renameApart, leaning_outline]

theorem layered_renameApart (alphabet : Alphabet) (f : Formula) (q : Quantifier) :
    (f.renameApart alphabet).layered q = f.layered q := by
  rw [← layered_outline, outline_renameApart, layered_outline]

theorem equivalent_prenex (alphabet : Alphabet) {f : Formula} (named : f.BlankFree)
    (order : f.hoistable = true) : Equivalent.{u} (f.prenex alphabet) f := by
  intro D M v
  have moved := hoist_below (M := M) (v := v) (boundApart_renameApart alphabet named)
  rw [hoistable_renameApart] at moved
  exact (moved.2 order).trans (equivalent_renameApart alphabet f D M v)

theorem below_prenex (alphabet : Alphabet) {f : Formula} (named : f.BlankFree) {D : Type u}
    (M : Interpretation D) (v : Valuation D) :
    f.leaning.Below ((f.prenex alphabet).Holds M v) (f.Holds M v) := by
  have moved := hoist_below (M := M) (v := v) (boundApart_renameApart alphabet named)
  rw [leaning_renameApart] at moved
  exact (Quantifier.below_congr Iff.rfl (equivalent_renameApart alphabet f D M v)).1 moved.1

/-- A prenex form has the meaning of the formula if the quantifiers of its first junction can be
pooled. In any case it is stronger than the formula, or weaker if that junction stands below an odd
number of negations. This reads the blank as an ordinary variable. It is the same with independent
blanks if none is drawn, since the blank is not a symbol of the alphabet. -/
theorem prenex_below (alphabet : Alphabet) (f : Formula) (named : f.BlankFree) :
    (f.hoistable = true → Equivalent.{u} (f.prenex alphabet) f) ∧
      (∀ (D : Type u) (M : Interpretation D) (v : Valuation D),
        f.leaning.Below ((f.prenex alphabet).Holds M v) (f.Holds M v)) ∧
      (Variable.blankName ∉ alphabet.symbols →
        (f.hoistable = true → EquivalentApart.{u} (f.prenex alphabet) f) ∧
        ∀ (D : Type u) (M : Interpretation D) (v : Valuation D),
          f.leaning.Below ((f.prenex alphabet).HoldsApart M v) (f.HoldsApart M v)) := by
  refine ⟨equivalent_prenex alphabet named, fun D => below_prenex alphabet named, fun blank => ?_⟩
  have visible := blankFree_prenex named blank
  refine ⟨fun order => (equivalent_prenex alphabet named order).apart visible named, ?_⟩
  intro D M v
  exact (Quantifier.below_congr visible.holdsApart_iff named.holdsApart_iff).2
    (below_prenex alphabet named M v)

/-- `∃ x ∀ y R(x, y) ∧ ¬ ∀ z (A(z) ∧ B(z))` -/
def sheltered : Formula :=
  let x : Variable := { name := "x" }
  let y : Variable := { name := "y" }
  let z : Variable := { name := "z" }
  .junction .and [
    .quant .exist (.ofList [x]) (.quant .forAll (.ofList [y])
      (.predicate ⟨"R", [.var x, .var y], .undefined⟩)),
    .neg (.quant .forAll (.ofList [z]) (.junction .and [
      .predicate ⟨"A", [.var z], .undefined⟩, .predicate ⟨"B", [.var z], .undefined⟩]))]

/-- A universal quantifier below a negation is an existential one, and gets into their block. -/
theorem sheltered_prenex_equivalent :
    sheltered.BlankFree ∧ sheltered.hoistable = true ∧
      (sheltered.prenex .latin).text =
        "\\exists x, z (\\forall y (R(x, y) AND NOT (A(z) AND B(z))))" ∧
      Variable.blankName ∉ Alphabet.latin.symbols ∧
      Equivalent.{u} (sheltered.prenex .latin) sheltered ∧
      EquivalentApart.{u} (sheltered.prenex .latin) sheltered := by
  have named : sheltered.BlankFree := by decide
  have order : sheltered.hoistable = true := rfl
  have absent : Variable.blankName ∉ Alphabet.latin.symbols := by decide
  have meaning := prenex_below.{u} .latin sheltered named
  exact ⟨named, order, rfl, absent, meaning.1 order, (meaning.2.2 absent).1 order⟩

/-- `A(z) ∧ ∀ x ∃ y R(x, y)` -/
def alternating : Formula :=
  let x : Variable := { name := "x" }
  let y : Variable := { name := "y" }
  let z : Variable := { name := "z" }
  .junction .and [
    .predicate ⟨"A", [.var z], .undefined⟩,
    .quant .forAll (.ofList [x]) (.quant .exist (.ofList [y])
      (.predicate ⟨"R", [.var x, .var y], .undefined⟩))]

/-- Predicates hold of the rows in which all values are the same. -/
def constantRows : Interpretation Bool where
  relation _ row := ∀ d ∈ row, ∀ e ∈ row, d = e
  object _ := true
  data _ := true

/-- The quantifiers change places, so one value would have to be that of all variables. -/
theorem alternating_not_equivalent :
    alternating.BlankFree ∧
      (alternating.prenex .latin).text = "\\exists y (\\forall x (A(z) AND R(x, y)))" ∧
      ¬ Equivalent.{0} (alternating.prenex .latin) alternating := by
  refine ⟨by decide, rfl, fun equivalent => ?_⟩
  let x : Variable := { name := "x" }
  let y : Variable := { name := "y" }
  have changed : ∀ (z : Variable) (d : Bool) (w : Valuation Bool),
      AgreeOutside (.ofList [z]) w fun i => if i = z.toIdent then d else w i := fun z d w i hi =>
    if_neg fun same => hi (VarSet.mem_ofList.2 ⟨z, List.mem_cons_self, same.symm⟩)
  have holds : alternating.Holds constantRows fun _ => true := by
    refine holds_junction.2 (List.forall_mem_cons.2 ⟨?_, List.forall_mem_singleton.2 ?_⟩)
    · show ∀ d ∈ [true], ∀ e ∈ [true], d = e
      decide
    · intro w _
      refine ⟨_, changed y (w x.toIdent) w, ?_⟩
      show ∀ d ∈ [w x.toIdent, w x.toIdent], ∀ e ∈ [w x.toIdent, w x.toIdent], d = e
      simp
  rcases (equivalent Bool constantRows fun _ => true).2 holds with ⟨w, -, all⟩
  have other := all _ (changed x (!w y.toIdent) w)
  have row : ∀ d ∈ [!w y.toIdent, w y.toIdent], ∀ e ∈ [!w y.toIdent, w y.toIdent], d = e :=
    holds_junction.1 other _ (List.mem_cons_of_mem _ List.mem_cons_self)
  have equal := row _ List.mem_cons_self _ (List.mem_cons_of_mem _ List.mem_cons_self)
  exact Bool.not_ne_self (w y.toIdent) equal

/-- Formulas with negations at atoms only and no existential quantifier inside of a universal one
get a prenex form with one existential block around one universal block. It has the same meaning if
the blank is read as an ordinary variable, and with independent blanks if none is drawn, since the
blank is not a symbol of the alphabet. -/
theorem prenex_layered (alphabet : Alphabet) (f : Formula) (named : f.BlankFree)
    (normal : ∀ body, .neg body ∈ f.nodes → ∃ a, body = .atom a)
    (order : ∀ vars body, .quant .forAll vars body ∈ f.nodes →
      ∀ inner g, .quant .exist inner g ∉ body.nodes) :
    (∃ blocks matrix, f.prenex alphabet = wrapBlocks blocks matrix ∧ matrix.QuantifierFree ∧
      (blocks.map Prod.fst).Sublist [.exist, .forAll]) ∧
      Equivalent.{u} (f.prenex alphabet) f ∧
      (Variable.blankName ∉ alphabet.symbols → EquivalentApart.{u} (f.prenex alphabet) f) := by
  have layered : f.layered .exist = true := layered_of_nodes normal order Quantifier.noConfusion
  have equivalent := equivalent_prenex.{u} alphabet named (hoistable_of_layered layered)
  refine ⟨?_, equivalent, fun blank => equivalent.apart (blankFree_prenex named blank) named⟩
  have renamed : (f.renameApart alphabet).layered .exist = true := by
    rw [layered_renameApart, layered]
  exact ⟨_, _, (wrapBlocks_splitBlocks _).symm, (hoisted_hoist.{0} _).free, kinds_hoist renamed⟩

/-- `∃ x ∀ y R(x, y) ∧ ∃ x ¬ A(x)` -/
def doublyBound : Formula :=
  let x : Variable := { name := "x" }
  let y : Variable := { name := "y" }
  .junction .and [
    .quant .exist (.ofList [x]) (.quant .forAll (.ofList [y])
      (.predicate ⟨"R", [.var x, .var y], .undefined⟩)),
    .quant .exist (.ofList [x]) (.neg (.predicate ⟨"A", [.var x], .undefined⟩))]

theorem doublyBound_prenex_layered :
    doublyBound.BlankFree ∧
      (∀ body, .neg body ∈ doublyBound.nodes → ∃ a, body = .atom a) ∧
      (∀ vars body, .quant .forAll vars body ∈ doublyBound.nodes →
        ∀ inner g, .quant .exist inner g ∉ body.nodes) ∧
      Variable.blankName ∉ Alphabet.latin.symbols ∧
      (∃ blocks matrix, doublyBound.prenex .latin = wrapBlocks blocks matrix ∧
        matrix.QuantifierFree ∧ (blocks.map Prod.fst).Sublist [.exist, .forAll]) ∧
      EquivalentApart.{u} (doublyBound.prenex .latin) doublyBound := by
  have named : doublyBound.BlankFree := by decide
  have normal : ∀ body, .neg body ∈ doublyBound.nodes → ∃ a, body = .atom a := by
    intro body h
    have negated : body = .predicate ⟨"A", [.var { name := "x" }], .undefined⟩ := by
      simpa [doublyBound, predicate, nodes, nodesAll] using h
    exact ⟨_, negated⟩
  have order : ∀ vars body, .quant .forAll vars body ∈ doublyBound.nodes →
      ∀ inner g, .quant .exist inner g ∉ body.nodes := by
    intro vars body h inner g
    have inside : vars = .ofList [{ name := "y" }] ∧
        body = .predicate ⟨"R", [.var { name := "x" }, .var { name := "y" }], .undefined⟩ := by
      simpa [doublyBound, predicate, nodes, nodesAll] using h
    rw [inside.2]
    exact quantifierFree_atom _ _ _ _
  have absent : Variable.blankName ∉ Alphabet.latin.symbols := by decide
  have converted := prenex_layered.{u} .latin _ named normal order
  exact ⟨named, normal, order, absent, converted.1, converted.2.2 absent⟩

/-- With the blank as a symbol, `A(x) ∧ ∃ x (B(x) ∧ C(x))` gets two blanks for one variable. -/
theorem reused_prenex_not_equivalentApart :
    (reused "x").BlankFree ∧ (reused "x").layered .exist = true ∧
      ((reused "x").prenex .blanks).text = "\\exists _ (A(x) AND (B(_) AND C(_)))" ∧
      ¬ EquivalentApart.{0} ((reused "x").prenex .blanks) (reused "x") := by
  have drawn : (reused "x").prenex .blanks = (reused Variable.blankName).hoist := by
    rw [prenex, renameApart_reused, Alphabet.fresh_blanks (by decide)]
  rw [drawn]
  refine ⟨by decide, rfl, rfl, fun equivalent => not_holdsApart_opposed (fun _ => true) ?_⟩
  refine (equivalent Bool opposed fun _ => true).1 ⟨fun _ => true, fun _ _ => rfl, ?_⟩
  exact ⟨holdsApart_opposed_named _,
    ⟨holdsApart_opposed rfl _, holdsApart_opposed rfl _, trivial⟩, trivial⟩

end Formula
end QueryCalculus
