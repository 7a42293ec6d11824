import QueryCalculus.Formula.Prenex
import QueryCalculus.Proofs.Formula.Nodes
import QueryCalculus.Proofs.Formula.Prefix

/-!
# Prenex forms

- `QuantifierFree` : formulas without quantifiers
- `Hoisted` : what moving the quantifiers to the front does to them and to the matrix
- `hoisted_hoist` : all quantifiers get in front, in blocks that bind something
- `hoist_below` : the meaning of the result, compared to that of the formula

The quantifiers of a junction are pooled without regard to their order, so the meaning is kept only
if existential quantifiers are outside of universal ones.
-/

namespace QueryCalculus

universe u

variable {D : Type u} {M : Interpretation D} {v : Valuation D}

namespace Formula

/-! ## Formulas without quantifiers -/

def QuantifierFree (f : Formula) : Prop :=
  ∀ q vars body, .quant q vars body ∉ f.nodes

theorem quantifierFree_atom (a : Atom) : (atom a).QuantifierFree := by
  intro q vars body h
  cases List.mem_singleton.1 h

theorem quantifierFree_junction {c : Connective} {parts : List Formula} :
    (junction c parts).QuantifierFree ↔ ∀ f ∈ parts, f.QuantifierFree := by
  constructor
  · intro free f hf q vars body h
    exact free q vars body (mem_nodes_junction.2 (.inr ⟨f, hf, h⟩))
  · intro free q vars body h
    rcases mem_nodes_junction.1 h with root | ⟨f, hf, inside⟩
    · cases root
    · exact free f hf q vars body inside

theorem quantifierFree_neg {body : Formula} : (neg body).QuantifierFree ↔ body.QuantifierFree := by
  constructor
  · exact fun free q vars g h => free q vars g (List.mem_cons_of_mem _ h)
  · intro free q vars g h
    rcases List.mem_cons.1 h with root | inside
    · cases root
    · exact free q vars g inside

theorem not_quantifierFree_quant {q : Quantifier} {vars : VarSet} {body : Formula} :
    ¬ (quant q vars body).QuantifierFree :=
  fun free => free q vars body List.mem_cons_self

theorem QuantifierFree.unwrap {f : Formula} (free : f.QuantifierFree) :
    f.unwrap.QuantifierFree := by
  fun_induction Formula.unwrap f with
  | case1 f ih => exact ih (quantifierFree_neg.1 (quantifierFree_neg.1 free))
  | case2 c f ih => exact ih (quantifierFree_junction.1 free f List.mem_cons_self)
  | case3 q vars body empty ih => exact absurd free not_quantifierFree_quant
  | case4 q vars body filled => exact free
  | case5 f => exact free

/-! ## Blocks -/

theorem wrapBlocks_cons (q : Quantifier) (vars : VarSet) (blocks : List Block) (matrix : Formula) :
    wrapBlocks ((q, vars) :: blocks) matrix = .quant q vars (wrapBlocks blocks matrix) :=
  rfl

theorem splitBlocks_of_quantifierFree {f : Formula} (free : f.QuantifierFree) :
    f.splitBlocks = ([], f) := by
  cases f with
  | quant q vars body => exact absurd free not_quantifierFree_quant
  | _ => rfl

theorem splitBlocks_wrapBlocks (blocks : List Block) {matrix : Formula}
    (free : matrix.QuantifierFree) : (wrapBlocks blocks matrix).splitBlocks = (blocks, matrix) := by
  induction blocks with
  | nil => exact splitBlocks_of_quantifierFree free
  | cons block blocks ih => rw [wrapBlocks_cons, splitBlocks, ih]

theorem wrapBlocks_splitBlocks (f : Formula) :
    wrapBlocks f.splitBlocks.1 f.splitBlocks.2 = f := by
  fun_induction splitBlocks f with
  | case1 q vars body blocks matrix split ih =>
    rw [split] at ih
    exact congrArg (Formula.quant q vars) ih
  | case2 f => rfl

/-- Some block of the quantifier binds the variable. -/
def BoundIn (blocks : List Block) (q : Quantifier) (x : Ident) : Prop :=
  ∃ vars, (q, vars) ∈ blocks ∧ x ∈ vars

section BoundIn

variable {blocks : List Block} {q r : Quantifier} {vars : VarSet} {x : Ident}

theorem boundIn_cons :
    BoundIn ((r, vars) :: blocks) q x ↔ r = q ∧ x ∈ vars ∨ BoundIn blocks q x := by
  simp only [BoundIn, List.mem_cons, Prod.mk.injEq]
  constructor
  · rintro ⟨other, ⟨rfl, rfl⟩ | listed, hx⟩
    · exact .inl ⟨rfl, hx⟩
    · exact .inr ⟨other, listed, hx⟩
  · rintro (⟨rfl, hx⟩ | ⟨other, listed, hx⟩)
    · exact ⟨vars, .inl ⟨rfl, rfl⟩, hx⟩
    · exact ⟨other, .inr listed, hx⟩

theorem not_boundIn_nil : ¬ BoundIn [] q x := by
  rintro ⟨vars, listed, -⟩
  exact List.not_mem_nil listed

theorem boundIn_dual :
    BoundIn (blocks.map fun block => (block.1.dual, block.2)) q x ↔ BoundIn blocks q.dual x := by
  constructor
  · rintro ⟨vars, listed, hx⟩
    rcases List.mem_map.1 listed with ⟨⟨r, inner⟩, hr, same⟩
    cases same
    exact ⟨inner, (Quantifier.dual_dual r).symm ▸ hr, hx⟩
  · rintro ⟨vars, listed, hx⟩
    exact ⟨vars, List.mem_map.2 ⟨_, listed, by rw [Quantifier.dual_dual]⟩, hx⟩

theorem boundIn_flatMap {α : Type*} {as : List α} {h : α → List Block} :
    BoundIn (as.flatMap h) q x ↔ ∃ a ∈ as, BoundIn (h a) q x := by
  simp only [BoundIn, List.mem_flatMap]
  constructor
  · rintro ⟨vars, ⟨a, ha, listed⟩, hx⟩
    exact ⟨a, ha, vars, listed, hx⟩
  · rintro ⟨a, ha, vars, listed, hx⟩
    exact ⟨vars, ⟨a, ha, listed⟩, hx⟩

theorem mem_gatherBlocks : x ∈ gatherBlocks q blocks ↔ BoundIn blocks q x := by
  have gathered : ∀ start : VarSet, x ∈ blocks.foldl
      (fun vars block => if block.1 = q then vars.union block.2 else vars) start ↔
        x ∈ start ∨ BoundIn blocks q x := by
    induction blocks with
    | nil => exact fun start => (or_iff_left not_boundIn_nil).symm
    | cons block blocks ih =>
      intro start
      rw [List.foldl_cons, ih, boundIn_cons, ← or_assoc]
      by_cases same : block.1 = q
      · rw [if_pos same, VarSet.mem_union, and_iff_right same]
      · have absent : ¬ (block.1 = q ∧ x ∈ block.2) := fun h => same h.1
        rw [if_neg same, or_iff_left absent]
  rw [gatherBlocks, gathered, or_iff_right (VarSet.not_mem_empty x)]

end BoundIn

/-! ## Quantifiers in front of blocks -/

/-- A block in front of others, merged with those that follow if they are of the same kind. -/
def mergeBlock (q : Quantifier) (vars : VarSet) : List Block → List Block
  | [] => [(q, vars)]
  | (r, inner) :: rest =>
    if q = r then mergeBlock q (vars.union inner) rest else (q, vars) :: (r, inner) :: rest

/-- The blocks without those at the front that bind nothing. -/
def dropVacuous (blocks : List Block) : List Block :=
  blocks.dropWhile (·.2.isEmpty)

section Blocks

variable {blocks : List Block} {matrix : Formula} {q r : Quantifier} {vars : VarSet} {x : Ident}

theorem mergeQuant_wrapBlocks (free : matrix.QuantifierFree) :
    mergeQuant q vars (wrapBlocks blocks matrix) =
      wrapBlocks (mergeBlock q vars blocks) matrix := by
  induction blocks generalizing vars with
  | nil =>
    cases matrix with
    | quant r inner body => exact absurd free not_quantifierFree_quant
    | _ => rfl
  | cons block rest ih =>
    -- merging goes on as long as the next block is of the same kind
    rw [wrapBlocks_cons, mergeQuant, mergeBlock]
    split
    · exact ih
    · rfl

theorem exists_unwrap_wrapBlocks (blocks : List Block) (free : matrix.QuantifierFree) :
    ∃ matrix', (wrapBlocks blocks matrix).unwrap = wrapBlocks (dropVacuous blocks) matrix' ∧
      matrix'.QuantifierFree ∧ Equivalent.{u} matrix' matrix := by
  induction blocks with
  | nil => exact ⟨matrix.unwrap, rfl, free.unwrap, (rewriting_equivalent.unwrap matrix).symm⟩
  | cons block rest ih =>
    rw [wrapBlocks_cons, Formula.unwrap, dropVacuous, List.dropWhile_cons]
    split
    · exact ih
    · exact ⟨matrix, rfl, free, .refl matrix⟩

theorem boundIn_mergeBlock :
    BoundIn (mergeBlock q vars blocks) r x ↔ q = r ∧ x ∈ vars ∨ BoundIn blocks r x := by
  induction blocks generalizing vars with
  | nil => exact boundIn_cons
  | cons block rest ih =>
    rw [mergeBlock]
    split
    · rename_i same
      rw [ih, boundIn_cons, VarSet.mem_union, ← same, and_or_left, or_assoc]
    · exact boundIn_cons

theorem boundIn_dropVacuous : BoundIn (dropVacuous blocks) q x ↔ BoundIn blocks q x := by
  induction blocks with
  | nil => exact Iff.rfl
  | cons block rest ih =>
    rw [dropVacuous, List.dropWhile_cons]
    split
    · rename_i empty
      have absent : ¬ (block.1 = q ∧ x ∈ block.2) := fun h => VarSet.isEmpty_iff.1 empty x h.2
      rw [boundIn_cons, or_iff_right absent]
      exact ih
    · exact Iff.rfl

theorem dropVacuous_of_filled (filled : ∀ block ∈ blocks, block.2.isEmpty = false) :
    dropVacuous blocks = blocks := by
  cases blocks with
  | nil => rfl
  | cons block rest => simp [dropVacuous, filled block List.mem_cons_self]

theorem filled_dropVacuous_cons {block : Block}
    (filled : ∀ block ∈ blocks, block.2.isEmpty = false) :
    ∀ other ∈ dropVacuous (block :: blocks), other.2.isEmpty = false := by
  rw [dropVacuous, List.dropWhile_cons]
  split
  · have rest : dropVacuous blocks = blocks := dropVacuous_of_filled filled
    exact fun other hother => filled other (rest ▸ hother)
  · rename_i here
    exact List.forall_mem_cons.2 ⟨Bool.eq_false_iff.2 here, filled⟩

theorem filled_dropVacuous_mergeBlock (filled : ∀ block ∈ blocks, block.2.isEmpty = false) :
    ∀ block ∈ dropVacuous (mergeBlock q vars blocks), block.2.isEmpty = false := by
  induction blocks generalizing vars with
  | nil => exact filled_dropVacuous_cons filled
  | cons block rest ih =>
    rw [mergeBlock]
    split
    · exact ih fun other hother => filled other (List.mem_cons_of_mem block hother)
    · exact filled_dropVacuous_cons filled

theorem kinds_mergeBlock :
    (mergeBlock q vars blocks).map Prod.fst = q :: (blocks.map Prod.fst).dropWhile (· == q) := by
  induction blocks generalizing vars with
  | nil => rfl
  | cons block rest ih =>
    rw [mergeBlock, List.map_cons, List.dropWhile_cons]
    split
    · rename_i same
      rw [ih, if_pos (beq_iff_eq.2 same.symm)]
    · rename_i different
      rw [if_neg fun same => different (beq_iff_eq.1 same).symm]
      rfl

theorem quantSome_wrapBlocks (filled : ∀ block ∈ blocks, block.2.isEmpty = false) :
    quantSome q vars (wrapBlocks blocks matrix) =
      wrapBlocks (dropVacuous ((q, vars) :: blocks)) matrix := by
  have rest : blocks.dropWhile (·.2.isEmpty) = blocks := dropVacuous_of_filled filled
  rw [quantSome, dropVacuous, List.dropWhile_cons, rest]
  split
  · rfl
  · rfl

/-- Flattening a quantifier in front of blocks merges it into them. -/
theorem exists_flattenRoot_wrapBlocks (q : Quantifier) (vars : VarSet)
    (free : matrix.QuantifierFree) (filled : ∀ block ∈ blocks, block.2.isEmpty = false) :
    ∃ matrix', (quant q vars (wrapBlocks blocks matrix)).flattenRoot =
        wrapBlocks (dropVacuous (mergeBlock q vars blocks)) matrix' ∧
      matrix'.QuantifierFree ∧ Equivalent.{u} matrix' matrix := by
  rcases exists_unwrap_wrapBlocks.{u} blocks free with ⟨inner, unwrapped, innerFree, same⟩
  rcases exists_unwrap_wrapBlocks.{u} (mergeBlock q vars blocks) innerFree
    with ⟨outer, rewrapped, outerFree, same'⟩
  refine ⟨outer, ?_, outerFree, same'.trans same⟩
  rw [flattenRoot, unwrapped, dropVacuous_of_filled filled, mergeQuant_wrapBlocks innerFree,
    rewrapped]

/-- One existential block around one universal block, unless they bind nothing. -/
def pooledBlocks (blocks : List Block) : List Block :=
  dropVacuous ((.exist, gatherBlocks .exist blocks) ::
    dropVacuous [(.forAll, gatherBlocks .forAll blocks)])

theorem filled_pooledBlocks : ∀ block ∈ pooledBlocks blocks, block.2.isEmpty = false :=
  filled_dropVacuous_cons (filled_dropVacuous_cons (List.forall_mem_nil _))

theorem boundIn_pooledBlocks : BoundIn (pooledBlocks blocks) q x ↔ BoundIn blocks q x := by
  rw [pooledBlocks, boundIn_dropVacuous, boundIn_cons, boundIn_dropVacuous, boundIn_cons,
    or_iff_left not_boundIn_nil, mem_gatherBlocks, mem_gatherBlocks]
  cases q with
  | exist => simp
  | forAll => simp

theorem prenexJunction_eq (c : Connective) (parts : List Formula) :
    prenexJunction c parts =
      quantSome .exist (gatherBlocks .exist (parts.flatMap fun f => f.splitBlocks.1))
        (quantSome .forAll (gatherBlocks .forAll (parts.flatMap fun f => f.splitBlocks.1))
          (.junction c (parts.map fun f => f.splitBlocks.2))) := by
  simp only [prenexJunction, List.map_map, List.flatMap_map]
  rfl

theorem prenexJunction_eq_wrapBlocks (c : Connective) (parts : List Formula) :
    prenexJunction c parts = wrapBlocks (pooledBlocks (parts.flatMap fun f => f.splitBlocks.1))
      (.junction c (parts.map fun f => f.splitBlocks.2)) := by
  rw [prenexJunction_eq, pooledBlocks,
    ← quantSome_wrapBlocks (filled_dropVacuous_cons (List.forall_mem_nil _)),
    ← quantSome_wrapBlocks (List.forall_mem_nil _)]
  rfl

end Blocks

/-! ## The shape of a hoisted formula -/

/-- All quantifiers of `f`, and only those, are in front of its matrix in `g`. -/
structure Hoisted (f g : Formula) : Prop where
  free : g.splitBlocks.2.QuantifierFree
  matrix : Equivalent.{u} g.splitBlocks.2 f.matrix
  filled : ∀ block ∈ g.splitBlocks.1, block.2.isEmpty = false
  bound : ∀ q x, BoundIn g.splitBlocks.1 q x ↔ x ∈ f.boundAs q

theorem hoisted_wrapBlocks {f m : Formula} (blocks : List Block) (free : m.QuantifierFree)
    (matrix : Equivalent.{u} m f.matrix) (filled : ∀ block ∈ blocks, block.2.isEmpty = false)
    (bound : ∀ q x, BoundIn blocks q x ↔ x ∈ f.boundAs q) :
    Hoisted.{u} f (wrapBlocks blocks m) := by
  have split := splitBlocks_wrapBlocks blocks free
  constructor
  · rwa [split]
  · rwa [split]
  · rwa [split]
  · rwa [split]

theorem hoisted_atom (a : Atom) : Hoisted.{u} (.atom a) (.atom a) :=
  hoisted_wrapBlocks [] (quantifierFree_atom a) (.refl _)
    (List.forall_mem_nil _) (fun _ _ => iff_of_false not_boundIn_nil List.not_mem_nil)

theorem Hoisted.neg {f g : Formula} (h : Hoisted.{u} f g) :
    Hoisted.{u} (.neg f) (prenexNegation g) := by
  refine hoisted_wrapBlocks _ (quantifierFree_neg.2 h.free).unwrap ?_ ?_ fun q x => ?_
  · exact (rewriting_equivalent.unwrap _).symm.trans h.matrix.neg
  · exact List.forall_mem_map.2 h.filled
  · rw [boundIn_dual, h.bound]
    rfl

theorem Hoisted.quant {f g : Formula} {q : Quantifier} {vars : VarSet} (h : Hoisted.{u} f g) :
    Hoisted.{u} (.quant q vars f) (Formula.quant q vars g).flattenRoot := by
  rcases exists_flattenRoot_wrapBlocks.{u} q vars h.free h.filled
    with ⟨m, flat, free, same⟩
  rw [wrapBlocks_splitBlocks] at flat
  rw [flat]
  refine hoisted_wrapBlocks _ free (same.trans h.matrix) (filled_dropVacuous_mergeBlock h.filled) ?_
  intro r x
  rw [boundIn_dropVacuous, boundIn_mergeBlock, mem_boundAs_quant, h.bound]

theorem holds_quantSome {q : Quantifier} {vars : VarSet} {body : Formula} :
    (quantSome q vars body).Holds M v ↔ q.Over {x | x ∈ vars} (body.Holds M) v := by
  rw [quantSome]
  split
  · rename_i empty
    exact (Quantifier.over_of_empty (s := {x | x ∈ vars}) (VarSet.isEmpty_iff.1 empty)).symm
  · exact holds_quant

section Parts

variable {c : Connective} {parts : List Formula} {h : Formula → Formula}
  (each : ∀ f ∈ parts, Hoisted.{u} f (h f))
include each

theorem boundIn_parts {q : Quantifier} {x : Ident} :
    BoundIn ((parts.map h).flatMap fun g => g.splitBlocks.1) q x ↔
      x ∈ (Formula.junction c parts).boundAs q := by
  rw [List.flatMap_map, boundIn_flatMap, mem_boundAs_junction]
  exact exists_congr fun f => and_congr_right fun hf => (each f hf).bound q x

theorem equivalent_parts :
    Equivalent.{u} (.junction c ((parts.map h).map fun g => g.splitBlocks.2))
      (Formula.junction c parts).matrix := by
  rw [Formula.matrix, matrixAll_eq_map, List.map_map]
  refine Equivalent.junction (List.forall₂_map_left_iff.2 (List.forall₂_map_right_iff.2 ?_))
  exact List.forall₂_same.2 fun f hf => (each f hf).matrix

theorem quantifierFree_parts :
    (Formula.junction c ((parts.map h).map fun g => g.splitBlocks.2)).QuantifierFree := by
  refine quantifierFree_junction.2 (List.forall_mem_map.2 (List.forall_mem_map.2 ?_))
  exact fun f hf => (each f hf).free

theorem Hoisted.junction : Hoisted.{u} (.junction c parts) (prenexJunction c (parts.map h)) := by
  rw [prenexJunction_eq_wrapBlocks]
  refine hoisted_wrapBlocks _ (quantifierFree_parts each) (equivalent_parts each)
    filled_pooledBlocks fun q x => ?_
  rw [boundIn_pooledBlocks, boundIn_parts each]

/-- Existential quantifiers are put in front of universal ones, wherever they were. -/
theorem holds_prenexJunction :
    (prenexJunction c (parts.map h)).Holds M v ↔ Prefixed .exist M (.junction c parts) v := by
  have bound : ∀ q, {x | x ∈ gatherBlocks q ((parts.map h).flatMap fun g => g.splitBlocks.1)} =
      {x | x ∈ (Formula.junction c parts).boundAs q} := fun q =>
    Set.ext fun x => mem_gatherBlocks.trans (boundIn_parts each)
  calc
    _ ↔ Quantifier.Over .exist {x | x ∈ (Formula.junction c parts).boundAs .exist}
          (Quantifier.Over .forAll {x | x ∈ (Formula.junction c parts).boundAs .forAll}
            ((Formula.junction c ((parts.map h).map fun g => g.splitBlocks.2)).Holds M)) v := by
      rw [prenexJunction_eq, ← bound, ← bound]
      exact holds_quantSome.trans (Quantifier.over_congr fun w => holds_quantSome)
    _ ↔ Prefixed .exist M (.junction c parts) v :=
      Quantifier.over_congr fun w => Quantifier.over_congr (equivalent_parts each D M)

end Parts

theorem hoisted_hoist (f : Formula) : Hoisted.{u} f f.hoist := by
  induction f with
  | atom a => exact hoisted_atom a
  | junction c parts ih =>
    rw [hoist, hoistAll_eq_map]
    exact Hoisted.junction ih
  | neg body ih => exact ih.neg
  | quant q vars body ih => exact ih.quant

/-! ## The meaning of a hoisted formula -/

theorem holds_wrapBlocks_dual {m m' : Formula} (opposite : ∀ w, m'.Holds M w ↔ ¬ m.Holds M w)
    (blocks : List Block) (v : Valuation D) :
    (wrapBlocks (blocks.map fun block => (block.1.dual, block.2)) m').Holds M v ↔
      ¬ (wrapBlocks blocks m).Holds M v := by
  induction blocks generalizing v with
  | nil => exact opposite v
  | cons block rest ih =>
    calc
      _ ↔ block.1.dual.Over {x | x ∈ block.2}
            ((wrapBlocks (rest.map fun block => (block.1.dual, block.2)) m').Holds M) v :=
        holds_quant
      _ ↔ block.1.dual.Over {x | x ∈ block.2} (fun w => ¬ (wrapBlocks rest m).Holds M w) v :=
        Quantifier.over_congr ih
      _ ↔ ¬ block.1.Over {x | x ∈ block.2} ((wrapBlocks rest m).Holds M) v :=
        Quantifier.not_over.symm
      _ ↔ _ := not_congr holds_quant.symm

theorem holds_prenexNegation {g : Formula} :
    (prenexNegation g).Holds M v ↔ ¬ g.Holds M v := by
  have unwrapped : Equivalent.{u} (.neg g.splitBlocks.2) (Formula.neg g.splitBlocks.2).unwrap :=
    rewriting_equivalent.unwrap _
  have opposite := holds_wrapBlocks_dual (fun w => (unwrapped D M w).symm) g.splitBlocks.1 v
  rwa [wrapBlocks_splitBlocks] at opposite

/-- Whether the quantifiers of the first junction can be pooled: below the leading quantifiers and
negations, no quantifier that acts existentially stands inside of one that acts universally. -/
def hoistable : Formula → Bool
  | .neg body => body.hoistable
  | .quant _ _ body => body.hoistable
  | f => f.ordered .exist

/-- The kind of quantifiers that get in front of others when the quantifiers of the first junction
are pooled, with regard to the negations above it. -/
def leaning : Formula → Quantifier
  | .neg body => body.leaning.dual
  | .quant _ _ body => body.leaning
  | _ => .exist

/-- Moving the quantifiers to the front makes a formula stronger, or weaker below an odd number of
negations. It keeps the meaning if the quantifiers can be pooled. -/
theorem hoist_below {f : Formula} (apart : f.BoundApart) :
    f.leaning.Below (f.hoist.Holds M v) (f.Holds M v) ∧
      (f.hoistable = true → (f.hoist.Holds M v ↔ f.Holds M v)) := by
  induction f generalizing v with
  | atom a => exact ⟨id, fun _ => Iff.rfl⟩
  | junction c parts ih =>
    -- only the order of quantifiers in the whole junction matters, not how its parts were hoisted
    have pooled : (junction c parts).hoist.Holds M v ↔ Prefixed .exist M (.junction c parts) v := by
      rw [hoist, hoistAll_eq_map]
      exact holds_prenexJunction fun f _ => hoisted_hoist f
    have moved := prefixed_below (q := .exist) (M := M) (v := v) apart
    constructor
    · exact (Quantifier.below_congr pooled Iff.rfl).2 moved.1
    · exact fun order => pooled.trans (moved.2 order)
  | neg body ih =>
    have inner := ih (v := v) apart.neg
    constructor
    · rw [leaning, hoist, Quantifier.below_congr holds_prenexNegation Iff.rfl]
      apply Quantifier.Below.not
      rw [Quantifier.dual_dual]
      exact inner.1
    · exact fun order => holds_prenexNegation.trans (not_congr (inner.2 order))
  | quant q vars body ih =>
    have inner : ∀ w, body.leaning.Below (body.hoist.Holds M w) (body.Holds M w) ∧
        (body.hoistable = true → (body.hoist.Holds M w ↔ body.Holds M w)) := fun w => ih apart.body
    have flat : (quant q vars body).hoist.Holds M v ↔
        q.Over {x | x ∈ vars} (body.hoist.Holds M) v :=
      (rewriting_equivalent.flattenRoot _ D M v).symm.trans holds_quant
    constructor
    · rw [Quantifier.below_congr flat holds_quant]
      exact Quantifier.below_over fun w => (inner w).1
    · intro order
      calc
        _ ↔ q.Over {x | x ∈ vars} (body.hoist.Holds M) v := flat
        _ ↔ q.Over {x | x ∈ vars} (body.Holds M) v :=
          Quantifier.over_congr fun w => (inner w).2 order
        _ ↔ _ := holds_quant.symm

end Formula
end QueryCalculus
