import Mathlib.Data.List.Flatten
import Mathlib.Data.List.Nodup
import Mathlib.Data.List.Pairwise
import Mathlib.Logic.Relation
import QueryCalculus.Cube.Basic

/-!
# Classes of equivalent terms

- `Cube.Separate` : no term occurs twice in a list of classes
- `Cube.Joined` : keys that are equal or share a class
- `Cube.joined_mergeClasses_iff` : what merging the classes of an equality joins
- `Cube.Joined.of_equalities` : the classes are below every equivalence that has the equalities
- `Cube.joined_classes_iff` : the classes are those of the equivalence generated by the equalities
- `Cube.Covers` : the classes hold the sides of the equalities
- `Cube.classes_partition` : the classes are a partition of the sides, whatever their order

Terms are compared by their keys, so all relations here are relations of keys.
-/

namespace QueryCalculus
namespace Cube

variable {classes : List (List Term)} {group : List Term} {e : Comparison} {s t : Term}
  {k l m : Term.Key}

theorem contains_iff : group.contains t = true ↔ t.key ∈ group.map Term.key := by
  rw [List.contains_iff_exists_mem_beq, List.mem_map]
  refine exists_congr fun u => and_congr_right fun _ => ?_
  rw [Term.beq_iff, eq_comm]

/-! ## Lists of classes -/

/-- No term occurs twice, neither in one class nor in two of them. -/
structure Separate (classes : List (List Term)) : Prop where
  nodup : ∀ group ∈ classes, (group.map Term.key).Nodup
  disjoint : classes.Pairwise fun g h => (g.map Term.key).Disjoint (h.map Term.key)

theorem Separate.eq_of_mem (separate : Separate classes) {g h : List Term} (hg : g ∈ classes)
    (hh : h ∈ classes) (kg : k ∈ g.map Term.key) (kh : k ∈ h.map Term.key) : g = h := by
  by_contra differ
  have symmetric : Std.Symm fun g h : List Term => (g.map Term.key).Disjoint (h.map Term.key) :=
    ⟨fun _ _ disjoint => List.disjoint_comm.1 disjoint⟩
  exact separate.disjoint.forall hg hh differ kg kh

theorem Separate.sublist (separate : Separate classes) {kept : List (List Term)}
    (h : kept.Sublist classes) : Separate kept :=
  ⟨fun group hg => separate.nodup group (h.subset hg), separate.disjoint.sublist h⟩

theorem Separate.nodup_flatten (separate : Separate classes) :
    (classes.flatten.map Term.key).Nodup := by
  rw [List.map_flatten, List.nodup_flatten]
  refine ⟨fun keys hk => ?_, List.pairwise_map.2 separate.disjoint⟩
  obtain ⟨group, hg, rfl⟩ := List.mem_map.1 hk
  exact separate.nodup group hg

/-- Keys that the classes take for equivalent. -/
def Joined (classes : List (List Term)) (k l : Term.Key) : Prop :=
  k = l ∨ ∃ group ∈ classes, k ∈ group.map Term.key ∧ l ∈ group.map Term.key

theorem equivalentIn_iff : equivalentIn classes s t = true ↔ Joined classes s.key t.key := by
  simp only [equivalentIn, Joined, Bool.or_eq_true, Term.beq_iff, List.any_eq_true,
    Bool.and_eq_true, contains_iff]

theorem Joined.refl (k : Term.Key) : Joined classes k k :=
  .inl rfl

theorem Joined.symm (h : Joined classes k l) : Joined classes l k := by
  rcases h with rfl | ⟨group, hg, hk, hl⟩
  · exact .refl k
  · exact .inr ⟨group, hg, hl, hk⟩

theorem Joined.trans (separate : Separate classes) (hkl : Joined classes k l)
    (hlm : Joined classes l m) : Joined classes k m := by
  rcases hkl with rfl | ⟨g, hg, hk, hl⟩
  · exact hlm
  rcases hlm with rfl | ⟨h, hh, hl', hm⟩
  · exact .inr ⟨g, hg, hk, hl⟩
  -- the class that holds the middle term is unique
  obtain rfl := separate.eq_of_mem hg hh hl hl'
  exact .inr ⟨g, hg, hk, hm⟩

theorem Separate.equivalence (separate : Separate classes) : Equivalence (Joined classes) :=
  ⟨.refl, .symm, .trans separate⟩

/-! ## Merging the classes of an equality -/

theorem mem_appendNew :
    k ∈ (appendNew group t).map Term.key ↔ k ∈ group.map Term.key ∨ k = t.key := by
  unfold appendNew
  split
  · next present =>
    refine ⟨.inl, fun h => h.elim id ?_⟩
    rintro rfl
    exact contains_iff.1 present
  · rw [List.map_append, List.mem_append, List.map_singleton, List.mem_singleton]

theorem nodup_appendNew (nodup : (group.map Term.key).Nodup) :
    ((appendNew group t).map Term.key).Nodup := by
  unfold appendNew
  split
  · exact nodup
  · next absent =>
    rw [contains_iff] at absent
    rw [List.map_append, List.map_singleton]
    exact List.nodup_append.2 ⟨nodup, List.nodup_singleton _, by
      rintro k hk l hl rfl
      exact absent (List.mem_singleton.1 hl ▸ hk)⟩

/-- Whether an equality mentions a term of the class. -/
def touches (e : Comparison) (group : List Term) : Bool :=
  group.contains e.left || group.contains e.right

/-- The class that an equality makes of the classes it mentions. -/
def mergedClass (classes : List (List Term)) (e : Comparison) : List Term :=
  appendNew (appendNew (classes.filter (touches e)).flatten e.left) e.right

theorem mergeClasses_eq (classes : List (List Term)) (e : Comparison) :
    mergeClasses classes e =
      classes.filter (fun group => !touches e group) ++ [mergedClass classes e] :=
  rfl

theorem touches_iff :
    touches e group = true ↔
      e.left.key ∈ group.map Term.key ∨ e.right.key ∈ group.map Term.key := by
  rw [touches, Bool.or_eq_true, contains_iff, contains_iff]

theorem mem_mergeClasses {g : List Term} :
    g ∈ mergeClasses classes e ↔
      (g ∈ classes ∧ touches e g = false) ∨ g = mergedClass classes e := by
  simp [mergeClasses_eq]

/-- Keys that the classes take for equivalent to a side of the equality. -/
def Linked (classes : List (List Term)) (e : Comparison) (k : Term.Key) : Prop :=
  Joined classes e.left.key k ∨ Joined classes e.right.key k

theorem linked_of_touches {g : List Term} (hg : g ∈ classes) (touched : touches e g = true)
    (hk : k ∈ g.map Term.key) : Linked classes e k := by
  rcases touches_iff.1 touched with left | right
  · exact .inl (.inr ⟨g, hg, left, hk⟩)
  · exact .inr (.inr ⟨g, hg, right, hk⟩)

theorem mem_mergedClass :
    k ∈ (mergedClass classes e).map Term.key ↔ Linked classes e k := by
  have touched : k ∈ (classes.filter (touches e)).flatten.map Term.key ↔
      ∃ g ∈ classes, touches e g = true ∧ k ∈ g.map Term.key := by
    rw [List.map_flatten]
    simp only [List.mem_flatten, List.mem_map, List.mem_filter, and_assoc]
    constructor
    · rintro ⟨_, ⟨g, hg, touched, rfl⟩, hk⟩
      exact ⟨g, hg, touched, List.mem_map.1 hk⟩
    · rintro ⟨g, hg, touched, hk⟩
      exact ⟨_, ⟨g, hg, touched, rfl⟩, List.mem_map.2 hk⟩
  -- the classes that the equation touches, and then its two sides
  rw [mergedClass, mem_appendNew, mem_appendNew, touched]
  constructor
  · rintro ((⟨g, hg, touched, hk⟩ | rfl) | rfl)
    · exact linked_of_touches hg touched hk
    · exact .inl (.refl _)
    · exact .inr (.refl _)
  · rintro ((rfl | ⟨g, hg, left, hk⟩) | (rfl | ⟨g, hg, right, hk⟩))
    · exact .inl (.inr rfl)
    · exact .inl (.inl ⟨g, hg, touches_iff.2 (.inl left), hk⟩)
    · exact .inr rfl
    · exact .inl (.inl ⟨g, hg, touches_iff.2 (.inr right), hk⟩)

theorem Separate.mergeClasses (separate : Separate classes) (e : Comparison) :
    Separate (mergeClasses classes e) := by
  have kept := separate.sublist (List.filter_sublist (p := fun group => !touches e group))
  have merged : ((mergedClass classes e).map Term.key).Nodup :=
    nodup_appendNew (nodup_appendNew (separate.sublist List.filter_sublist).nodup_flatten)
  rw [mergeClasses_eq]
  constructor
  · intro group hg
    rcases List.mem_append.1 hg with hg | hg
    · exact kept.nodup group hg
    · rwa [List.mem_singleton.1 hg]
  · refine List.pairwise_append.2 ⟨kept.disjoint, List.pairwise_singleton _ _, ?_⟩
    rintro g hg _ hm k hk hk'
    obtain ⟨hg, untouched⟩ := List.mem_filter.1 hg
    rw [List.mem_singleton.1 hm, mem_mergedClass] at hk'
    -- a class with a term of the merged class holds a side of the equality
    have touched : touches e g = true := by
      rw [touches_iff]
      rcases hk' with (rfl | ⟨h, hh, left, hk'⟩) | (rfl | ⟨h, hh, right, hk'⟩)
      · exact .inl hk
      · exact .inl (separate.eq_of_mem hh hg hk' hk ▸ left)
      · exact .inr hk
      · exact .inr (separate.eq_of_mem hh hg hk' hk ▸ right)
    simp [touched] at untouched

/-- An equality joins what was joined before, and what is linked to its sides. -/
theorem joined_mergeClasses_iff :
    Joined (mergeClasses classes e) k l ↔
      Joined classes k l ∨ (Linked classes e k ∧ Linked classes e l) := by
  constructor
  · rintro (rfl | ⟨g, hg, hk, hl⟩)
    · exact .inl (.refl k)
    rcases mem_mergeClasses.1 hg with ⟨hg, -⟩ | rfl
    · exact .inl (.inr ⟨g, hg, hk, hl⟩)
    · exact .inr ⟨mem_mergedClass.1 hk, mem_mergedClass.1 hl⟩
  · have merged : Linked classes e k → Linked classes e l → Joined (mergeClasses classes e) k l :=
      fun hk hl =>
        .inr ⟨_, mem_mergeClasses.2 (.inr rfl), mem_mergedClass.2 hk, mem_mergedClass.2 hl⟩
    rintro ((rfl | ⟨g, hg, hk, hl⟩) | ⟨hk, hl⟩)
    · exact .refl k
    · -- a class that is not kept goes into the merged one as a whole
      cases touched : touches e g with
      | false => exact .inr ⟨g, mem_mergeClasses.2 (.inl ⟨hg, touched⟩), hk, hl⟩
      | true => exact merged (linked_of_touches hg touched hk) (linked_of_touches hg touched hl)
    · exact merged hk hl

/-! ## Merging the classes of all equalities -/

section Run

variable {es : List Comparison}

theorem Separate.foldl (separate : Separate classes) (es : List Comparison) :
    Separate (es.foldl Cube.mergeClasses classes) := by
  induction es generalizing classes with
  | nil => exact separate
  | cons e es ih => exact ih (separate.mergeClasses e)

theorem Joined.foldl (joined : Joined classes k l) (es : List Comparison) :
    Joined (es.foldl mergeClasses classes) k l := by
  induction es generalizing classes with
  | nil => exact joined
  | cons e es ih => exact ih (joined_mergeClasses_iff.2 (.inl joined))

theorem joined_foldl_of_mem (he : e ∈ es) (classes : List (List Term)) :
    Joined (es.foldl mergeClasses classes) e.left.key e.right.key := by
  induction es generalizing classes with
  | nil => cases he
  | cons d es ih =>
    rcases List.mem_cons.1 he with rfl | he
    · exact .foldl (joined_mergeClasses_iff.2 (.inr ⟨.inl (.refl _), .inr (.refl _)⟩)) es
    · exact ih he _

/-- Merging stays below every equivalence that has the equalities. -/
theorem Joined.of_foldl {R : Term.Key → Term.Key → Prop} (equivalence : Equivalence R)
    (before : ∀ k l, Joined classes k l → R k l) (sides : ∀ e ∈ es, R e.left.key e.right.key)
    (joined : Joined (es.foldl mergeClasses classes) k l) : R k l := by
  induction es generalizing classes with
  | nil => exact before k l joined
  | cons e es ih =>
    refine ih (fun k l joined => ?_) (fun d hd => sides d (List.mem_cons_of_mem e hd)) joined
    have side := sides e List.mem_cons_self
    -- both sides of the equality stand for one class of `R`
    have linked : ∀ k, Linked classes e k → R e.left.key k := by
      rintro k (left | right)
      · exact before _ _ left
      · exact equivalence.trans side (before _ _ right)
    rcases joined_mergeClasses_iff.1 joined with joined | ⟨hk, hl⟩
    · exact before k l joined
    · exact equivalence.trans (equivalence.symm (linked k hk)) (linked l hl)

end Run

theorem separate_nil : Separate [] :=
  ⟨by simp, List.Pairwise.nil⟩

theorem separate_classes (c : Cube) : Separate c.classes :=
  separate_nil.foldl c.equalities

/-- The classes stay below every equivalence that has the equalities of the conjunction. -/
theorem Joined.of_equalities {c : Cube} {R : Term.Key → Term.Key → Prop}
    (equivalence : Equivalence R) (sides : ∀ e ∈ c.equalities, R e.left.key e.right.key)
    (joined : Joined c.classes k l) : R k l := by
  refine Joined.of_foldl equivalence ?_ sides joined
  rintro k l (rfl | ⟨g, hg, -⟩)
  · exact equivalence.refl k
  · cases hg

/-- The keys of the two sides of an equality. -/
def Equated (c : Cube) (k l : Term.Key) : Prop :=
  ∃ e ∈ c.equalities, e.left.key = k ∧ e.right.key = l

/-- Two terms are in one class exactly if a chain of equalities connects them. -/
theorem joined_classes_iff {c : Cube} :
    Joined c.classes k l ↔ Relation.EqvGen c.Equated k l := by
  constructor
  · exact Joined.of_equalities (Relation.EqvGen.is_equivalence _) fun e he =>
      .rel _ _ ⟨e, he, rfl, rfl⟩
  · intro chain
    induction chain with
    | rel k l equated =>
      obtain ⟨e, he, rfl, rfl⟩ := equated
      exact joined_foldl_of_mem he []
    | refl k => exact .refl k
    | symm k l _ ih => exact ih.symm
    | trans k l m _ _ ihk ihl => exact ihk.trans c.separate_classes ihl

/-! ## The terms of the classes -/

/-- The sides of the equalities as they are written. -/
def sidesOf (es : List Comparison) : List Term :=
  es.flatMap fun e => [e.left, e.right]

theorem mem_sidesOf {es : List Comparison} :
    t ∈ sidesOf es ↔ ∃ e ∈ es, t = e.left ∨ t = e.right := by
  simp [sidesOf]

/-- The classes hold sides of the equalities and nothing else, and none of them is empty. Of sides
with the same key one is held. -/
structure Covers (classes : List (List Term)) (es : List Comparison) : Prop where
  nonempty : ∀ group ∈ classes, group ≠ []
  written : ∀ group ∈ classes, group ⊆ sidesOf es
  complete : ∀ t ∈ sidesOf es, ∃ group ∈ classes, t.key ∈ group.map Term.key

theorem appendNew_subset : appendNew group t ⊆ t :: group := by
  unfold appendNew
  split
  · exact List.subset_cons_self t group
  · simp

theorem mergedClass_subset :
    mergedClass classes e ⊆ e.right :: e.left :: (classes.filter (touches e)).flatten :=
  List.Subset.trans appendNew_subset (List.cons_subset_cons _ appendNew_subset)

/-- Merging keeps every term in some class. -/
theorem exists_mem_mergeClasses {g : List Term} (hg : g ∈ classes) (hk : k ∈ g.map Term.key) :
    ∃ h ∈ mergeClasses classes e, k ∈ h.map Term.key := by
  cases touched : touches e g with
  | false => exact ⟨g, mem_mergeClasses.2 (.inl ⟨hg, touched⟩), hk⟩
  | true =>
    exact ⟨_, mem_mergeClasses.2 (.inr rfl), mem_mergedClass.2 (linked_of_touches hg touched hk)⟩

theorem Covers.mergeClasses {es : List Comparison} (covers : Covers classes es) (e : Comparison) :
    Covers (mergeClasses classes e) (es ++ [e]) := by
  have sides : sidesOf (es ++ [e]) = sidesOf es ++ [e.left, e.right] := by simp [sidesOf]
  have merged : mergedClass classes e ∈ Cube.mergeClasses classes e :=
    mem_mergeClasses.2 (.inr rfl)
  constructor
  · intro group hg
    rcases mem_mergeClasses.1 hg with ⟨hg, -⟩ | rfl
    · exact covers.nonempty group hg
    · -- the left side of the equation is in it
      intro empty
      have left : e.left.key ∈ (mergedClass classes e).map Term.key :=
        mem_mergedClass.2 (.inl (.refl _))
      simp [empty] at left
  · intro group hg t ht
    rw [sides]
    rcases mem_mergeClasses.1 hg with ⟨hg, -⟩ | rfl
    · exact List.mem_append_left _ (covers.written group hg ht)
    · rcases List.mem_cons.1 (mergedClass_subset ht) with rfl | ht
      · simp
      rcases List.mem_cons.1 ht with rfl | ht
      · simp
      obtain ⟨g, hg, ht⟩ := List.mem_flatten.1 ht
      exact List.mem_append_left _ (covers.written g (List.mem_filter.1 hg).1 ht)
  · intro t ht
    rw [sides] at ht
    rcases List.mem_append.1 ht with ht | ht
    · -- a class stays, or it is part of the merged one
      obtain ⟨g, hg, hk⟩ := covers.complete t ht
      exact exists_mem_mergeClasses hg hk
    · refine ⟨_, merged, mem_mergedClass.2 ?_⟩
      rcases List.mem_pair.1 ht with rfl | rfl
      · exact .inl (.refl _)
      · exact .inr (.refl _)

theorem Covers.foldl {es : List Comparison} (covers : Covers classes es) (ds : List Comparison) :
    Covers (ds.foldl Cube.mergeClasses classes) (es ++ ds) := by
  induction ds generalizing classes es with
  | nil => rwa [List.append_nil]
  | cons d ds ih =>
    rw [List.append_cons]
    exact ih (covers.mergeClasses d)

theorem covers_nil : Covers [] [] :=
  ⟨by simp, by simp, by simp [sidesOf]⟩

theorem covers_classes (c : Cube) : Covers c.classes c.equalities :=
  covers_nil.foldl c.equalities

/-! ## The classes as a partition -/

theorem Separate.mem_iff_joined (separate : Separate classes) (hg : group ∈ classes)
    (hk : k ∈ group.map Term.key) : l ∈ group.map Term.key ↔ Joined classes k l := by
  constructor
  · intro hl
    exact .inr ⟨group, hg, hk, hl⟩
  · rintro (rfl | ⟨h, hh, hk', hl⟩)
    · exact hk
    · rwa [separate.eq_of_mem hg hh hk hk']

/-- The order of the equalities does not matter for what is joined. -/
theorem joined_classes_perm {c d : Cube} (same : d.equalities.Perm c.equalities) :
    Joined d.classes k l ↔ Joined c.classes k l := by
  have equated : d.Equated = c.Equated := by
    funext k l
    exact propext (exists_congr fun e => and_congr_left fun _ => same.mem_iff)
  rw [joined_classes_iff, joined_classes_iff, equated]

/-- The classes of other orders of the equalities are the same sets of terms. -/
theorem exists_class_perm {c d : Cube} (same : d.equalities.Perm c.equalities)
    (hg : group ∈ c.classes) :
    ∃ h ∈ d.classes, ∀ k, k ∈ h.map Term.key ↔ k ∈ group.map Term.key := by
  obtain ⟨t, ht⟩ := List.exists_mem_of_ne_nil group (c.covers_classes.nonempty group hg)
  have side : t ∈ sidesOf d.equalities := by
    obtain ⟨e, he, written⟩ := mem_sidesOf.1 (c.covers_classes.written group hg ht)
    exact mem_sidesOf.2 ⟨e, same.mem_iff.2 he, written⟩
  obtain ⟨h, hh, hk⟩ := d.covers_classes.complete t side
  refine ⟨h, hh, fun k => ?_⟩
  rw [d.separate_classes.mem_iff_joined hh hk, joined_classes_perm same,
    ← c.separate_classes.mem_iff_joined hg (List.mem_map_of_mem ht)]

theorem contains_sidesOf_iff {c : Cube} :
    (sidesOf c.equalities).contains t = true ↔ ∃ group ∈ c.classes, group.contains t = true := by
  simp only [contains_iff]
  constructor
  · intro ht
    obtain ⟨s, hs, same⟩ := List.mem_map.1 ht
    rw [← same]
    exact c.covers_classes.complete s hs
  · rintro ⟨group, hg, hk⟩
    obtain ⟨s, hs, same⟩ := List.mem_map.1 hk
    rw [← same]
    exact List.mem_map_of_mem (c.covers_classes.written group hg hs)

theorem exists_class_iff {c : Cube} :
    (∃ group ∈ c.classes, group.contains s = true ∧ group.contains t = true) ↔
      (sidesOf c.equalities).contains s = true ∧ Relation.EqvGen c.Equated s.key t.key := by
  rw [contains_sidesOf_iff, ← joined_classes_iff]
  simp only [contains_iff]
  constructor
  · rintro ⟨group, hg, hs, ht⟩
    exact ⟨⟨group, hg, hs⟩, .inr ⟨group, hg, hs, ht⟩⟩
  · rintro ⟨⟨group, hg, hs⟩, joined⟩
    exact ⟨group, hg, hs, (c.separate_classes.mem_iff_joined hg hs).2 joined⟩

/-- The classes are a partition of the terms of the equalities: they are not empty, no term occurs
twice in a class or in two of them, and they hold the sides of the equalities and nothing else. Two
terms are in one class exactly if a chain of equalities connects them, and equalities in another
order give the same classes. -/
theorem classes_partition (c : Cube) :
    (∀ g ∈ c.classes, g ≠ [] ∧ g.Pairwise (fun s t => (s == t) = false) ∧
      g ⊆ sidesOf c.equalities) ∧
    c.classes.Pairwise (fun g h => ∀ t, ¬ (g.contains t = true ∧ h.contains t = true)) ∧
    (∀ t, (sidesOf c.equalities).contains t = true ↔ ∃ g ∈ c.classes, g.contains t = true) ∧
    (∀ s t, (∃ g ∈ c.classes, g.contains s = true ∧ g.contains t = true) ↔
      (sidesOf c.equalities).contains s = true ∧ Relation.EqvGen c.Equated s.key t.key) ∧
    ∀ d : Cube, d.equalities.Perm c.equalities →
      ∀ g ∈ c.classes, ∃ h ∈ d.classes, ∀ t, h.contains t = g.contains t := by
  have covers := c.covers_classes
  have separate := c.separate_classes
  refine ⟨fun g hg => ⟨covers.nonempty g hg, ?_, covers.written g hg⟩, ?_,
    fun t => contains_sidesOf_iff, fun s t => exists_class_iff, ?_⟩
  · refine (List.pairwise_map.1 (separate.nodup g hg)).imp fun differ => ?_
    rwa [← Bool.not_eq_true, Term.beq_iff]
  · refine separate.disjoint.imp fun disjoint t => ?_
    rw [contains_iff, contains_iff]
    exact fun both => disjoint both.1 both.2
  · intro d same g hg
    obtain ⟨h, hh, members⟩ := exists_class_perm same hg
    refine ⟨h, hh, fun t => ?_⟩
    rw [Bool.eq_iff_iff, contains_iff, contains_iff, members]

/-- The equalities `x = y` and `a = b`, and `b = y` that joins their classes. -/
def bridgedPairs : Cube :=
  ofAtoms [.comparison ⟨.equal, .var ⟨⟨"x", none⟩, .undefined⟩, .var ⟨⟨"y", none⟩, .undefined⟩⟩,
    .comparison ⟨.equal, .var ⟨⟨"a", none⟩, .undefined⟩, .var ⟨⟨"b", none⟩, .undefined⟩⟩,
    .comparison ⟨.equal, .var ⟨⟨"b", none⟩, .undefined⟩, .var ⟨⟨"y", none⟩, .undefined⟩⟩]

theorem bridgedPairs_classes :
    Relation.EqvGen bridgedPairs.Equated (.var ⟨"x", none⟩) (.var ⟨"a", none⟩) ∧
    ∀ g ∈ bridgedPairs.classes, ∃ h ∈ (Cube.mk bridgedPairs.atoms.reverse).classes,
      ∀ t, h.contains t = g.contains t := by
  obtain ⟨-, -, -, chains, orders⟩ := classes_partition bridgedPairs
  constructor
  · exact ((chains (.var ⟨⟨"x", none⟩, .undefined⟩) (.var ⟨⟨"a", none⟩, .undefined⟩)).1
      (by decide)).2
  · refine orders _ ?_
    simp only [equalities, comparisons]
    exact ((List.reverse_perm _).filterMap _).filter _

end Cube
end QueryCalculus
