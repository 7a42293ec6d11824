import QueryCalculus.Proofs.Cube.Consequence

/-!
# Implication as an order of conjunctions

- `Cube.Joined.of_entailed`, `Cube.Opposed.of_entailed` : what the equalities and inequalities of a
  conjunction derive is derived from a conjunction that entails them
- `Cube.isContradiction_of_entailed` : a contradiction is entailed by contradictions only
- `Cube.entails_of_entailed` : what follows from entailed atoms is entailed
- `Cube.implies_iff_impliesAtom` : a conjunction is implied if all that it implies is
- `Cube.implies_preorder` : implication of conjunctions is reflexive and transitive

Implication does not find all consequences, so that it is transitive does not follow from what it
means: it has to be seen on the classes.
-/

namespace QueryCalculus
namespace Cube

variable {c d : Cube} {a : Atom} {e : Comparison} {k l k' l' : Term.Key}

/-! ## Opposed keys -/

theorem Opposed.of_joined (opposed : c.Opposed k l) (left : Joined c.classes k k')
    (right : Joined c.classes l l') : c.Opposed k' l' := by
  have separate := c.separate_classes
  obtain ⟨i, hi, ⟨hk, hl⟩ | ⟨hl, hk⟩⟩ := opposed
  · exact ⟨i, hi, .inl ⟨hk.trans separate left, hl.trans separate right⟩⟩
  · exact ⟨i, hi, .inr ⟨hl.trans separate right, hk.trans separate left⟩⟩

/-- Keys that are both equivalent and opposed contradict each other. -/
theorem Opposed.isContradiction (opposed : c.Opposed k l) (joined : Joined c.classes k l) :
    c.isContradiction = true := by
  have separate := c.separate_classes
  obtain ⟨i, hi, sides⟩ := opposed
  refine isContradiction_iff.2 (.inr (.inl ⟨i, hi, ?_⟩))
  rcases sides with ⟨left, right⟩ | ⟨left, right⟩
  · exact left.trans separate (joined.trans separate right.symm)
  · exact left.trans separate (joined.symm.trans separate right.symm)

/-! ## Entailed atoms -/

section Entailed

variable (entailed : ∀ a ∈ d.atoms, c.entails a = true)
include entailed

theorem joined_of_mem_equalities (he : e ∈ d.equalities) :
    Joined c.classes e.left.key e.right.key := by
  obtain ⟨present, equal⟩ := mem_comparisons.1 he
  obtain ⟨relation, s, t⟩ := e
  cases equal
  exact entails_equal_iff.1 (entailed _ present)

theorem opposed_of_mem_inequalities (he : e ∈ d.inequalities) :
    c.Opposed e.left.key e.right.key := by
  obtain ⟨present, different⟩ := mem_comparisons.1 he
  obtain ⟨relation, s, t⟩ := e
  cases different
  exact entails_different_iff.1 (entailed _ present)

/-- The classes of entailed equalities are parts of classes. -/
theorem Joined.of_entailed (joined : Joined d.classes k l) : Joined c.classes k l :=
  joined.of_equalities c.separate_classes.equivalence fun _ => joined_of_mem_equalities entailed

theorem Opposed.of_entailed (opposed : d.Opposed k l) : c.Opposed k l := by
  obtain ⟨i, hi, sides⟩ := opposed
  have own := opposed_of_mem_inequalities entailed hi
  rcases sides with ⟨left, right⟩ | ⟨left, right⟩
  · exact own.of_joined (left.of_entailed entailed) (right.of_entailed entailed)
  · exact (own.of_joined (left.of_entailed entailed) (right.of_entailed entailed)).symm

theorem isContradiction_of_entailed (contradiction : d.isContradiction = true) :
    c.isContradiction = true := by
  rcases isContradiction_iff.1 contradiction with
    absurd | ⟨i, hi, joined⟩ | ⟨s, t, hs, ht, joined, differ⟩
  · cases entailed _ absurd
  · exact (opposed_of_mem_inequalities entailed hi).isContradiction (joined.of_entailed entailed)
  · exact isContradiction_iff.2 (.inr (.inr ⟨s, t, hs, ht, joined.of_entailed entailed, differ⟩))

theorem entails_of_entailed (h : d.entails a = true) : c.entails a = true := by
  cases a with
  | truth b => exact h
  | predicate a =>
    obtain ⟨between, present, name, terms⟩ := entails_predicate_iff.1 h
    obtain ⟨own, present', name', terms'⟩ := entails_predicate_iff.1 (entailed _ present)
    refine entails_predicate_iff.2 ⟨own, present', name'.trans name, ?_⟩
    -- rows of equivalent terms are equal rows of classes
    have row := map_element_eq_iff.{0}.2 (terms.imp fun k l => Joined.of_entailed entailed)
    exact map_element_eq_iff.1 ((map_element_eq_iff.2 terms').trans row)
  | comparison i =>
    obtain ⟨relation, s, t⟩ := i
    cases relation with
    | equal => exact entails_equal_iff.2 ((entails_equal_iff.1 h).of_entailed entailed)
    | different =>
      exact entails_different_iff.2 ((entails_different_iff.1 h).of_entailed entailed)

end Entailed

/-! ## Implied conjunctions -/

theorem impliesAtom_of_mem (ha : a ∈ c.atoms) : c.impliesAtom a = true := by
  by_cases possible : a = .truth false
  · subst possible
    exact impliesAtom_iff.2 (.inl (isContradiction_iff.2 (.inl ha)))
  · exact impliesAtom_iff.2 (.inr (entails_of_mem ha possible))

theorem impliesAtom_of_implies (implied : c.implies d = true) (h : d.impliesAtom a = true) :
    c.impliesAtom a = true := by
  cases consistent : c.isContradiction with
  | true => exact impliesAtom_iff.2 (.inl consistent)
  | false =>
    have entailed : ∀ b ∈ d.atoms, c.entails b = true := by
      intro b hb
      exact (impliesAtom_iff.1 (implies_iff.1 implied b hb)).resolve_left (by simp [consistent])
    rcases impliesAtom_iff.1 h with contradiction | h
    · exact impliesAtom_iff.2 (.inl (isContradiction_of_entailed entailed contradiction))
    · exact impliesAtom_iff.2 (.inr (entails_of_entailed entailed h))

/-- A conjunction implies another one just if it implies every atom that the other one implies. -/
theorem implies_iff_impliesAtom :
    c.implies d = true ↔ ∀ a, d.impliesAtom a = true → c.impliesAtom a = true := by
  constructor
  · exact fun implied a h => impliesAtom_of_implies implied h
  · intro all
    exact implies_iff.2 fun a ha => all a (impliesAtom_of_mem ha)

/-- Implication is a preorder of conjunctions, contradictions and tautologies included. -/
theorem implies_preorder (a b c : Cube) :
    a.implies a = true ∧ (a.implies b = true → b.implies c = true → a.implies c = true) := by
  simp only [implies_iff_impliesAtom]
  refine ⟨fun _ h => h, fun hab hbc x h => ?_⟩
  exact hab x (hbc x h)

/-- `R(x, y), x = y, y = z, z != w` -/
def equatedEdge : Cube :=
  ofAtoms [
    .predicate ⟨"R", [.var ⟨⟨"x", none⟩, .undefined⟩, .var ⟨⟨"y", none⟩, .undefined⟩], .role⟩,
    .comparison ⟨.equal, .var ⟨⟨"x", none⟩, .undefined⟩, .var ⟨⟨"y", none⟩, .undefined⟩⟩,
    .comparison ⟨.equal, .var ⟨⟨"y", none⟩, .undefined⟩, .var ⟨⟨"z", none⟩, .undefined⟩⟩,
    .comparison ⟨.different, .var ⟨⟨"z", none⟩, .undefined⟩, .var ⟨⟨"w", none⟩, .undefined⟩⟩]

/-- `R(z, z), z = x, x != w` -/
def loopApart : Cube :=
  ofAtoms [
    .predicate ⟨"R", [.var ⟨⟨"z", none⟩, .undefined⟩, .var ⟨⟨"z", none⟩, .undefined⟩], .role⟩,
    .comparison ⟨.equal, .var ⟨⟨"z", none⟩, .undefined⟩, .var ⟨⟨"x", none⟩, .undefined⟩⟩,
    .comparison ⟨.different, .var ⟨⟨"x", none⟩, .undefined⟩, .var ⟨⟨"w", none⟩, .undefined⟩⟩]

/-- `R(x, z), w != z` -/
def edgeApart : Cube :=
  ofAtoms [
    .predicate ⟨"R", [.var ⟨⟨"x", none⟩, .undefined⟩, .var ⟨⟨"z", none⟩, .undefined⟩], .role⟩,
    .comparison ⟨.different, .var ⟨⟨"w", none⟩, .undefined⟩, .var ⟨⟨"z", none⟩, .undefined⟩⟩]

/-- Three conjunctions of which each implies the next one, and none the one before. -/
theorem equatedEdge_implies_edgeApart :
    equatedEdge.implies loopApart = true ∧ loopApart.implies edgeApart = true ∧
    equatedEdge.implies edgeApart = true ∧
    loopApart.implies equatedEdge = false ∧ edgeApart.implies loopApart = false := by
  have first : equatedEdge.implies loopApart = true := by decide
  have second : loopApart.implies edgeApart = true := by decide
  exact ⟨first, second, (implies_preorder _ loopApart _).2 first second, by decide, by decide⟩

end Cube
end QueryCalculus
