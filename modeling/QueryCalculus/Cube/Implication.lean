import QueryCalculus.Cube.Basic
import QueryCalculus.Term.Substitution

/-!
# Implied atoms

- `choices` : one element from each list, in all ways
- `Cube.saturation` : the atoms that follow by replacing equals by equals
- `Cube.impliesAtom`, `Cube.implies` : implication, decided on the classes
- `Cube.impliesSome` : implication of some instance of a conjunction
-/

namespace QueryCalculus

/-! ## Combinations -/

/-- All lists that take their elements from the given lists, the last choice varying fastest. -/
def choices {α : Type} : List (List α) → List (List α)
  | [] => [[]]
  | xs :: rest => xs.flatMap fun x => (choices rest).map (x :: ·)

/-- All pairs of an element and a later one. -/
def pairs {α : Type} : List α → List (α × α)
  | [] => []
  | x :: xs => xs.map (x, ·) ++ pairs xs

namespace Cube

/-! ## Saturation -/

/-- The atoms obtained by replacing the terms of a predicate atom by equivalent ones. -/
def saturatePredicate (c : Cube) (a : PredicateAtom) : List PredicateAtom :=
  (choices (a.terms.map c.equivalentTerms)).map fun terms => { a with terms }

def saturateInequality (c : Cube) (i : Comparison) : List Comparison :=
  (c.equivalentTerms i.left).flatMap fun left =>
    (c.equivalentTerms i.right).map fun right => ⟨.different, left, right⟩

/-- The equalities of all equivalent terms, and the predicate atoms and inequalities with their
terms replaced by equivalent ones. -/
def saturation (c : Cube) : Cube :=
  ofAtoms <|
    (c.classes.flatMap fun group =>
      (pairs group).map fun pair => Atom.comparison ⟨.equal, pair.1, pair.2⟩) ++
    (c.predicates.flatMap c.saturatePredicate).map Atom.predicate ++
    (c.inequalities.flatMap c.saturateInequality).map Atom.comparison

/-! ## Implication -/

def sameInstance (classes : List (List Term)) (a b : PredicateAtom) : Bool :=
  a.predicate == b.predicate && a.arity == b.arity &&
    (a.terms.zip b.terms).all fun pair => equivalentIn classes pair.1 pair.2

def sameSides (classes : List (List Term)) (i j : Comparison) : Bool :=
  equivalentIn classes i.left j.left && equivalentIn classes i.right j.right ||
    equivalentIn classes i.left j.right && equivalentIn classes i.right j.left

/-- Whether an atom follows from a conjunction that is not a contradiction. -/
def entails (c : Cube) : Atom → Bool
  | .truth b => b
  | .predicate a => c.predicates.any (sameInstance c.classes · a)
  | .comparison ⟨.equal, left, right⟩ => equivalentIn c.classes left right
  | .comparison ⟨.different, left, right⟩ =>
    c.inequalities.any (sameSides c.classes · ⟨.different, left, right⟩)

def impliesAtom (c : Cube) (a : Atom) : Bool :=
  c.isContradiction || c.entails a

/-- Whether every atom of the second conjunction follows from the first one. -/
def implies (c d : Cube) : Bool :=
  c.isContradiction || d.isTautology || d.atoms.all c.entails

/-- The variables of the predicate atoms of `d` that do not occur in `c`. -/
def openVariables (c d : Cube) : List Variable :=
  ((d.predicates.flatMap PredicateAtom.vars).filter
    fun x => !c.terms.contains (.var x)).eraseDups

def substitute (s : Substitution) (c : Cube) : Cube :=
  ofAtoms (c.atoms.map (Atom.mapTerms s.apply))

/-- Whether the second conjunction follows once its open variables are replaced by suitable terms
of the first one. -/
def impliesSome (c d : Cube) : Bool :=
  if c.isContradiction || d.isTautology then true
  else
    let vars := c.openVariables d
    (choices (vars.map fun _ => c.terms)).any fun chosen =>
      c.implies (d.substitute (vars.zip chosen))

end Cube
end QueryCalculus
