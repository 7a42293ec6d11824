import QueryCalculus.Formula.Basic

/-!
# Cubes

- `Cube` : a conjunction of different atoms, where comparisons count up to swapping their sides
- `Cube.ofFormula?` : the atoms of a nested conjunction
- `Cube.classes` : the sets of terms that the equalities make equal
- `Cube.isContradiction` : unsatisfiability, decided on the classes
-/

namespace QueryCalculus

structure Cube where
  atoms : List Atom
  deriving Repr

mutual

/-- The atoms of a formula that is built from atoms by conjunction alone. -/
def Formula.conjoinedAtoms? : Formula → Option (List Atom)
  | .atom a => some [a]
  | .junction .and parts => conjoinedAtomsAll? parts
  | _ => none

def Formula.conjoinedAtomsAll? : List Formula → Option (List Atom)
  | [] => some []
  | f :: fs => do
    let first ← f.conjoinedAtoms?
    let rest ← conjoinedAtomsAll? fs
    return first ++ rest

end

namespace Cube

/-- The conjunction of the listed atoms. Of equal atoms the first one is kept. -/
def ofAtoms (atoms : List Atom) : Cube :=
  ⟨atoms.eraseDups⟩

def ofFormula? (f : Formula) : Option Cube :=
  f.conjoinedAtoms?.map ofAtoms

def insert (c : Cube) (a : Atom) : Cube :=
  if c.atoms.contains a then c else ⟨c.atoms ++ [a]⟩

def predicates (c : Cube) : List PredicateAtom :=
  c.atoms.filterMap Atom.predicate?

def comparisons (c : Cube) (relation : Relation) : List Comparison :=
  (c.atoms.filterMap Atom.comparison?).filter (·.relation = relation)

def equalities (c : Cube) : List Comparison :=
  c.comparisons .equal

def inequalities (c : Cube) : List Comparison :=
  c.comparisons .different

/-- The terms in the order of their first occurrence. -/
def terms (c : Cube) : List Term :=
  (c.atoms.flatMap Atom.terms).eraseDups

def toFormula (c : Cube) : Formula :=
  .junction .and (c.atoms.map .atom)

def text (c : Cube) : String :=
  String.intercalate " AND " (c.atoms.map Atom.text)

/-! ## Equivalent terms -/

def appendNew (group : List Term) (t : Term) : List Term :=
  if group.contains t then group else group ++ [t]

/-- Merges the classes of the two sides of an equality. The merged class comes last. -/
def mergeClasses (classes : List (List Term)) (equality : Comparison) : List (List Term) :=
  let touched := fun (group : List Term) =>
    group.contains equality.left || group.contains equality.right
  let merged := (classes.filter touched).flatten
  classes.filter (!touched ·) ++ [appendNew (appendNew merged equality.left) equality.right]

/-- The sets of terms that the equalities make equal. -/
def classes (c : Cube) : List (List Term) :=
  c.equalities.foldl mergeClasses []

/-- The class of a term, which is the term alone if no equality mentions it. -/
def classIn (classes : List (List Term)) (t : Term) : List Term :=
  (classes.find? (·.contains t)).getD [t]

def equivalentTerms (c : Cube) (t : Term) : List Term :=
  classIn c.classes t

def equivalentIn (classes : List (List Term)) (s t : Term) : Bool :=
  s == t || classes.any fun group => group.contains s && group.contains t

/-! ## Satisfiability -/

/-- Whether a class holds two constants, which are different since no term occurs twice. -/
def hasConflict (group : List Term) : Bool :=
  1 < group.countP Term.isConstant

/-- Whether the conjunction is false whatever the predicates mean: it contains the false atom, an
inequality of equivalent terms, or equates two constants. -/
def isContradiction (c : Cube) : Bool :=
  c.atoms.contains (.truth false) ||
    c.inequalities.any (fun i => equivalentIn c.classes i.left i.right) ||
    c.classes.any hasConflict

/-- Whether all atoms are trivially true. -/
def isTautology (c : Cube) : Bool :=
  c.atoms.all Atom.isTautology

/-- Whether the sides of an inequality are not equivalent. -/
def isConsistentWith (c : Cube) (inequality : Comparison) : Bool :=
  !equivalentIn c.classes inequality.left inequality.right

end Cube
end QueryCalculus
