import QueryCalculus.Formula.Variables

/-!
# Explicit blanks

- `Naming` : a computation that draws fresh names, with the names used so far as state
- `Formula.explicit` : every occurrence of the blank gets a name of its own
- `PredicateAtom.explode` : constants and repeated variables become equalities
-/

namespace QueryCalculus

/-- Computations that draw fresh names and keep the list of names in use. -/
abbrev Naming := StateM (List String)

/-- Draws the next free name and takes it. -/
def Naming.draw (alphabet : Alphabet) : Naming String := do
  let name := alphabet.fresh (← get)
  modify (name :: ·)
  return name

/-! ## Naming the blanks -/

def Term.explicit (alphabet : Alphabet) : Term → Naming Term
  | .var x =>
    if x.isBlank then do
      return .var (x.renamed (← Naming.draw alphabet))
    else
      return .var x
  | .const c => return .const c

def Atom.explicit (alphabet : Alphabet) : Atom → Naming Atom
  | .truth b => return .truth b
  | .predicate a => return .predicate { a with terms := ← a.terms.mapM (Term.explicit alphabet) }
  | .comparison c => do
    let left ← c.left.explicit alphabet
    let right ← c.right.explicit alphabet
    return .comparison { c with left, right }

namespace Formula

mutual

def nameBlanks (alphabet : Alphabet) : Formula → Naming Formula
  | .atom a => return .atom (← a.explicit alphabet)
  | .junction c parts => return .junction c (← nameBlanksAll alphabet parts)
  | .neg body => return .neg (← body.nameBlanks alphabet)
  | .quant q vars body => return .quant q vars (← body.nameBlanks alphabet)

def nameBlanksAll (alphabet : Alphabet) : List Formula → Naming (List Formula)
  | [] => return []
  | f :: fs => do
    let g ← f.nameBlanks alphabet
    return g :: (← nameBlanksAll alphabet fs)

end

/-- Gives every occurrence of the blank a fresh name, depth first. -/
def explicit (alphabet : Alphabet) (f : Formula) : Formula :=
  (f.nameBlanks alphabet f.names).1

end Formula

/-! ## Exploding an atom -/

namespace PredicateAtom

/-- What has been decided about the terms of an atom read so far. -/
structure Exploded where
  terms : List Term := []
  added : List Variable := []
  equalities : List Formula := []

/-- A blank and the first occurrence of a variable stay. Any other term is replaced by a fresh
variable that an equality ties to it. -/
def explodeTerms (alphabet : Alphabet) :
    List Variable → List Term → Exploded → Naming Exploded
  | _, [], done => return done
  | seen, term :: rest, done => do
    let kept := match term with
      | .var x => x.isBlank || !seen.contains x
      | .const _ => false
    let seen := seen ++ variablesOf [term]
    if kept then
      explodeTerms alphabet seen rest { done with terms := done.terms ++ [term] }
    else
      let x : Variable := { name := ← Naming.draw alphabet, type := term.type }
      explodeTerms alphabet seen rest
        { terms := done.terms ++ [.var x]
          added := done.added ++ [x]
          equalities := done.equalities ++ [.equal (.var x) term] }

/-- The atom with pairwise different variables as terms, together with the equalities that give
them their values. -/
def explode (alphabet : Alphabet) (a : PredicateAtom) : Formula :=
  let reserved := a.vars.map (·.name)
  let done := (explodeTerms alphabet [] a.terms {} reserved).1
  let plain := Formula.predicate { a with terms := done.terms }
  if done.added.isEmpty then plain
  else .quant .exist (VarSet.ofList done.added) (.junction .and (plain :: done.equalities))

end PredicateAtom
end QueryCalculus
