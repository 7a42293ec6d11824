import QueryCalculus.Formula.Explicit
import QueryCalculus.Formula.Substitution

/-!
# Renaming apart

- `Formula.Apart.State` : the names that may not be bound again and those no fresh name may have
- `Formula.renameApart` : no two quantifiers bind the same name, and none binds that of a free
  variable

The renamings made at a quantifier are handed down and applied where the variables occur.
-/

namespace QueryCalculus
namespace Formula
namespace Apart

/-- What has been seen so far: `bound` holds the free names and the names bound by the quantifiers
visited, `taken` every name that a fresh variable must not have. -/
structure State where
  bound : List String
  taken : List String

abbrev Renaming := List (Variable × Variable)

def applyTerm (pending : Renaming) (t : Term) : Term :=
  pending.foldl (fun t pair => Substitution.apply [(pair.1, .var pair.2)] t) t

def applySet (pending : Renaming) (vars : VarSet) : VarSet :=
  pending.foldl (fun vars pair => vars.replace [(pair.1, .var pair.2)]) vars

/-- Binds the listed variables one after the other. A variable whose name is bound already gets a
fresh name, and its renaming is appended to the pending ones. -/
def bind (alphabet : Alphabet) :
    List Variable → VarSet → Renaming → State → (VarSet × Renaming) × State
  | [], done, pending, state => ((done, pending), state)
  | x :: xs, done, pending, state =>
    if state.bound.contains x.name then
      let y := x.renamed (alphabet.fresh state.taken)
      bind alphabet xs (done.insert y) (pending ++ [(x, y)])
        { bound := y.name :: state.bound, taken := y.name :: state.taken }
    else
      bind alphabet xs (done.insert x) pending { state with bound := x.name :: state.bound }

end Apart

mutual

/-- The formula with the pending renamings applied and its quantified variables renamed apart. -/
def apart (alphabet : Alphabet) (pending : Apart.Renaming) :
    Formula → Apart.State → Formula × Apart.State
  | .atom a, state => (.atom (a.mapTerms (Apart.applyTerm pending)), state)
  | .junction c parts, state =>
    let (parts, state) := apartAll alphabet pending parts state
    (.junction c parts, state)
  | .neg body, state =>
    let (body, state) := body.apart alphabet pending state
    (.neg body, state)
  | .quant q vars body, state =>
    -- renamings of outer quantifiers reach inner binders of the same name as well
    let listed := (Apart.applySet pending vars).toList
    let ((vars, pending), state) := Apart.bind alphabet listed ∅ pending state
    let (body, state) := body.apart alphabet pending state
    (.quant q vars body, state)

def apartAll (alphabet : Alphabet) (pending : Apart.Renaming) :
    List Formula → Apart.State → List Formula × Apart.State
  | [], state => ([], state)
  | f :: fs, state =>
    let (g, state) := f.apart alphabet pending state
    let (gs, state) := apartAll alphabet pending fs state
    (g :: gs, state)

end

/-- Renames quantified variables so that every name is bound at most once and no free name is
bound. -/
def renameApart (alphabet : Alphabet) (f : Formula) : Formula :=
  (f.apart alphabet [] { bound := f.free.toList.map (·.name), taken := f.names }).1

end Formula
end QueryCalculus
