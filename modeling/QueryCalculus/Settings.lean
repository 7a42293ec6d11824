import QueryCalculus.Formula.Optimize
import QueryCalculus.Formula.Prenex
import QueryCalculus.Sparql.Compile
import QueryCalculus.Sql.Compile

/-!
# Compiling with settings

- `Settings` : the choices left to the user
- `Settings.normalize`, `Settings.prenex` : normal forms under these choices
- `Settings.sql`, `Settings.sparql` : the queries for a formula
-/

namespace QueryCalculus

/-- The choices of a compilation. Without an alphabet, fresh names are made of the characters of the
names in the formula. -/
structure Settings where
  alphabet : Option Alphabet := none
  distinct : Bool := true
  optimize : Bool := true
  labelPrefix : String := "X"
  labelColumns : Bool := false

namespace Settings

def normalize (s : Settings) (f : Formula) : Formula :=
  if s.optimize then f.flatten.optimize else f.flatten

def prenex (s : Settings) (f : Formula) : Formula :=
  f.prenex (s.alphabet.getD f.activeAlphabet)

/-- Numbers the free variables in their order. -/
def labels (s : Settings) (f : Formula) : Sql.Labels :=
  if s.labelColumns then
    f.free.toList.zipIdx.map fun entry => (entry.1, s.labelPrefix ++ toString entry.2)
  else []

def sql (s : Settings) (schema : Schema) (f : Formula) : Except Sql.Error String :=
  let normal := s.normalize f
  Sql.compileText schema (s.labels normal) s.distinct normal

def sparql (s : Settings) (f : Formula) : Except Sparql.Error String :=
  Sparql.compileText (s.normalize f)

end Settings
end QueryCalculus
