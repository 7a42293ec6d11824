import QueryCalculus.Command.Run

/-!
# The program

Reads the files and the input that the command line asks for, and prints its outcome.
-/

namespace QueryCalculus

def faultOf : IO.Error → Command.ReadFault
  | .noFileOrDirectory _ number text | .interrupted _ number text => ⟨number.toNat, text⟩
  | .invalidArgument _ number text | .permissionDenied _ number text
  | .resourceExhausted _ number text | .inappropriateType _ number text
  | .noSuchThing _ number text | .alreadyExists _ number text => ⟨number.toNat, text⟩
  | .otherError number text | .hardwareFault number text => ⟨number.toNat, text⟩
  | e => ⟨5, toString e⟩

def readBytes (path : String) : IO (Except Command.ReadFault Csv.Bytes) := do
  try
    let bytes ← IO.FS.readBinFile path
    return .ok bytes.toList
  catch e =>
    return .error (faultOf e)

/-- The standard input up to its end. -/
def readInput : IO Csv.Bytes := do
  let bytes ← (← IO.getStdin).readBinToEnd
  return bytes.toList

end QueryCalculus

open QueryCalculus in
def main (arguments : List String) : IO UInt32 := do
  let files ← (Command.pathsOf arguments).mapM fun path => return (path, ← readBytes path)
  let input ← if Command.readsInput arguments then readInput else pure []
  let read := fun path => ((files.find? (·.1 = path)).map Prod.snd).getD (.error .missing)
  let outcome := Command.run { read, input } arguments
  IO.print outcome.output
  IO.eprint outcome.errors
  return outcome.status
