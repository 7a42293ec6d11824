import QueryCalculus.Command.Arguments
import QueryCalculus.Command.Files
import QueryCalculus.Command.Report
import QueryCalculus.Settings

/-!
# Running a command line

- `World` : what a run can read
- `Outcome` : its exit status and what it prints
- `run` : the outcome of a command line
-/

namespace QueryCalculus
namespace Command

/-- What the paths of files lead to, and the standard input, both as bytes. -/
structure World where
  read : String → Except ReadFault Csv.Bytes
  input : Csv.Bytes

structure Outcome where
  status : UInt32 := 0
  output : String := ""
  errors : String := ""

namespace Outcome

def printed (text : String) : Outcome :=
  { output := text ++ "\n" }

def failed (report : Report) : Outcome :=
  { status := 1, errors := report.text }

end Outcome

def versionText : String :=
  "fol-query 0.1.0"

def usageText : String :=
  "Usage: fol-query <sql|sparql|normalize> [--query <QUERY> | --file <FILE>] [OPTIONS]"

/-- Wrong arguments end with status two. -/
def Refusal.outcome : Refusal → Outcome
  | .wrong => { status := 2, errors := usageText ++ "\n" }
  | .version => Outcome.printed versionText
  | .help => Outcome.printed usageText

/-! ## Reading -/

def malformedText : String :=
  "stream did not contain valid UTF-8"

def decodeText (context : String) (bytes : Csv.Bytes) : Except Report String :=
  match Csv.decode? bytes with
  | some text => .ok text
  | none => .error { message := context, causes := [malformedText] }

/-- The text of the query. The standard input must hold more than blanks. -/
def readQuery (world : World) : Source → Except Report String
  | .given text => .ok text
  | .file path =>
    let context := "Could not read the query file " ++ path
    match world.read path with
    | .ok bytes => decodeText context bytes
    | .error fault => .error { message := context, causes := [fault.message] }
  | .input => do
    let text ← decodeText "Could not read the query from stdin" world.input
    if Text.trim text = "" then
      throw { message := "No query given, use --query, --file or stdin" }
    else
      return text

def readFormula (world : World) (source : Source) : Except Report Formula := do
  let text ← readQuery world source
  match Datalog.Query.parse none 0 text with
  | .ok query => return query.toFormula
  | .error e => throw { message := "Invalid query " ++ Text.trim text, causes := e.causes }

def readSchema (world : World) (path : String) : Except Report Schema :=
  let context := "Could not load the schema mapping " ++ path
  match world.read path with
  | .error fault =>
    .error
      { message := context
        causes := ["Could not read the schema mapping: " ++ fault.message, fault.message] }
  | .ok bytes =>
    (Schema.ofCsv bytes).mapError fun e => { message := context, causes := [e.message] }

/-! ## Running -/

def normalText (settings : Settings) (options : NormalizeOptions) (f : Formula) : String :=
  let pushed := if options.pushNegation then f.pushNegation else f
  let normal := settings.normalize pushed
  (if options.prenex then settings.prenex normal else normal).text

def perform (world : World) (request : Request) : Except Report String :=
  let settings : Settings := { optimize := request.optimize }
  match request.task with
  | .sql options => do
    let schema ← readSchema world options.schema
    let settings :=
      { settings with
        distinct := options.distinct
        labelColumns := options.labelColumns
        labelPrefix := options.labelPrefix.getD settings.labelPrefix }
    let f ← readFormula world request.source
    (settings.sql schema f).mapError fun e => { message := e.message }
  | .sparql => do
    let f ← readFormula world request.source
    (settings.sparql f).mapError fun e => { message := e.message }
  | .normalize options => do
    return normalText settings options (← readFormula world request.source)

/-- The outcome of a command line. -/
def run (world : World) (arguments : List String) : Outcome :=
  match Request.ofArguments arguments with
  | .error refusal => refusal.outcome
  | .ok request =>
    match perform world request with
    | .ok text => Outcome.printed text
    | .error report => Outcome.failed report

/-- The files a command line asks for. -/
def pathsOf (arguments : List String) : List String :=
  match Request.ofArguments arguments with
  | .error _ => []
  | .ok request =>
    (match request.task with
      | .sql options => [options.schema]
      | _ => []) ++
    match request.source with
    | .file path => [path]
    | _ => []

/-- Whether a command line reads the standard input. -/
def readsInput (arguments : List String) : Bool :=
  match Request.ofArguments arguments with
  | .error _ => false
  | .ok request => request.source = .input

end Command
end QueryCalculus
