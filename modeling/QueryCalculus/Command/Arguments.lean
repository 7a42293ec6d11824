/-!
# Command line arguments

- `Request` : what a command line asks for
- `Refusal` : why there is nothing to do
- `Request.ofArguments` : reads the arguments

Options come as `--option value`, `--option=value`, `-o value` or `-ovalue`, each at most once. The
word behind an option that takes a value is its value unless it starts with a dash itself.
-/

namespace QueryCalculus
namespace Command

/-- Where the query comes from: the command line, a file or the standard input. -/
inductive Source
  | given (text : String)
  | file (path : String)
  | input
  deriving DecidableEq, Repr

structure SqlOptions where
  schema : String
  distinct : Bool
  labelColumns : Bool
  labelPrefix : Option String
  deriving DecidableEq, Repr

structure NormalizeOptions where
  pushNegation : Bool
  prenex : Bool
  deriving DecidableEq, Repr

inductive Task
  | sql (options : SqlOptions)
  | sparql
  | normalize (options : NormalizeOptions)
  deriving DecidableEq, Repr

structure Request where
  task : Task
  source : Source
  optimize : Bool
  deriving DecidableEq, Repr

/-- The arguments are wrong, or ask for the version or for help. -/
inductive Refusal
  | wrong
  | version
  | help
  deriving DecidableEq, Repr

/-! ## Options -/

inductive TaskName
  | sql
  | sparql
  | normalize
  deriving DecidableEq, Repr

def TaskName.ofWord? : String → Option TaskName
  | "sql" => some .sql
  | "sparql" => some .sparql
  | "normalize" => some .normalize
  | _ => none

inductive OptionName
  | query
  | file
  | noOptimize
  | schema
  | noDistinct
  | aliasColumns
  | aliasPrefix
  | pushNegation
  | prenex
  | help
  deriving DecidableEq, Repr

namespace OptionName

def takesValue : OptionName → Bool
  | .query | .file | .schema | .aliasPrefix => true
  | _ => false

/-- The value of an option for a path is not empty. -/
def takesPath : OptionName → Bool
  | .file | .schema => true
  | _ => false

/-- The options of a task by their long names. -/
def long (task : TaskName) : List (String × OptionName) :=
  [("query", .query), ("file", .file), ("no-optimize", .noOptimize), ("help", .help)] ++
    match task with
    | .sql =>
      [("schema", .schema), ("no-distinct", .noDistinct), ("alias-columns", .aliasColumns),
        ("alias-prefix", .aliasPrefix)]
    | .sparql => []
    | .normalize => [("push-negation", .pushNegation), ("prenex", .prenex)]

/-- The options of a task by their letters. -/
def short (task : TaskName) : List (Char × OptionName) :=
  [('q', .query), ('f', .file), ('h', .help)] ++
    match task with
    | .sql => [('s', .schema)]
    | .sparql | .normalize => []

def ofLong? (task : TaskName) (name : String) : Option OptionName :=
  ((long task).find? (·.1 = name)).map Prod.snd

def ofShort? (task : TaskName) (letter : Char) : Option OptionName :=
  ((short task).find? (·.1 = letter)).map Prod.snd

end OptionName

/-- The options read so far with their values. -/
abbrev Given := List (OptionName × String)

namespace Given

def find? (given : Given) (name : OptionName) : Option String :=
  (List.find? (fun entry => entry.1 = name) given).map Prod.snd

def has (given : Given) (name : OptionName) : Bool :=
  (given.find? name).isSome

/-- Adds an option that has not been given yet. -/
def add (given : Given) (name : OptionName) (value : String) : Except Refusal Given :=
  if given.has name then .error .wrong
  else if name.takesPath && value = "" then .error .wrong
  else .ok (given ++ [(name, value)])

/-- Adds an option without value. -/
def addFlag (given : Given) (name : OptionName) : Except Refusal Given :=
  if name = .help then .error .help else given.add name ""

end Given

/-! ## Reading options -/

/-- A word that starts with a dash and has more than that is no value. -/
def looksLikeOption (word : String) : Bool :=
  match word.toList with
  | '-' :: _ :: _ => true
  | _ => false

/-- What a word that names options leaves to be done: an option may wait for its value. -/
structure Progress where
  given : Given
  waiting : Option OptionName := none

/-- Reads the letters behind a single dash. A letter that takes a value takes the rest of the word,
behind an equals sign if there is one. -/
def readLetters (task : TaskName) (given : Given) : List Char → Except Refusal Progress
  | [] => .ok { given }
  | letter :: rest =>
    match OptionName.ofShort? task letter with
    | none => .error .wrong
    | some name =>
      if name.takesValue then
        match rest with
        | [] => .ok { given, waiting := some name }
        | '=' :: value => do return { given := ← given.add name (String.ofList value) }
        | value => do return { given := ← given.add name (String.ofList value) }
      else do
        readLetters task (← given.addFlag name) rest

/-- Reads an option behind two dashes, with or without a value behind an equals sign. -/
def readLong (task : TaskName) (given : Given) (word : List Char) : Except Refusal Progress :=
  match OptionName.ofLong? task (String.ofList (word.takeWhile (· ≠ '='))) with
  | none => .error .wrong
  | some name =>
    match word.dropWhile (· ≠ '=') with
    | [] =>
      if name.takesValue then .ok { given, waiting := some name }
      else do return { given := ← given.addFlag name }
    | _ :: value =>
      if name.takesValue then do return { given := ← given.add name (String.ofList value) }
      else .error .wrong

/-- Reads the options of a task. Words that are neither options nor their values are refused. -/
def readOptions (task : TaskName) : Progress → List String → Except Refusal Given
  | ⟨given, none⟩, [] => .ok given
  | ⟨_, some _⟩, [] => .error .wrong
  | ⟨given, some name⟩, word :: words =>
    if looksLikeOption word then .error .wrong
    else do readOptions task { given := ← given.add name word } words
  | ⟨given, none⟩, word :: words =>
    match word.toList with
    | ['-', '-'] => if words.isEmpty then .ok given else .error .wrong
    | '-' :: '-' :: long => do readOptions task (← readLong task given long) words
    | '-' :: letter :: letters => do
      readOptions task (← readLetters task given (letter :: letters)) words
    | _ => .error .wrong

/-! ## Requests -/

/-- The query is given once, by one option or by none. -/
def sourceOf (given : Given) : Except Refusal Source :=
  match given.find? .query, given.find? .file with
  | some _, some _ => .error .wrong
  | some text, none => .ok (.given text)
  | none, some path => .ok (.file path)
  | none, none => .ok .input

def taskOf (given : Given) : TaskName → Except Refusal Task
  | .sql =>
    match given.find? .schema with
    | none => .error .wrong
    | some schema =>
      if given.has .aliasPrefix && !given.has .aliasColumns then .error .wrong
      else
        .ok (.sql
          { schema
            distinct := !given.has .noDistinct
            labelColumns := given.has .aliasColumns
            labelPrefix := given.find? .aliasPrefix })
  | .sparql => .ok .sparql
  | .normalize =>
    .ok (.normalize { pushNegation := given.has .pushNegation, prenex := given.has .prenex })

/-- What a word in front of a task asks for. -/
def refusalOf (word : String) : Refusal :=
  if word = "--version" then .version
  else if word = "--help" then .help
  else
    match word.toList with
    | '-' :: 'V' :: _ => .version
    | '-' :: 'h' :: _ => .help
    | _ => .wrong

/-- What is asked for by the words behind `help`, which may name one task or `help` itself. -/
def helpFor : List String → Refusal
  | [] => .help
  | [word] => if word = "help" ∨ (TaskName.ofWord? word).isSome then .help else .wrong
  | _ => .wrong

/-- Reads a command line: the name of a task, then its options. -/
def Request.ofArguments : List String → Except Refusal Request
  | [] => .error .wrong
  | "help" :: words => .error (helpFor words)
  | word :: words =>
    match TaskName.ofWord? word with
    | none => .error (refusalOf word)
    | some name => do
      let given ← readOptions name { given := [] } words
      return { task := ← taskOf given name
               source := ← sourceOf given
               optimize := !given.has .noOptimize }

end Command
end QueryCalculus
