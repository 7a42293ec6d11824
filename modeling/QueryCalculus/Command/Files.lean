import QueryCalculus.Csv

/-!
# Reading files

- `ReadFault` : why a file cannot be read
- `Directory` : a working directory with the files below it
- `Directory.read` : the contents of the file at a path

A path is followed name by name from the working directory. Every name but the last must lead to a
directory, and so must the last one if a slash follows it.
-/

namespace QueryCalculus
namespace Command

/-- A fault of the file system, with its number. -/
structure ReadFault where
  number : Nat
  text : String
  deriving DecidableEq, Repr

namespace ReadFault

def message (fault : ReadFault) : String :=
  fault.text ++ " (os error " ++ toString fault.number ++ ")"

def missing : ReadFault := ⟨2, "No such file or directory"⟩
def notDirectory : ReadFault := ⟨20, "Not a directory"⟩
def isDirectory : ReadFault := ⟨21, "Is a directory"⟩
def nameTooLong : ReadFault := ⟨36, "File name too long"⟩

end ReadFault

/-! ## Directories -/

/-- A working directory. Of files with the same path the last one counts. -/
structure Directory where
  files : List (String × Csv.Bytes)

/-- What a path leads to: a file, a directory below the working directory, given by the names on the
way, or a directory outside of it. -/
inductive Entry
  | file (bytes : Csv.Bytes)
  | inside (names : List String)
  | outside

namespace Directory

/-- The names of a path, with empty names for doubled slashes and slashes at its ends. -/
def namesOf (path : String) : List String :=
  path.splitOn "/"

def longestName : Nat := 255

def longestPath : Nat := 4095

/-- The entry called `name` in the directory that the names lead to. -/
def child? (d : Directory) (names : List String) (name : String) : Option Entry :=
  let way := names ++ [name]
  match d.files.reverse.find? (namesOf ·.1 = way) with
  | some (_, bytes) => some (.file bytes)
  | none =>
    if d.files.any fun file => way.isPrefixOf (namesOf file.1) then some (.inside way) else none

/-- One step from an entry. Nothing but further directories is known outside of the working
directory. -/
def step (d : Directory) (entry : Entry) (name : String) : Except ReadFault Entry :=
  match entry with
  | .file _ => .error .notDirectory
  | .inside names =>
    if name = "" ∨ name = "." then .ok (.inside names)
    else if name = ".." then .ok (if names.isEmpty then .outside else .inside names.dropLast)
    else if longestName < name.utf8ByteSize then .error .nameTooLong
    else
      match d.child? names name with
      | some entry => .ok entry
      | none => .error .missing
  | .outside =>
    if name = "" ∨ name = "." ∨ name = ".." then .ok .outside
    else if longestName < name.utf8ByteSize then .error .nameTooLong
    else .error .missing

/-- The entry at a path, which starts in the working directory unless it starts with a slash. -/
def find (d : Directory) (path : String) : Except ReadFault Entry :=
  if path = "" then .error .missing
  else if longestPath < path.utf8ByteSize then .error .nameTooLong
  else
    match namesOf path with
    | "" :: names => names.foldlM d.step .outside
    | names => names.foldlM d.step (.inside [])

def read (d : Directory) (path : String) : Except ReadFault Csv.Bytes :=
  match d.find path with
  | .ok (.file bytes) => .ok bytes
  | .ok _ => .error .isDirectory
  | .error fault => .error fault

end Directory
end Command
end QueryCalculus
