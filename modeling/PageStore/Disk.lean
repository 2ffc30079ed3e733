-- The files of the data directory. A name leads to the number of a file, and an
-- open file is known by its number, so it stays the same file when its name is
-- given to another one.
import PageStore.Assoc
import PageStore.Step

namespace PageStore

structure Disk where
  /-- The path of the directory, as messages write it. -/
  directory : String
  names : Assoc String Nat := .empty
  /-- The content of each file, by number. -/
  files : List Bytes := []
  deriving Repr, DecidableEq

namespace Disk

def content (d : Disk) (file : Nat) : Bytes := d.files.getD file []

def setContent (d : Disk) (file : Nat) (bs : Bytes) : Disk := { d with files := d.files.set file bs }

/-- The content of the file of a name. -/
def lookup? (d : Disk) (name : String) : Option Bytes := (d.names.get? name).map d.content

/-- The file of a name, empty if there was none. -/
def create (d : Disk) (name : String) : Nat × Disk :=
  match d.names.get? name with
  | some file => (file, d)
  | none => (d.files.length, { d with names := d.names.insert name d.files.length, files := d.files ++ [[]] })

/-- Replaces what the file of a name holds. -/
def put (d : Disk) (name : String) (bs : Bytes) : Disk :=
  let (file, d) := d.create name
  d.setContent file bs

/-- Gives the file of one name another name, in place of the file that had it. -/
def rename (d : Disk) (old new : String) : Disk :=
  match d.names.get? old with
  | some file => { d with names := (d.names.erase old).insert new file }
  | none => d

/-- The path of a file of the directory. -/
def path (d : Disk) (name : String) : String :=
  if name.startsWith "/" then name
  else if d.directory.isEmpty || d.directory.endsWith "/" then d.directory ++ name
  else d.directory ++ "/" ++ name

/-! ## Where paths lead -/

/-- What stands between the slashes. -/
def parts : List Char → List (List Char)
  | [] => [[]]
  | '/' :: cs => [] :: parts cs
  | c :: cs =>
    match parts cs with
    | [] => [[c]]
    | part :: rest => (c :: part) :: rest

/-- The most bytes of a file's own name. -/
def maxNameBytes : Nat := 255

/-- The name of the file to which these parts of a path lead. No part and one dot lead nowhere else,
two dots lead to the directory above, and no other directories are there. -/
def leadsTo : List (List Char) → Option (List Char)
  | [] => none
  | [name] =>
    if name ∈ [[], ['.'], ['.', '.']] then none
    else if maxNameBytes < (Utf8.encode (String.ofList name)).length then none
    else some name
  | [] :: rest => leadsTo rest
  | ['.'] :: rest => leadsTo rest
  | ['.', '.'] :: rest => (leadsTo rest).map (['.', '.', '/'] ++ ·)
  | _ :: _ => none

/-- The most bytes of a path, with the directory before it. -/
def maxPathBytes : Nat := 4095

/-- The name of the file to which a path leads, from this directory. -/
def nameOf (d : Disk) (path : String) : Except FileFault String :=
  let cs := path.toList
  if '\x00' ∈ cs then .error (.other "file name contained an unexpected NUL byte")
  else if cs.head? = some '/' then .error .refused
  else if maxPathBytes < (Utf8.encode (d.path path)).length then .error .refused
  else match leadsTo (parts cs) with
    | some name => .ok (String.ofList name)
    | none => .error .refused

/-- The content of the file to which a path leads. -/
def contentAt? (d : Disk) (path : String) : Option Bytes := (d.nameOf path).toOption.bind d.lookup?

/-- Replaces what the file holds to which a path leads. -/
def putAt (path : String) (bs : Bytes) : Step Disk Unit := do
  let name ← Step.ofExcept (((← Step.state).nameOf path).mapError .file)
  Step.update fun d => d.put name bs

/-- Opens the file to which a path leads, which is made if it is missing, and gives its number. -/
def openFile (path : String) : Step Disk Nat := do
  let name ← Step.ofExcept (((← Step.state).nameOf path).mapError .file)
  fun d => let (file, d) := d.create name; (.ok file, d)

end Disk

end PageStore
