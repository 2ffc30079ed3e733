-- The program: reads the files of the data directory, runs a command on them and
-- writes back those that changed.
import PageStore.CommandLine.Run

namespace PageStore

def program : Program :=
  { product := "pagestore", command := "pagestore", version := "0.1.0",
    directory := "./pagestore_data" }

/-- The content of a file, if there is one. -/
def readFile? (path : String) : IO (Option Bytes) := do
  try
    let bytes ← IO.FS.readBinFile path
    return some bytes.toList
  catch _ => return none

/-- Adds the file to which a path leads, if there is one. -/
def loadFile (disk : Disk) (path : String) : IO Disk := do
  match disk.nameOf path with
  | .error _ => return disk
  | .ok name =>
    match ← readFile? (disk.path name) with
    | some bytes => return disk.put name bytes
    | none => return disk

/-- The files that a command may need: the list of tables, their files, and the file of a table
that it makes. -/
def loadDisk (args : Arguments) : IO Disk := do
  let disk ← loadFile { directory := args.directory } Storage.catalogFile
  let listed :=
    match (disk.lookup? Storage.catalogFile).map TableDefinition.decodeAll with
    | some (.ok defs) => defs.map TableDefinition.fileName
    | _ => []
  let made :=
    match args.command with
    | .create table _ => [Storage.fileNameOf table]
    | _ => []
  (listed ++ made).foldlM loadFile disk

/-- Writes the files whose content is not what it was. -/
def saveDisk (before after : Disk) : IO Unit := do
  for name in after.names.keys do
    let bytes := (after.lookup? name).getD []
    if before.lookup? name ≠ some bytes then
      IO.FS.writeBinFile (after.path name) ⟨bytes.toArray⟩

/-- Prints how a run ended, and gives its code. -/
def finish (ending : CommandLine.Ending) : IO UInt32 := do
  match ending with
  | .printed out => IO.print out
  | .failed complaint => IO.eprint complaint.report
  | .usage => IO.eprintln "the arguments do not fit; --help shows how to call the program"
  return UInt32.ofNat ending.code

def runProgram (args : List String) : IO UInt32 := do
  match Arguments.ofList program.directory args with
  | .error stop => finish (CommandLine.endingOf program stop)
  | .ok arguments =>
    IO.FS.createDirAll arguments.directory
    let before ← loadDisk arguments
    let (ending, after) := CommandLine.run arguments before
    saveDisk before after
    finish ending

end PageStore

def main (args : List String) : IO UInt32 := PageStore.runProgram args
