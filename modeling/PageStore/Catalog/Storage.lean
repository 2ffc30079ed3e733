-- A catalog together with the files of its tables.
import PageStore.Catalog.Basic

namespace PageStore

structure Storage where
  catalog : Catalog
  disk : Disk
  deriving Repr, DecidableEq

namespace Storage

/-- The file that lists the tables, and the one in which its next version is written. -/
def catalogFile : String := "catalog.bin"

def nextCatalogFile : String := "catalog.bin.tmp"

/-- An operation on the files alone. -/
def onDisk {α : Type} (m : Step Disk α) : Step Storage α :=
  Step.focus (fun s => s.disk) (fun s disk => { s with disk }) m

/-- The file in which a new table keeps its pages. -/
def fileNameOf (table : String) : String := table ++ ".dat"

/-! ## Loading -/

/-- Opens the files of the listed tables one by one and registers them. -/
def registerAll (pageSize : Nat) : Catalog → List TableDefinition → Step Disk Catalog
  | c, [] => .done c
  | c, d :: rest => do
    let file ← TableFile.ofName d.id d.fileName d.schema pageSize
    let c ← Step.ofExcept (c.register file d.name (some d.fileName))
    registerAll pageSize c rest

/-- The catalog of a directory: the tables that its stored list names, or none. New ids begin above
all of these. -/
def load (pageSize : Nat) : Step Disk Catalog := do
  let fresh : Catalog := { onDisk := true, pageSize }
  let d ← Step.state
  match d.lookup? catalogFile with
  | none => return fresh
  | some bs =>
    let defs ← Step.ofExcept (TableDefinition.decodeAll bs)
    let c ← registerAll pageSize fresh defs
    return { c with nextId := Catalog.idAfter ((defs.map TableDefinition.id).foldl max 0) }

/-! ## Changing -/

/-- Writes the list of stored tables anew: beside the old one, then in its place. -/
def persist : Step Storage Unit := Step.update fun s =>
  let next := s.disk.put nextCatalogFile (TableDefinition.encodeAll s.catalog.definitions)
  { s with disk := next.rename nextCatalogFile catalogFile }

/-- Makes a table with an empty file and stores the catalog. An id that was taken stays taken, also
if the table is not made after all. -/
def createTable (name : String) (schema : Schema) : Step Storage TableId := do
  let c ← Step.read fun s : Storage => s.catalog
  Step.check c.onDisk (.catalog .inMemory)
  Step.check (Catalog.validName name) (.catalog (.invalidName name))
  Step.ofExcept (Catalog.checkFits name schema c.pageSize)
  Step.check (!c.names.contains name) (.duplicateTable name)
  let (id, c) := c.takeId
  Step.update fun s => { s with catalog := c }
  let file ← onDisk (TableFile.ofName id (fileNameOf name) schema c.pageSize)
  let c ← Step.ofExcept (c.register file name (some (fileNameOf name)))
  Step.update fun s => { s with catalog := c }
  persist
  return id

/-- Makes a table known that the stored catalog does not list. -/
def addTable (file : TableFile) (name : String) : Step Storage Unit := do
  let c ← Step.read fun s : Storage => s.catalog
  let c ← Step.ofExcept (c.register file name none)
  Step.update fun s => { s with catalog := c }

/-- Hands out a table id. -/
def takeId : Step Storage TableId := fun s =>
  let (id, catalog) := s.catalog.takeId
  (.ok id, { s with catalog })

/-- A page as the file of its table holds it. -/
def readPage (s : Storage) (id : PageId) : Except Error Page := do
  let file ← s.catalog.tableFile id.table
  file.readPage s.disk id

/-- Puts a page into the file of its table. -/
def writePage (p : Page) : Step Storage Unit := do
  let c ← Step.read fun s : Storage => s.catalog
  let file ← Step.ofExcept (c.tableFile p.id.table)
  onDisk (file.writePage p)

/-! ## Words

What a machine needs of the tables to find the pages that are found here. -/

/-- The pages of all tables have a number of bytes that 32 bits can hold. -/
def SizesInWords (s : Storage) : Prop :=
  ∀ table file, s.catalog.tableFile? table = some file → file.pageSize < 0x100000000

/-- The pages of every table can be counted with 32 bits. -/
def Counted (s : Storage) : Prop :=
  ∀ table file, s.catalog.tableFile? table = some file → file.pages.Counted (file.content s.disk)

/-- Both, so that a machine can number all pages and can count the bytes in front of them. -/
structure InWords (s : Storage) : Prop where
  sizes : s.SizesInWords
  counted : s.Counted

/-- A machine does with the files of all tables what is said here. -/
def SameInWords (s : Storage) : Prop :=
  ∀ table file, s.catalog.tableFile? table = some file → file.SameInWords s.disk

/-- Who counts the pages of a table finds as many as there are. -/
theorem Counted.numPages {s : Storage} (h : s.Counted) {table : TableId} {file : TableFile}
    (known : s.catalog.tableFile? table = some file) : (file.numPagesWord s.disk).toNat = file.numPages s.disk :=
  PageFile.toNat_numPagesWord (h table file known)

theorem InWords.file {s : Storage} (h : s.InWords) {table : TableId} {file : TableFile}
    (known : s.catalog.tableFile? table = some file) : file.InWords s.disk :=
  ⟨h.sizes table file known, h.counted table file known⟩

theorem InWords.same {s : Storage} (h : s.InWords) : s.SameInWords := fun _ _ known => (h.file known).same

instance (s : Storage) : Decidable s.SizesInWords := decidable_of_iff' _ Catalog.forall_tableFile?_iff

instance (s : Storage) : Decidable s.Counted := decidable_of_iff' _ Catalog.forall_tableFile?_iff

instance (s : Storage) : Decidable s.InWords :=
  decidable_of_iff (s.SizesInWords ∧ s.Counted) ⟨fun h => ⟨h.1, h.2⟩, fun h => ⟨h.sizes, h.counted⟩⟩

end Storage

end PageStore
