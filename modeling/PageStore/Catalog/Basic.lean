-- The tables that are known: by id with their files, and by name.
import PageStore.TableFile
import PageStore.Catalog.Definition

namespace PageStore

structure CatalogEntry where
  name : String
  file : TableFile
  /-- The file's name, for a table that the stored catalog lists. -/
  storedAs : Option String
  deriving Repr, DecidableEq

structure Catalog where
  /-- Whether there is a directory in which tables can be made. -/
  onDisk : Bool
  pageSize : Nat
  tables : Assoc TableId CatalogEntry := .empty
  names : Assoc String TableId := .empty
  /-- Where the search for the id of a new table begins. -/
  nextId : TableId := 1
  deriving Repr, DecidableEq

namespace Catalog

/-- A catalog that is kept in memory only. -/
def inMemory (pageSize : Nat) : Catalog := { onDisk := false, pageSize }

/-! ## Reading -/

def tableFile? (c : Catalog) (table : TableId) : Option TableFile :=
  (c.tables.get? table).map CatalogEntry.file

def tableFile (c : Catalog) (table : TableId) : Except Error TableFile :=
  match c.tableFile? table with
  | some file => .ok file
  | none => .error (.unknownTable table)

/-- What is said of the files of all tables is said of the entries. -/
theorem forall_tableFile?_iff {c : Catalog} {P : TableFile → Prop} :
    (∀ table file, c.tableFile? table = some file → P file) ↔ ∀ e ∈ c.tables.entries, P e.2.file := by
  constructor
  · rintro h ⟨table, entry⟩ hentry
    exact h table entry.file (Option.map_eq_some_iff.mpr ⟨entry, Assoc.mem_entries.mp hentry, rfl⟩)
  · intro h table file known
    obtain ⟨entry, hentry, rfl⟩ := Option.map_eq_some_iff.mp known
    exact h (table, entry) (Assoc.mem_entries.mpr hentry)

def schemaOf (c : Catalog) (table : TableId) : Except Error Schema :=
  (c.tableFile table).map TableFile.schema

def idOf? (c : Catalog) (name : String) : Option TableId := c.names.get? name

def nameOf? (c : Catalog) (table : TableId) : Option String :=
  (c.tables.get? table).map CatalogEntry.name

/-- All ids, in order. -/
def ids (c : Catalog) : List TableId := c.tables.keys.mergeSort

/-! ## Checks -/

/-- The name of a table becomes the name of a file of the directory. -/
def validName (name : String) : Bool :=
  name ≠ "" && !hasTwoDots name.toList && name.toList.all fun c => c ≠ '/' && c ≠ '\\' && c ≠ '\x00'
where
  /-- Two dots side by side. -/
  hasTwoDots : List Char → Bool
    | a :: b :: rest => (a = '.' && b = '.') || hasTwoDots (b :: rest)
    | _ => false

/-- A page must have room for one row at least. -/
def checkFits (name : String) (schema : Schema) (pageSize : Nat) : Except Error Unit :=
  if (Layout.of pageSize schema.byteSize).slots = 0 then
    .error (.catalog (.doesNotFit name schema.byteSize pageSize))
  else .ok ()

/-! ## Registering -/

/-- How many ids there are; zero comes after the last one. -/
def idCount : Nat := 0x100000000

def idAfter (id : TableId) : TableId := (id + 1) % idCount

/-- The first id from `id` on that no table has, if one of `tries` ids is free. -/
def freeFrom (c : Catalog) : Nat → TableId → TableId
  | 0, id => id
  | tries + 1, id => if c.tables.contains id then freeFrom c tries (idAfter id) else id

/-- Hands out an id that no table has; the next search begins behind it. -/
def takeId (c : Catalog) : TableId × Catalog :=
  let id := c.freeFrom c.tables.size c.nextId
  (id, { c with nextId := idAfter id })

/-- Makes a table known under a name. -/
def register (c : Catalog) (file : TableFile) (name : String) (storedAs : Option String) :
    Except Error Catalog := do
  if file.pageSize ≠ c.pageSize then .error (.catalog (.pageBytes name file.pageSize c.pageSize))
  checkFits name file.schema file.pageSize
  if c.names.contains name then .error (.duplicateTable name)
  if c.tables.contains file.table then .error (.catalog (.idTaken file.table))
  .ok { c with
    tables := c.tables.insert file.table { name, file, storedAs }
    names := c.names.insert name file.table }

/-- What the stored catalog says of the tables that it lists, by id. -/
def definitions (c : Catalog) : List TableDefinition :=
  (c.tables.entries.filterMap fun e =>
    e.2.storedAs.map fun fileName =>
      { id := e.1, name := e.2.name, fileName, schema := e.2.file.schema : TableDefinition }).mergeSort
    fun a b => a.id ≤ b.id

end Catalog

end PageStore
