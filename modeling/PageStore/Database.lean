-- The operations of a data directory as a whole: tables by name, rows in and out,
-- transactions around them.
import PageStore.Pool.Completion
import PageStore.Scan

namespace PageStore.Database

/-- Opens the tables of a directory. What was opened of it stays, also if it cannot be opened whole. -/
def load (config : Config) : Step Disk Pool := do
  let catalog ← Storage.load config.pageSize
  let disk ← Step.state
  Step.ofExcept (Pool.new { catalog, disk } config)

/-! ## Tables -/

def createTable (name : String) (schema : Schema) : Step Pool TableId :=
  Pool.onStorage (Storage.createTable name schema)

/-- The table of a name. -/
def table (name : String) : Step Pool TableId := do
  let p ← Step.state
  Step.ofOption (.catalog (.noSuchTable name)) (p.catalog.idOf? name)

/-- The names of all tables, by id. -/
def tableNames (p : Pool) : List String := p.catalog.ids.filterMap p.catalog.nameOf?

def schemaOf (table : TableId) : Step Pool Schema := do
  let p ← Step.state
  Step.ofExcept (p.catalog.schemaOf table)

/-! ## Rows -/

/-- Adds a row of these values to a table and gives its place. -/
def insert (tx : TxId) (table : TableId) (fields : List Field) : Step Pool RecordId := do
  let schema ← schemaOf table
  let row ← Step.ofExcept (Row.ofFields schema fields)
  Pool.insert tx table row

/-- Removes the row at a place and gives it. -/
def delete (tx : TxId) (place : RecordId) : Step Pool Row := do
  let page ← Pool.fetch tx place.page .exclusive
  let row ← Step.ofOption (.slotEmpty place.page place.slot) (page.row? place.slot)
  Pool.delete tx row
  return row

/-- All rows of a table. -/
def scan (tx : TxId) (table : TableId) : Step Pool (List Row) := fun p =>
  let (r, _, p) := Scan.drain (Scan.start tx table, p)
  (r, p)

/-! ## Transactions -/

def commit (tx : TxId) : Step Pool Unit := Pool.complete tx .commit

def abort (tx : TxId) : Step Pool Unit := Pool.complete tx .abort

/-- Runs `body` as one transaction. -/
def withTransaction {α : Type} (tx : TxId) (body : Step Pool α) : Step Pool α :=
  Step.guarded (commit tx) (abort tx) body

end PageStore.Database
