-- Rows put into the pages of a table and taken out of them, for a transaction.
import PageStore.Pool.Basic

namespace PageStore.Pool

/-- The file of a table. -/
def tableFile (table : TableId) : Step Pool TableFile := do
  let p ← Step.state
  Step.ofExcept (p.catalog.tableFile table)

/-! ## Into a page -/

/-- Gives a lock back, unless it was held before. -/
def releaseUnless (heldBefore : Bool) (tx : TxId) (id : PageId) : Step Pool Unit :=
  if heldBefore then .done () else release tx id

/-- Puts a row into a page if it has room, and gives the row's place. The page is locked to be read
first; when it turns out to be full, a lock that was not held before is given back. -/
def tryInsertInto (tx : TxId) (id : PageId) (row : Row) : Step Pool (Option RecordId) := do
  let heldBefore ← holds tx id
  let page ← fetch tx id .shared
  if page.numFree = 0 then
    releaseUnless heldBefore tx id
    return none
  let page ← fetch tx id .exclusive
  match page.insert row with
  | .ok (place, filled) =>
    setPage id fun _ => filled.mark (some tx)
    return some place
  | .error (.pageFull _) =>
    releaseUnless heldBefore tx id
    return none
  | .error e => Step.fail e

/-- The first of these pages that takes the row. -/
def insertIntoFirst (tx : TxId) (row : Row) : List PageId → Step Pool (Option RecordId)
  | [] => .done none
  | id :: rest => do
    match ← tryInsertInto tx id row with
    | some place => return some place
    | none => insertIntoFirst tx row rest

/-! ## Into a table's file -/

/-- How many new pages an insert makes before it gives up, if none of them takes the row. -/
def appendAttempts : Nat := 16

/-- Makes a new page and puts the row into it, again and again if others are quicker. `last` is the
page that was made before. -/
def insertAppending (file : TableFile) (tx : TxId) (row : Row) : Nat → PageId → Step Pool RecordId
  | 0, last => Step.fail (.pageFull last)
  | attempts + 1, _ => do
    let id ← onStorage (Storage.onDisk file.appendEmpty)
    match ← tryInsertInto tx id row with
    | some place => return place
    | none => insertAppending file tx row attempts id

/-- The pages of a file, first to last. -/
def pagesOf (file : TableFile) (d : Disk) : List PageId :=
  (List.range (file.numPages d)).map fun number => ⟨file.table, number⟩

/-- Puts a row into the first page of a file that has room, else into a new page behind all others. -/
def insertInto (file : TableFile) (tx : TxId) (row : Row) : Step Pool RecordId := do
  Step.check (row.schema.agrees file.schema) (file.schema.mismatch row.schema)
  let d ← Step.read Pool.disk
  Step.check (file.layout.slots ≠ 0) (.pageFull ⟨file.table, file.numPages d⟩)
  match ← insertIntoFirst tx row (pagesOf file d) with
  | some place => return place
  | none => insertAppending file tx row appendAttempts ⟨file.table, 0⟩

/-- Takes the row at a place of a file out of its page. -/
def deleteFrom (file : TableFile) (tx : TxId) (row : Row) : Step Pool PageId := do
  let place ← Step.ofOption (.invalidRow .noRecordId) row.place
  Step.check (place.page.table = file.table) (.notOnPage place.page)
  let page ← fetch tx place.page .exclusive
  let emptied ← Step.ofExcept (page.delete row.place)
  setPage place.page fun _ => emptied.mark (some tx)
  return place.page

/-! ## Into a table -/

/-- Notes that a transaction changed a page, which is a use of it. -/
def noteChange (tx : TxId) (id : PageId) : Step Pool Unit := do
  setPage id fun page => page.mark (some tx)
  touch id

/-- Adds a row to a table. The page stays in memory until the transaction ends. -/
def insert (tx : TxId) (table : TableId) (row : Row) : Step Pool RecordId := do
  let file ← tableFile table
  Step.check (row.schema.agrees file.schema) (file.schema.mismatch row.schema)
  let place ← insertInto file tx row
  noteChange tx place.page
  return place

/-- Removes a row from the table that its place names. -/
def delete (tx : TxId) (row : Row) : Step Pool Unit := do
  let place ← Step.ofOption (.invalidRow .noRecordId) row.place
  let file ← tableFile place.page.table
  Step.check (row.schema.agrees file.schema) (file.schema.mismatch row.schema)
  let id ← deleteFrom file tx row
  noteChange tx id

end PageStore.Pool
