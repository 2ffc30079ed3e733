-- The file of a table: pages of rows of one schema, in no order.
import PageStore.Disk
import PageStore.PageFile
import PageStore.Page.Basic

namespace PageStore

structure TableFile where
  table : TableId
  schema : Schema
  pages : PageFile
  /-- The number of the open file. -/
  file : Nat
  deriving Repr, DecidableEq

namespace TableFile

def pageSize (t : TableFile) : Nat := t.pages.pageSize

def layout (t : TableFile) : Layout := .of t.pageSize t.schema.byteSize

/-- Opens a table's file, which is made empty if it is missing. -/
def ofName (table : TableId) (name : String) (schema : Schema) (pageSize : Nat) :
    Step Disk TableFile := do
  let file ← Disk.openFile name
  let path ← Step.read fun d => d.path name
  return { table, schema, pages := { path, pageSize }, file }

def content (t : TableFile) (d : Disk) : Bytes := d.content t.file

def numPages (t : TableFile) (d : Disk) : Nat := t.pages.numPages (t.content d)

/-- Only pages of this table are read or written. -/
def checkTable (t : TableFile) (id : PageId) : Except Error Unit :=
  if id.table = t.table then .ok () else .error (.unknownTable id.table)

/-- The page as the file holds it. -/
def readPage (t : TableFile) (d : Disk) (id : PageId) : Except Error Page := do
  t.checkTable id
  let bs ← t.pages.read (t.content d) id.number t.pageSize
  Page.ofBytes id t.schema t.pageSize bs

/-- Puts a page into its place in the file. -/
def writePage (t : TableFile) (p : Page) : Step Disk Unit := do
  let d ← Step.state
  Step.ofExcept (t.checkTable p.id)
  let bs ← Step.ofExcept p.data
  let content ← Step.ofExcept (t.pages.write (t.content d) p.id.number bs)
  Step.setState (d.setContent t.file content)

/-- Extends the file by a page of free slots. -/
def appendEmpty (t : TableFile) : Step Disk PageId := do
  let d ← Step.state
  let (number, content) ← Step.ofExcept (t.pages.append (t.content d) (Bytes.zeros t.pageSize))
  Step.setState (d.setContent t.file content)
  return ⟨t.table, number⟩

/-! ## Words -/

/-- `numPages` as a machine counts them. -/
def numPagesWord (t : TableFile) (d : Disk) : UInt32 := t.pages.numPagesWord (t.content d)

/-- A machine can number all pages of the file, and all pages that it may be asked for, and can count the bytes
up to their ends. -/
structure InWords (t : TableFile) (d : Disk) : Prop where
  pageSize : t.pageSize < 0x100000000
  counted : t.pages.Counted (t.content d)

/-- A machine does with the file what is said here, whatever page it is asked for. -/
structure SameInWords (t : TableFile) (d : Disk) : Prop where
  numPages : (t.numPagesWord d).toNat = t.numPages d
  pages : ∀ page, t.pages.SameInWords page
  append : ∀ data, (t.pages.appendWord (t.content d) data).map (fun r => (r.1.toNat, r.2)) =
    t.pages.append (t.content d) data

theorem InWords.same {t : TableFile} {d : Disk} (h : t.InWords d) : t.SameInWords d where
  numPages := PageFile.toNat_numPagesWord h.counted
  pages page := (PageFile.reaches_of_lt h.pageSize page.toNat_lt).sameInWords
  append := PageFile.appendWord_eq h.counted (PageFile.reaches_of_lt h.pageSize h.counted)

end TableFile

end PageStore
