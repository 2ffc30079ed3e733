-- A walk over the rows of a table, page by page. A page is locked to be read when
-- the walk comes to it; pages that are added in the meantime are walked over too.
import PageStore.Pool.Rows

namespace PageStore

structure Scan where
  tx : TxId
  table : TableId
  /-- The number of the page that is read next. -/
  nextPage : Nat := 0
  /-- Rows that were read and not given yet. -/
  queue : List Row := []
  finished : Bool := false
  deriving Repr, DecidableEq

namespace Scan

/-- A scan that begins at the first page. -/
def start (tx : TxId) (table : TableId) : Scan := { tx, table }

/-- Begins again at the first page. -/
def rewind (s : Scan) : Scan := start s.tx s.table

def onPool {α : Type} (m : Step Pool α) : Step (Scan × Pool) α :=
  Step.focus Prod.snd (fun s pool => (s.1, pool)) m

def change (f : Scan → Scan) : Step (Scan × Pool) Unit := Step.update fun s => (f s.1, s.2)

/-- Reads pages until one has a row; false if none of them has. -/
def readUntilRow : List Nat → Step (Scan × Pool) Bool
  | [] => .done false
  | number :: rest => do
    change fun s => { s with nextPage := number + 1 }
    let s ← Step.read Prod.fst
    let page ← onPool (Pool.fetch s.tx ⟨s.table, number⟩ .shared)
    change fun s => { s with queue := page.rows }
    if page.rows.isEmpty then readUntilRow rest else return true

/-- Fills the queue from the pages that are left; false at the end of the table. -/
def refill : Step (Scan × Pool) Bool := do
  let s ← Step.read Prod.fst
  let file ← onPool (Pool.tableFile s.table)
  let numPages ← onPool (Step.read fun p => file.numPages p.disk)
  readUntilRow (List.range' s.nextPage (numPages - s.nextPage))

/-- Gives the first row of the queue. -/
def pop : Step (Scan × Pool) (Option Row) := do
  let s ← Step.read Prod.fst
  match s.queue with
  | [] => return none
  | row :: rest =>
    change fun s => { s with queue := rest }
    return some row

/-- The next row. The first error ends the walk, as its end does. -/
def next : Step (Scan × Pool) (Option Row) := do
  let s ← Step.read Prod.fst
  if s.queue.isEmpty then
    if s.finished then return none
    match ← Step.attempt refill with
    | .ok true => pop
    | .ok false =>
      change fun s => { s with finished := true }
      return none
    | .error e =>
      change fun s => { s with finished := true }
      Step.fail e
  else pop

/-- How often a page may come to be added to a table while no transaction ends: a row that goes
into a new page makes it a changed page in memory, of which there are at most as many as the pool
holds, and one insert adds few pages. -/
def slack (p : Pool) : Nat := Pool.appendAttempts * (p.capacity + 1)

/-- No more rows than this can come. -/
def bound (s : Scan) (p : Pool) : Nat :=
  match p.catalog.tableFile? s.table with
  | some file => s.queue.length + (file.numPages p.disk + slack p) * file.layout.slots
  | none => s.queue.length

/-- All rows that are left. -/
def drain : Step (Scan × Pool) (List Row) := do
  let (s, p) ← Step.state
  Step.collect next (s.bound p + 1)

end Scan

end PageStore
