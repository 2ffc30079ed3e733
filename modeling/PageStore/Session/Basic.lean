-- A session over a data directory: the pool, and what a client keeps beside it,
-- by name: pages that it got, scans and operators that run.
import PageStore.Database
import PageStore.Operator.Call

namespace PageStore

/-- A page that a client keeps. It is the page in memory as long as that one was not dropped. -/
structure PageHandle where
  page : Page
  load : Nat
  deriving Repr, DecidableEq

structure Session where
  pool : Pool
  /-- The pools from before the directory was opened anew, the first one first. -/
  former : List Pool := []
  /-- Files that were opened without the catalog, or before it took them. -/
  opened : Assoc TableId TableFile := .empty
  handles : Assoc String PageHandle := .empty
  scans : Assoc String Scan := .empty
  operators : Assoc String Operator := .empty

namespace Session

/-- A session on a directory whose tables are opened. -/
def ofDisk (disk : Disk) (config : Config) : Except Error Session :=
  (Database.load config disk).1.map fun pool => { pool }

/-- A session on a pool whose catalog is in memory. -/
def inMemory (disk : Disk) (catalogPageSize : Nat) (config : Config) : Except Error Session :=
  (Pool.new { catalog := .inMemory catalogPageSize, disk } config).map fun pool => { pool }

def onPool {α : Type} (m : Step Pool α) : Step Session α :=
  Step.focus Session.pool (fun s pool => { s with pool }) m

/-- How often the directory was opened anew. -/
def opening (s : Session) : Nat := s.former.length

/-- The pool of an opening, over the files as they are now. -/
def poolOf (s : Session) (opening : Nat) : Pool :=
  match s.former[opening]? with
  | some pool => pool.withDisk s.pool.disk
  | none => s.pool

/-- Puts back the pool of an opening; the files are those of all pools. -/
def setPoolOf (s : Session) (opening : Nat) (pool : Pool) : Session :=
  if opening < s.opening then
    { s with former := s.former.set opening pool, pool := s.pool.withDisk pool.disk }
  else { s with pool }

/-- An operation on the pool of an opening, which need not be the last one. -/
def onOpening {α : Type} (opening : Nat) (m : Step Pool α) : Step Session α :=
  Step.focus (fun s => s.poolOf opening) (fun s pool => s.setPoolOf opening pool) m

def onDisk {α : Type} (m : Step Disk α) : Step Session α := onPool (Pool.onStorage (Storage.onDisk m))

/-- There is nothing of this name. -/
def missing (name : String) : Error := .operator (.other s!"no '{name}' is open")

/-! ## Pages that a client keeps -/

/-- Whether a kept page is still the one in memory. -/
def isCurrent (p : Pool) (h : PageHandle) : Bool :=
  match p.frames.get? h.page.id with
  | some frame => frame.load = h.load
  | none => false

/-- Lets a kept page that is still in memory follow what was done to it there. -/
def follow (p : Pool) (h : PageHandle) : PageHandle :=
  match p.frames.get? h.page.id with
  | some frame => if frame.load = h.load then { h with page := frame.page } else h
  | none => h

def refresh : Step Session Unit :=
  Step.update fun s => { s with handles := s.handles.mapValues (follow s.pool) }

def handle (name : String) : Step Session PageHandle := do
  let s ← Step.state
  Step.ofOption (missing name) (s.handles.get? name)

/-- Keeps the page that is in memory now. -/
def keep (name : String) (id : PageId) : Step Session Unit :=
  Step.update fun s =>
    match s.pool.frames.get? id with
    | some frame => { s with handles := s.handles.insert name { page := frame.page, load := frame.load } }
    | none => s

/-- Changes a kept page: in memory if it is there, and in every handle on it. -/
def changeHandle (h : PageHandle) (page : Page) : Step Session Unit := do
  let s ← Step.state
  if isCurrent s.pool h then onPool (Pool.setPage h.page.id fun _ => page)
  Step.update fun s =>
    { s with handles := s.handles.mapValues fun other =>
        if other.load = h.load then { other with page } else other }

/-- The pages in memory that are the kept ones of these names. -/
def pagesOfHandles (s : Session) (names : List String) : List PageId :=
  (names.filterMap s.handles.get?).filterMap fun h =>
    if isCurrent s.pool h then some h.page.id else none

/-! ## Files -/

/-- The file of a table: one that was opened here, else the catalog's. -/
def fileOf (table : TableId) : Step Session TableFile := do
  let s ← Step.state
  match s.opened.get? table with
  | some file => return file
  | none => onPool (Pool.tableFile table)

/-! ## What can be seen from outside -/

/-- The number of pages of each table, by id. -/
def pageCounts (s : Session) : List (TableId × Nat) :=
  s.pool.catalog.ids.filterMap fun id =>
    (s.pool.catalog.tableFile? id).map fun file => (id, file.numPages s.pool.disk)

/-- The pages of the tables that are in memory, by table and number. -/
def cachedPages (s : Session) : List PageId :=
  s.pageCounts.flatMap fun e =>
    ((List.range e.2).map fun number => (⟨e.1, number⟩ : PageId)).filter s.pool.isCached

/-- The locks of each transaction that has any. -/
def locks (s : Session) : List (TxId × List (PageId × LockMode)) :=
  s.pool.locks.held.keys.map fun tx => (tx, s.pool.locks.locksOf tx)

end Session

end PageStore
