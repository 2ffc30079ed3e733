-- The pool: pages held in memory for transactions that lock them. A page is read
-- from its file when it is first wanted; when there is no room, the clean page
-- that was used longest ago goes. A changed page never goes before its
-- transaction ends, so a file holds no change of a running transaction.
import PageStore.Config
import PageStore.Recency
import PageStore.Lock.Table
import PageStore.Catalog.Storage

namespace PageStore

/-- A page in memory. `load` tells apart the times at which the page was read in. -/
structure Frame where
  page : Page
  load : Nat
  deriving Repr, DecidableEq

structure Pool where
  config : Config
  storage : Storage
  frames : Assoc PageId Frame := .empty
  /-- How often a page was read in. -/
  loads : Nat := 0
  recency : Recency := .empty
  locks : LockTable := .empty
  deriving Repr, DecidableEq

namespace Pool

/-- An empty pool over the tables of a catalog, which must have pages of the same size. -/
def new (storage : Storage) (config : Config) : Except Error Pool := do
  config.validate
  if storage.catalog.pageSize ≠ config.pageSize then
    .error (.catalog (.poolPageBytes storage.catalog.pageSize config.pageSize))
  .ok { config, storage }

/-! ## Reading -/

def catalog (p : Pool) : Catalog := p.storage.catalog

def disk (p : Pool) : Disk := p.storage.disk

/-- The same pool over other files. -/
def withDisk (p : Pool) (disk : Disk) : Pool := { p with storage := { p.storage with disk } }

def capacity (p : Pool) : Nat := p.config.capacity

def numCached (p : Pool) : Nat := p.frames.size

def isCached (p : Pool) (id : PageId) : Bool := p.frames.contains id

def page? (p : Pool) (id : PageId) : Option Page := (p.frames.get? id).map Frame.page

/-- The pages in memory that a transaction changed. -/
def dirtiedBy (p : Pool) (tx : TxId) : List PageId :=
  (p.frames.entries.filter fun e => e.2.page.dirtiedBy = some tx).map Prod.fst

/-! ## Parts of the state -/

/-- An operation on the tables and their files. -/
def onStorage {α : Type} (m : Step Storage α) : Step Pool α :=
  Step.focus Pool.storage (fun p storage => { p with storage }) m

/-- Changes a page in memory, where it stands. -/
def setPage (id : PageId) (f : Page → Page) : Step Pool Unit :=
  Step.update fun p => { p with frames := p.frames.modify id fun frame => { frame with page := f frame.page } }

/-- Notes a use of a page. -/
def touch (id : PageId) : Step Pool Unit :=
  Step.update fun p => { p with recency := p.recency.touch id }

/-! ## Locks -/

def holds (tx : TxId) (id : PageId) : Step Pool Bool := Step.read fun p => p.locks.holds tx id

/-- Takes a lock on a page. With one thread nobody gives a lock back in the meantime, so that
waiting for one that is refused ends in a refusal too. -/
def lock (tx : TxId) (id : PageId) (mode : LockMode) : Step Pool Unit := fun p =>
  match p.locks.tryGrant tx id mode with
  | (true, locks) => (.ok (), { p with locks })
  | (false, locks) => (.error (.lockRefused tx id), { p with locks })

/-- Gives back a lock on a page. -/
def release (tx : TxId) (id : PageId) : Step Pool Unit :=
  Step.update fun p => { p with locks := (p.locks.release tx id).2 }

def releaseAll (tx : TxId) : Step Pool Unit :=
  Step.update fun p => { p with locks := (p.locks.releaseAll tx).2 }

/-! ## Reading pages in -/

/-- Whether a page may be dropped: it is in memory, nobody changed it and nobody is at work on it. -/
def mayGo (p : Pool) (busy : List PageId) (id : PageId) : Bool :=
  match p.page? id with
  | some page => page.dirtiedBy.isNone && !busy.contains id
  | none => false

/-- Drops the page that was used longest ago among those that may go. Nothing is written. -/
def evict (busy : List PageId) : Step Pool Unit := fun p =>
  match p.recency.evict (p.mayGo busy) with
  | (some victim, recency) => (.ok (), { p with frames := p.frames.erase victim, recency })
  | (none, _) => (.error (.poolFull p.capacity), p)

/-- Takes a page that was read into memory. -/
def hold (id : PageId) (page : Page) : Step Pool Unit :=
  Step.update fun p =>
    { p with frames := p.frames.insert id { page, load := p.loads }, loads := p.loads + 1 }

/-- Locks a page for a transaction and gives it, read in from its file if it is not in memory.
The lock stays when the page cannot be had. The pages of `busy` are not dropped. -/
def fetchBeside (busy : List PageId) (tx : TxId) (id : PageId) (mode : LockMode) : Step Pool Page := do
  lock tx id mode
  let p ← Step.state
  match p.page? id with
  | some page =>
    touch id
    return page
  | none =>
    let page ← Step.ofExcept (p.storage.readPage id)
    if p.capacity ≤ p.numCached then evict busy
    hold id page
    touch id
    return page

def fetch (tx : TxId) (id : PageId) (mode : LockMode) : Step Pool Page := fetchBeside [] tx id mode

/-- Drops a page, changed or not. Nothing is written. -/
def discard (id : PageId) : Step Pool Unit :=
  Step.update fun p =>
    if p.isCached id then { p with frames := p.frames.erase id, recency := p.recency.remove id } else p

end Pool

end PageStore
