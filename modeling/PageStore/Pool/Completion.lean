-- The end of a transaction: its pages are written, or read again from their
-- files, and its locks are given back. In which order the pages are visited is a
-- parameter, since nothing may hang on it.
import PageStore.Pool.Basic

namespace PageStore.Pool

/-! ## Writing -/

/-- Writes a page that was changed. It is clean then, and what it holds is its before image. -/
def writeBack (id : PageId) : Step Pool Unit := do
  let p ← Step.state
  match p.page? id with
  | none => return ()
  | some page =>
    if page.dirtiedBy.isNone then return ()
    onStorage (Storage.writePage page)
    let clean ← Step.ofExcept (page.mark none).setBefore
    setPage id fun _ => clean

def writeEach (visit : List PageId) : Step Pool Unit := do
  let _ ← Step.each writeBack visit
  return ()

/-- Writes the pages that a transaction changed. -/
def flush (tx : TxId) : Step Pool Unit := do
  let p ← Step.state
  writeEach (p.dirtiedBy tx)

/-- Writes all changed pages, whoever changed them. -/
def flushAll : Step Pool Unit := do
  let p ← Step.state
  writeEach p.frames.keys

/-! ## Going back -/

/-- Puts a page that a transaction changed back to what its file holds. -/
def revertPage (tx : TxId) (id : PageId) : Step Pool Unit := do
  let p ← Step.state
  match p.page? id with
  | none => return ()
  | some page =>
    if page.dirtiedBy ≠ some tx then return ()
    let stored ← Step.ofExcept (p.storage.readPage id)
    setPage id fun _ => stored

def revertEach (tx : TxId) (visit : List PageId) : Step Pool Unit := do
  let _ ← Step.each (revertPage tx) visit
  return ()

def revert (tx : TxId) : Step Pool Unit := do
  let p ← Step.state
  revertEach tx (p.dirtiedBy tx)

/-! ## Completion -/

/-- Whether the changes of a transaction are kept. -/
inductive Outcome where
  | commit
  | abort
  deriving Repr, DecidableEq

/-- Ends a transaction, its pages visited in this order. The locks are given back also when a page
cannot be written or read; that error is the answer then. -/
def completeVisiting (visit : List PageId) (tx : TxId) (outcome : Outcome) : Step Pool Unit := do
  let result ← Step.attempt <| match outcome with
    | .commit => writeEach visit
    | .abort => revertEach tx visit
  releaseAll tx
  Step.ofExcept result

def complete (tx : TxId) (outcome : Outcome) : Step Pool Unit := do
  let p ← Step.state
  completeVisiting (p.dirtiedBy tx) tx outcome

end PageStore.Pool
