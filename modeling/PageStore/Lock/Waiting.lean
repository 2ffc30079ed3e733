-- A request that waits for a lock while other transactions give theirs back.
import PageStore.Lock.Table

namespace PageStore

/-- What others do while a request waits. -/
inductive Surrender where
  | page (tx : TxId) (page : PageId)
  | all (tx : TxId)
  deriving Repr, DecidableEq

/-- Whoever waits is told only of a release that gave something back. -/
def Surrender.run : Surrender → LockTable → Bool × LockTable
  | .page tx p, t => t.release tx p
  | .all tx, t => t.releaseAll tx

namespace LockTable

structure Request where
  tx : TxId
  page : PageId
  mode : LockMode
  deriving Repr, DecidableEq

/-- One more try of a request that is not granted yet. -/
def retry (r : Request) (granted : Bool) (t : LockTable) : Bool × LockTable :=
  if granted then (true, t) else t.tryGrant r.tx r.page r.mode

/-- Carries on with what the others do; after each release that gave something back the request is
tried again. -/
def await (r : Request) : Bool → List Surrender → LockTable → Bool × LockTable
  | granted, [], t => (granted, t)
  | granted, s :: rest, t =>
    let (told, t) := s.run t
    let (granted, t) := if told then retry r granted t else (granted, t)
    await r granted rest t

/-- A request that is tried at once and then waits. -/
def acquireWaiting (t : LockTable) (r : Request) (others : List Surrender) : Bool × LockTable :=
  let (granted, t) := t.tryGrant r.tx r.page r.mode
  await r granted others t

end LockTable

end PageStore
