-- Locks on pages, shared or exclusive, and the rule by which they are granted.
-- The holders of each page and the pages of each holder are kept side by side.
import PageStore.Assoc
import PageStore.Id

namespace PageStore

inductive LockMode where
  | shared
  | exclusive
  deriving Repr, DecidableEq

/-- Two holders may share a page only to read it. -/
def LockMode.compatible : LockMode → LockMode → Bool
  | .shared, .shared => true
  | _, _ => false

structure LockTable where
  /-- The readers of each page; never an empty list. -/
  shared : Assoc PageId (List TxId) := .empty
  exclusive : Assoc PageId TxId := .empty
  /-- The pages that each transaction holds; never an empty list. -/
  held : Assoc TxId (List PageId) := .empty
  deriving Repr, DecidableEq

namespace LockTable

def empty : LockTable := {}

/-- The list with `a` in it once. -/
def withMember {α : Type} [DecidableEq α] (a : α) (l : List α) : List α := if a ∈ l then l else a :: l

/-- The list at `k`, or none. -/
def listAt {κ α : Type} [DecidableEq κ] (m : Assoc κ (List α)) (k : κ) : List α := (m.get? k).getD []

/-- Takes `a` out of the list at `k`; an empty list is not kept. -/
def without {κ α : Type} [DecidableEq κ] [DecidableEq α] (m : Assoc κ (List α)) (k : κ) (a : α) :
    Assoc κ (List α) :=
  match (listAt m k).filter (· ≠ a) with
  | [] => m.erase k
  | rest => m.insert k rest

/-! ## Reading -/

def mode? (t : LockTable) (tx : TxId) (page : PageId) : Option LockMode :=
  if t.exclusive.get? page = some tx then some .exclusive
  else if tx ∈ listAt t.shared page then some .shared
  else none

def holds (t : LockTable) (tx : TxId) (page : PageId) : Bool := (t.mode? tx page).isSome

/-- How the other transactions hold a page. -/
def othersModes (t : LockTable) (tx : TxId) (page : PageId) : List LockMode :=
  (((t.exclusive.get? page).toList.filter (· ≠ tx)).map fun _ => .exclusive) ++
    (((listAt t.shared page).filter (· ≠ tx)).map fun _ => .shared)

/-- The pages that a transaction holds, in order. -/
def pagesOf (t : LockTable) (tx : TxId) : List PageId :=
  (listAt t.held tx).mergeSort fun p q => p.order q ≠ .gt

/-- The pages that a transaction holds, in order, with the lock on each. -/
def locksOf (t : LockTable) (tx : TxId) : List (PageId × LockMode) :=
  (t.pagesOf tx).filterMap fun page => (t.mode? tx page).map fun mode => (page, mode)

/-! ## Granting -/

/-- Whether a lock that is held makes a request needless. -/
def covers : Option LockMode → LockMode → Bool
  | some .exclusive, _ => true
  | some .shared, .shared => true
  | _, _ => false

/-- Enters a lock that may be granted. An exclusive one takes the place of all shared ones. -/
def enter (t : LockTable) (tx : TxId) (page : PageId) (mode : LockMode) : LockTable :=
  let held := t.held.insert tx (withMember page (listAt t.held tx))
  match mode with
  | .shared => { t with shared := t.shared.insert page (withMember tx (listAt t.shared page)), held }
  | .exclusive => { shared := t.shared.erase page, exclusive := t.exclusive.insert page tx, held }

/-- Grants a lock or refuses it, without waiting. The only reader of a page may become its writer. -/
def tryGrant (t : LockTable) (tx : TxId) (page : PageId) (mode : LockMode) : Bool × LockTable :=
  if covers (t.mode? tx page) mode then (true, t)
  else if (t.othersModes tx page).all mode.compatible then (true, t.enter tx page mode)
  else (false, t)

/-! ## Releasing -/

/-- Gives a lock back. Says whether there was one, since then those who wait are to try again. -/
def release (t : LockTable) (tx : TxId) (page : PageId) : Bool × LockTable :=
  let wasReader : Bool := tx ∈ listAt t.shared page
  let wasWriter : Bool := t.exclusive.get? page = some tx
  (wasReader || wasWriter,
    { shared := without t.shared page tx
      exclusive := if wasWriter then t.exclusive.erase page else t.exclusive
      held := without t.held tx page })

/-- Gives all locks of a transaction back, and says whether there were any. -/
def releaseAll (t : LockTable) (tx : TxId) : Bool × LockTable :=
  let pages := listAt t.held tx
  (!pages.isEmpty,
    pages.foldl (fun t page => (t.release tx page).2) { t with held := t.held.erase tx })

end LockTable

end PageStore
