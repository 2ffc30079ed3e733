-- The rows of a directory as its clients may think of them: what is committed, and
-- for each transaction what it changed since it last ended. Nothing here knows of
-- pages in memory or of files.
import PageStore.Session.Action

namespace PageStore

/-- The values of the row at each place, where there is one. -/
abbrev Rows := RecordId → Option (List Field)

/-- At a place there is this row from now on, or none. -/
structure Change where
  place : RecordId
  value : Option (List Field)

namespace Rows

def none : Rows := fun _ => .none

def set (rows : Rows) (c : Change) : Rows := fun place => if place = c.place then c.value else rows place

/-- The rows after changes were made, one after the other. -/
def after (rows : Rows) (changes : List Change) : Rows := changes.foldl set rows

theorem set_on_page (rows : Rows) (place : RecordId) (value : Option (List Field)) (slot : Nat) :
    rows.set ⟨place, value⟩ ⟨place.page, slot⟩ =
      if place.slot = slot then value else rows ⟨place.page, slot⟩ := by
  unfold set
  by_cases h : place.slot = slot
  · subst h
    rw [if_pos rfl, if_pos rfl]
  · rw [if_neg h, if_neg]
    intro heq
    exact h (congrArg RecordId.slot heq).symm

theorem set_on_other_page (rows : Rows) (c : Change) {id : PageId} (h : c.place.page ≠ id)
    (slot : Nat) : rows.set c ⟨id, slot⟩ = rows ⟨id, slot⟩ := by
  unfold set
  rw [if_neg]
  intro heq
  exact h (congrArg RecordId.page heq).symm

theorem after_append (rows : Rows) (changes : List Change) (c : Change) :
    rows.after (changes ++ [c]) = (rows.after changes).set c := by
  unfold after
  rw [List.foldl_append]
  rfl

/-- Where the rows agree they still do after the same changes. -/
theorem after_congr {rows rows' : Rows} {place : RecordId} (h : rows place = rows' place)
    (changes : List Change) : rows.after changes place = rows'.after changes place := by
  induction changes generalizing rows rows' with
  | nil => exact h
  | cons c rest ih =>
    apply ih
    unfold set
    rw [h]

theorem after_of_other {rows : Rows} {place : RecordId} {changes : List Change}
    (h : ∀ c ∈ changes, c.place ≠ place) : rows.after changes place = rows place := by
  induction changes generalizing rows with
  | nil => rfl
  | cons c rest ih =>
    rw [List.forall_mem_cons] at h
    change (rows.set c).after rest place = rows place
    rw [ih h.2, set, if_neg (fun heq => h.1 heq.symm)]

end Rows

structure Ledger where
  committed : Rows := Rows.none
  /-- What each transaction changed since it last ended, in order. -/
  changes : TxId → List Change := fun _ => []

namespace Ledger

/-- The changes of one transaction are these now. -/
def withChanges (l : Ledger) (tx : TxId) (changes : List Change) : Ledger :=
  { l with changes := fun u => if u = tx then changes else l.changes u }

def note (l : Ledger) (tx : TxId) (c : Change) : Ledger := l.withChanges tx (l.changes tx ++ [c])

/-- The changes of a transaction are committed. -/
def commit (l : Ledger) (tx : TxId) : Ledger :=
  { l.withChanges tx [] with committed := l.committed.after (l.changes tx) }

/-- The changes of a transaction are dropped. -/
def abort (l : Ledger) (tx : TxId) : Ledger := l.withChanges tx []

/-- The rows as a transaction left them, or as they are committed if no transaction is named. -/
def rowsFor (l : Ledger) : Option TxId → Rows
  | some tx => l.committed.after (l.changes tx)
  | none => l.committed

/-- What an action adds to the ledger, by what was answered. An action that fails adds nothing. -/
def record (l : Ledger) : Action → Except Error Answer → Ledger
  | .insert tx _ fields, .ok (.place place) => l.note tx ⟨place, some fields⟩
  | .delete tx place, .ok _ => l.note tx ⟨place, .none⟩
  | .commit tx, .ok _ => l.commit tx
  | .abort tx, .ok _ => l.abort tx
  | _, _ => l

@[simp] theorem changes_withChanges (l : Ledger) (tx u : TxId) (changes : List Change) :
    (l.withChanges tx changes).changes u = if u = tx then changes else l.changes u := rfl

@[simp] theorem committed_withChanges (l : Ledger) (tx : TxId) (changes : List Change) :
    (l.withChanges tx changes).committed = l.committed := rfl

end Ledger

end PageStore
