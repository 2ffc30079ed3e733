-- Putting the rows of an operator into a table. All of them are put in by the
-- first call, which gives one row with their number.
import PageStore.Operator.Source

namespace PageStore

/-- The table that takes the rows, and for whom. -/
structure InsertTarget where
  tx : TxId
  table : TableId
  schema : Schema
  deriving Repr, DecidableEq

structure InsertCursor (σ : Type) where
  child : σ
  finished : Bool := false
  started : Bool := false

namespace InsertTarget

variable {σ α : Type}

def output : Schema := ⟨[{ name := "count", type := .int }]⟩

/-- The rows must have the types of the table. -/
def check (t : InsertTarget) (input : Schema) : Except Error Unit :=
  if input.agrees t.schema then .ok () else .error (t.schema.mismatch input)

def onChild (m : Step (σ × Pool) α) : Step (InsertCursor σ × Pool) α :=
  Source.onPart InsertCursor.child (fun c child => { c with child }) m

def init (child : Source σ) : Step (InsertCursor σ × Pool) Unit := do
  onChild child.init
  Source.change fun c => { c with finished := false, started := true }

/-- Puts one row in, under the names of the table's own columns. -/
def insertRow (t : InsertTarget) (row : Row) : Step Pool Unit := do
  let row ← Step.ofExcept (Row.ofFields t.schema row.fields)
  let _ ← Pool.insert t.tx t.table row
  return ()

/-- Puts in all rows that are left and counts them on from `count`. -/
def insertAll (t : InsertTarget) (child : Source σ) :
    Nat → Nat → Step (InsertCursor σ × Pool) Nat
  | 0, _ => Step.fail (.operator .endless)
  | calls + 1, count => do
    match ← onChild child.next with
    | none => return count
    | some row =>
      Source.onPool (t.insertRow row)
      insertAll t child calls (count + 1)

/-- An error leaves what was put in; the next call goes on behind it and counts from zero. -/
def next (t : InsertTarget) (child : Source σ) : Step (InsertCursor σ × Pool) (Option Row) := do
  let (c, p) ← Step.state
  Step.check c.started (.operator (.notStarted "insert"))
  if c.finished then return none
  let count ← insertAll t child (child.bound (c.child, p) + 1) 0
  Source.change fun c => { c with finished := true }
  let row ← Step.ofExcept (Row.ofFields output [.int (Int32.ofNat count)])
  return some row

def source (t : InsertTarget) (child : Source σ) : Source (InsertCursor σ) where
  schema := output
  init := init child
  next := t.next child
  bound _ := 1

end InsertTarget

end PageStore
