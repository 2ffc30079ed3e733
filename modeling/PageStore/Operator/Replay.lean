-- An operator that gives rows from a list. It can be told to fail: at one of its
-- starts, and once when it comes to a place of the list.
import PageStore.Operator.Source

namespace PageStore

structure Replay where
  schema : Schema
  rows : List Row
  /-- The start that fails, counted from one. -/
  failInit : Option Nat := none
  /-- The place at which `next` fails the first time it comes there. -/
  failAt : Option Nat := none
  deriving Repr, DecidableEq

/-- How far a replay has come. -/
structure ReplayCursor where
  starts : Nat := 0
  position : Nat := 0
  /-- Whether the failure of `next` is still to come. -/
  armed : Bool := true
  deriving Repr, DecidableEq

namespace Replay

/-- A start that fails leaves the place as it is. -/
def init (r : Replay) : Step (ReplayCursor × Pool) Unit := do
  Source.change fun c => { c with starts := c.starts + 1 }
  let c ← Source.cursor
  Step.check (r.failInit ≠ some c.starts) (.operator (.injected "init"))
  Source.change fun c => { c with position := 0 }

/-- The row at the place, which moves on. -/
def next (r : Replay) : Step (ReplayCursor × Pool) (Option Row) := do
  let c ← Source.cursor
  if c.armed && r.failAt = some c.position then
    Source.change fun c => { c with armed := false }
    Step.fail (.operator (.injected "next"))
  else
    Source.change fun c => { c with position := c.position + 1 }
    return r.rows[c.position]?

def source (r : Replay) : Source ReplayCursor where
  schema := r.schema
  init := r.init
  next := r.next
  bound _ := r.rows.length

end Replay

end PageStore
