-- An operator gives rows one by one after it was started, and can be started
-- again. It works on its own state, its cursor, and on the pool.
import PageStore.Scan

namespace PageStore

structure Source (σ : Type) where
  /-- The columns of the rows that it gives. -/
  schema : Schema
  /-- Starts, or starts again. -/
  init : Step (σ × Pool) Unit
  /-- The next row, or none at the end. -/
  next : Step (σ × Pool) (Option Row)
  /-- No more rows than this can come before the end, whether or not it is started anew first. -/
  bound : σ × Pool → Nat

namespace Source

variable {σ τ α : Type}

/-- All rows that are left. -/
def drain (source : Source σ) : Step (σ × Pool) (List Row) := do
  let s ← Step.state
  Step.collect source.next (source.bound s + 1)

/-- Starts and gives all rows. -/
def collect (source : Source σ) : Step (σ × Pool) (List Row) := do
  source.init
  source.drain

/-- An operation on a part of a cursor, carried out on the whole. -/
def onPart (get : τ → σ) (set : τ → σ → τ) (m : Step (σ × Pool) α) : Step (τ × Pool) α :=
  Step.focus (fun t => (get t.1, t.2)) (fun t s => (set t.1 s.1, s.2)) m

def onPool (m : Step Pool α) : Step (σ × Pool) α :=
  Step.focus Prod.snd (fun s pool => (s.1, pool)) m

def cursor : Step (σ × Pool) σ := Step.read Prod.fst

def change (f : σ → σ) : Step (σ × Pool) Unit := Step.update fun s => (f s.1, s.2)

end Source

/-- A scan as an operator. -/
def Scan.source (schema : Schema) : Source Scan where
  schema
  init := Source.change Scan.rewind
  next := Scan.next
  bound s := s.1.bound s.2

end PageStore
