-- The join of two operators by nested loops: for each row of the left one the
-- right one is started anew, and each pair that matches is given.
import PageStore.Operator.Source
import PageStore.Operator.Predicate

namespace PageStore

structure JoinCursor (σ τ : Type) where
  left : σ
  right : τ
  /-- The left row whose pairs are being given. -/
  current : Option Row := none
  started : Bool := false

namespace Join

variable {σ τ α : Type}

def onLeft (m : Step (σ × Pool) α) : Step (JoinCursor σ τ × Pool) α :=
  Source.onPart JoinCursor.left (fun c left => { c with left }) m

def onRight (m : Step (τ × Pool) α) : Step (JoinCursor σ τ × Pool) α :=
  Source.onPart JoinCursor.right (fun c right => { c with right }) m

def setCurrent (row : Option Row) : Step (JoinCursor σ τ × Pool) Unit :=
  Source.change fun c => { c with current := row }

/-- Only the left input is started; the right one is when a left row is there. -/
def init (left : Source σ) : Step (JoinCursor σ τ × Pool) Unit := do
  onLeft left.init
  Source.change fun c => { c with current := none, started := true }

/-- The left row whose pairs come next: the current one, which is taken out, or else a new one, for
which the right input starts anew. -/
def takeLeft (left : Source σ) (right : Source τ) : Step (JoinCursor σ τ × Pool) (Option Row) := do
  let c ← Source.cursor
  setCurrent none
  match c.current with
  | some row => return some row
  | none =>
    match ← onLeft left.next with
    | none => return none
    | some row =>
      onRight right.init
      return some row

/-- The next right row that matches `row`, joined to it. -/
def nextMatch (on : Predicate) (schema : Schema) (right : Source τ) (row : Row) :
    Nat → Step (JoinCursor σ τ × Pool) (Option Row)
  | 0 => Step.fail (.operator .endless)
  | calls + 1 => do
    match ← onRight right.next with
    | none => return none
    | some other =>
      if on.accepts row other then
        let joined ← Step.ofExcept (Row.append schema row other)
        return some joined
      else nextMatch on schema right row calls

/-- The next pair, from the current left row or from one of the next `rows` ones. -/
def nextPair (on : Predicate) (left : Source σ) (right : Source τ) :
    Nat → Step (JoinCursor σ τ × Pool) (Option Row)
  | 0 => Step.fail (.operator .endless)
  | rows + 1 => do
    match ← takeLeft left right with
    | none => return none
    | some row =>
      let (c, p) ← Step.state
      match ← nextMatch on (left.schema.append right.schema) right row (right.bound (c.right, p) + 1) with
      | some joined =>
        setCurrent (some row)
        return some joined
      | none => nextPair on left right rows

def next (on : Predicate) (left : Source σ) (right : Source τ) :
    Step (JoinCursor σ τ × Pool) (Option Row) := do
  let (c, p) ← Step.state
  Step.check c.started (.operator (.notStarted "join"))
  nextPair on left right (left.bound (c.left, p) + 2)

def source (on : Predicate) (left : Source σ) (right : Source τ) : Source (JoinCursor σ τ) where
  schema := left.schema.append right.schema
  init := init left
  next := next on left right
  bound s := (left.bound (s.1.left, s.2) + 1) * right.bound (s.1.right, s.2)

end Join

end PageStore
