-- Summing up a column, for all rows together or for each value of another column.
-- The input is drained at the start; the groups come in ascending order of their
-- value. An input without rows has no groups at all.
import PageStore.Operator.Source

namespace PageStore

/-- The function that a word names, in any mix of small letters and capitals. -/
def AggregateFunction.ofWord (word : String) : Except Error AggregateFunction :=
  let word := word.map Char.toLower
  match AggregateFunction.ofName? word with
  | some f => .ok f
  | none => .error (.operator (.unknownFunction word))

/-! ## One group -/

/-- What is known of the values of a group so far. -/
structure Tally where
  count : Int := 0
  sum : Int := 0
  least : Option Int := none
  greatest : Option Int := none
  deriving Repr, DecidableEq

namespace Tally

/-- Takes one more value in. A string is only counted. -/
def add (t : Tally) : Field → Tally
  | .int v =>
    { count := t.count + 1
      sum := t.sum + v.toInt
      least := some (t.least.elim v.toInt (min v.toInt))
      greatest := some (t.greatest.elim v.toInt (max v.toInt)) }
  | .str _ => { t with count := t.count + 1 }

/-- The value of a function. An average is cut off towards zero. -/
def value (t : Tally) : AggregateFunction → Int
  | .count => t.count
  | .sum => t.sum
  | .average => t.sum.tdiv (max t.count 1)
  | .least => t.least.getD 0
  | .greatest => t.greatest.getD 0

/-- The value of a function, if a column has room for it. -/
def result (t : Tally) (f : AggregateFunction) : Except Error Field :=
  let v := t.value f
  if -0x80000000 ≤ v ∧ v < 0x80000000 then .ok (.int (Int32.ofInt v))
  else .error (.operator (.overflow f v))

/-! ## Words

Count and sum have no end here. A machine keeps them as numbers of 64 bits, and what goes beyond is lost. -/

structure In64 (t : Tally) : Prop where
  count : 0 ≤ t.count ∧ t.count < 0x8000000000000000
  sum : -0x8000000000000000 ≤ t.sum ∧ t.sum < 0x8000000000000000

/-- `add` as a machine carries it out. -/
def addWord (t : Tally) (value : Field) : Tally :=
  { t.add value with
    count := (Int64.ofInt (t.add value).count).toInt
    sum := (Int64.ofInt (t.add value).sum).toInt }

/-- Nothing is lost if the result has room. -/
theorem addWord_eq {t : Tally} {value : Field} (h : (t.add value).In64) : t.addWord value = t.add value := by
  have hcount : (Int64.ofInt (t.add value).count).toInt = (t.add value).count :=
    Int64.toInt_ofInt_of_le (Int.le_trans (by decide) h.count.1) h.count.2
  have hsum : (Int64.ofInt (t.add value).sum).toInt = (t.add value).sum := Int64.toInt_ofInt_of_le h.sum.1 h.sum.2
  rw [addWord, hcount, hsum]

end Tally

/-! ## All groups -/

/-- The value that tells groups apart; none if there is one group only. -/
abbrev GroupKey : Type := Option Field

def GroupKey.order : GroupKey → GroupKey → Ordering
  | none, none => .eq
  | none, some _ => .lt
  | some _, none => .gt
  | some a, some b => a.order b

/-- Groups in ascending order of their keys. -/
abbrev Groups : Type := List (GroupKey × Tally)

/-- Takes a value into the group of a key. -/
def Groups.add (key : GroupKey) (value : Field) : Groups → Groups
  | [] => [(key, ({} : Tally).add value)]
  | (k, t) :: rest =>
    match GroupKey.order key k with
    | .lt => (key, ({} : Tally).add value) :: (k, t) :: rest
    | .eq => (k, t.add value) :: rest
    | .gt => (k, t) :: Groups.add key value rest

/-- `add` as a machine carries it out. -/
def Groups.addWord (key : GroupKey) (value : Field) : Groups → Groups
  | [] => [(key, ({} : Tally).addWord value)]
  | (k, t) :: rest =>
    match GroupKey.order key k with
    | .lt => (key, ({} : Tally).addWord value) :: (k, t) :: rest
    | .eq => (k, t.addWord value) :: rest
    | .gt => (k, t) :: Groups.addWord key value rest

theorem Groups.addWord_eq {key : GroupKey} {value : Field} {groups : Groups}
    (h : ∀ group ∈ groups.add key value, group.2.In64) : groups.addWord key value = groups.add key value := by
  induction groups with
  | nil =>
    have hnew : ({} : Tally).addWord value = ({} : Tally).add value := Tally.addWord_eq (h _ List.mem_cons_self)
    rw [addWord, add, hnew]
  | cons group rest ih =>
    obtain ⟨k, t⟩ := group
    unfold add at h
    unfold addWord add
    split <;> rename_i horder <;> simp only [horder, List.forall_mem_cons] at h
    · rw [Tally.addWord_eq h.1]
    · rw [Tally.addWord_eq h.1]
    · rw [ih h.2]

/-! ## The operator -/

structure Aggregate where
  function : AggregateFunction
  field : Nat
  groupBy : Option Nat
  /-- The columns of the rows that come out. -/
  output : Schema
  deriving Repr, DecidableEq

structure AggregateCursor (σ : Type) where
  child : σ
  /-- Rows that were not given yet. -/
  results : List Row := []
  started : Bool := false

namespace Aggregate

/-- An aggregate over rows of a schema. Out come the column of the groups, if there is one, and a
column for the function. -/
def ofFields (input : Schema) (function : AggregateFunction) (field : Nat) (groupBy : Option Nat) :
    Except Error Aggregate :=
  match input.columns[field]? with
  | none => .error (.operator (.noAggregateField field))
  | some column =>
    if !function.supports column.type then .error (.operator (.unsupported function column.type))
    else
      let last : Column := { name := s!"{function.name}({column.name})", type := .int }
      match groupBy with
      | none => .ok { function, field, groupBy, output := ⟨[last]⟩ }
      | some index =>
        match input.columns[index]? with
        | none => .error (.operator (.noGroupField index))
        | some group => .ok { function, field, groupBy, output := ⟨[group, last]⟩ }

/-- Takes a row into its group. -/
def addRow (a : Aggregate) (groups : Groups) (row : Row) : Groups :=
  match row.field? a.field with
  | some value => groups.add (a.groupBy.bind row.field?) value
  | none => groups

def groups (a : Aggregate) (rows : List Row) : Groups := rows.foldl a.addRow []

/-- `addRow` as a machine carries it out. -/
def addRowWord (a : Aggregate) (groups : Groups) (row : Row) : Groups :=
  match row.field? a.field with
  | some value => groups.addWord (a.groupBy.bind row.field?) value
  | none => groups

def groupsWord (a : Aggregate) (rows : List Row) : Groups := rows.foldl a.addRowWord []

/-- The row of a group. -/
def outputRow (a : Aggregate) (group : GroupKey × Tally) : Except Error Row := do
  let value ← group.2.result a.function
  Row.ofFields a.output (group.1.toList ++ [value])

/-- The rows that come out for the rows that go in. -/
def rows (a : Aggregate) (input : List Row) : Except Error (List Row) :=
  (a.groups input).mapM a.outputRow

variable {σ α : Type}

def onChild (m : Step (σ × Pool) α) : Step (AggregateCursor σ × Pool) α :=
  Source.onPart AggregateCursor.child (fun c child => { c with child }) m

/-- Drains the input. A start that fails leaves the rows of an earlier one. -/
def init (a : Aggregate) (child : Source σ) : Step (AggregateCursor σ × Pool) Unit := do
  onChild child.init
  let input ← onChild child.drain
  let results ← Step.ofExcept (a.rows input)
  Source.change fun c => { c with results, started := true }

def next : Step (AggregateCursor σ × Pool) (Option Row) := do
  let c ← Source.cursor
  Step.check c.started (.operator (.notStarted "aggregate"))
  Source.change fun c => { c with results := c.results.tail }
  return c.results.head?

def source (a : Aggregate) (child : Source σ) : Source (AggregateCursor σ) where
  schema := a.output
  init := a.init child
  next := next
  bound s := s.1.results.length + child.bound (s.1.child, s.2)

end Aggregate

end PageStore
