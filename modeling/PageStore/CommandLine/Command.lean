-- The commands of the command line, with what may be typed behind the name of
-- each of them.
import PageStore.Text.Decimal

namespace PageStore

inductive Command where
  | create (table : String) (columns : List String)
  | insert (table : String) (values : List String)
  | scan (table : String)
  | delete (table : String) (page slot : Nat)
  | aggregate (table function column : String) (groupBy : Option String)
  | stats
  deriving Repr, DecidableEq

/-! ## Operands -/

/-- What stands behind the name of a command without being an option. -/
structure Operand where
  name : String
  /-- The greatest value, for a number. -/
  limit : Option Nat := none
  /-- Whether more of the kind may follow. -/
  repeated : Bool := false
  deriving Repr, DecidableEq

namespace Operand

/-- A number that is read with a sign and must then lie between zero and `limit`. -/
def readNumber (limit : Nat) (text : String) : Option Nat :=
  match Decimal.read 0x8000000000000000 0x7fffffffffffffff text with
  | .ok n => if 0 ≤ n ∧ n ≤ limit then some n.toNat else none
  | .error _ => none

def accepts (o : Operand) (arg : String) : Bool :=
  match o.limit with
  | some limit => (readNumber limit arg).isSome
  | none => true

/-- Whether what is typed for these operands can begin with these arguments. -/
def canBegin : List Operand → List String → Bool
  | _, [] => true
  | [], _ :: _ => false
  | o :: os, arg :: args => o.accepts arg && canBegin (if o.repeated then [o] else os) args

end Operand

/-! ## Names -/

inductive CommandName where
  | create
  | insert
  | scan
  | delete
  | aggregate
  | stats
  deriving Repr, DecidableEq

namespace CommandName

/-- All commands, in the order in which help lists them. -/
def all : List CommandName := [.create, .insert, .scan, .delete, .aggregate, .stats]

def word : CommandName → String
  | .create => "create"
  | .insert => "insert"
  | .scan => "scan"
  | .delete => "delete"
  | .aggregate => "aggregate"
  | .stats => "stats"

def ofWord? (word : String) : Option CommandName := all.find? fun name => name.word = word

def pageLimit : Nat := 0xffffffff

def slotLimit : Nat := 0xffff

def operands : CommandName → List Operand
  | .create => [{ name := "TABLE" }, { name := "COLUMNS", repeated := true }]
  | .insert => [{ name := "TABLE" }, { name := "VALUES", repeated := true }]
  | .scan => [{ name := "TABLE" }]
  | .delete => [{ name := "TABLE" }, { name := "PAGE", limit := some pageLimit },
      { name := "SLOT", limit := some slotLimit }]
  | .aggregate => [{ name := "TABLE" }, { name := "FUNCTION" }, { name := "COLUMN" }]
  | .stats => []

/-- The option of `aggregate`. -/
def groupBy : String := "group-by"

/-- The options that want a value. -/
def options : CommandName → List String
  | .aggregate => [groupBy]
  | _ => []

@[simp] theorem ofWord?_word (name : CommandName) : ofWord? name.word = some name := by
  cases name <;> decide

theorem word_of_ofWord? {word : String} {name : CommandName} (h : ofWord? word = some name) :
    name.word = word := by
  simpa using List.find?_some h

end CommandName

end PageStore
