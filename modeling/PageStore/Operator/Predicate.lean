-- Comparing a value of one row with a value of another.
import PageStore.Row

namespace PageStore

inductive Comparison where
  | equal
  | unequal
  | less
  | lessOrEqual
  | greater
  | greaterOrEqual
  deriving Repr, DecidableEq

namespace Comparison

def symbol : Comparison → String
  | .equal => "="
  | .unequal => "<>"
  | .less => "<"
  | .lessOrEqual => "<="
  | .greater => ">"
  | .greaterOrEqual => ">="

def all : List Comparison := [.equal, .unequal, .less, .lessOrEqual, .greater, .greaterOrEqual]

def ofSymbol? (s : String) : Option Comparison := all.find? fun c => c.symbol = s

/-- Whether values that stand in this order compare so. -/
def holds : Comparison → Ordering → Bool
  | .equal, o => o = .eq
  | .unequal, o => o ≠ .eq
  | .less, o => o = .lt
  | .lessOrEqual, o => o ≠ .gt
  | .greater, o => o = .gt
  | .greaterOrEqual, o => o ≠ .lt

end Comparison

/-- The value in one column of a left row against the value in one column of a right row. -/
structure Predicate where
  leftField : Nat
  comparison : Comparison
  rightField : Nat
  deriving Repr, DecidableEq

namespace Predicate

/-- Rows without one of the columns do not match. -/
def accepts (p : Predicate) (left right : Row) : Bool :=
  match left.field? p.leftField, right.field? p.rightField with
  | some l, some r => p.comparison.holds (l.order r)
  | _, _ => false

/-- Both columns must be there and have one type. -/
def check (p : Predicate) (left right : Schema) : Except Error Unit :=
  let l := left.type? p.leftField
  let r := right.type? p.rightField
  if l.isSome && l = r then .ok ()
  else .error (.operator (.cannotCompare p.leftField l p.rightField r))

end Predicate

end PageStore
