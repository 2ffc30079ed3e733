-- The calls of an operator, one after the other.
import PageStore.Operator.Plan

namespace PageStore

inductive OperatorCall where
  | init
  | next
  | collect
  | schema
  deriving Repr, DecidableEq

/-- What a call gives. -/
inductive CallAnswer where
  | nothing
  | row (row : Option Row)
  | rows (rows : List Row)
  | schema (schema : Schema)
  deriving Repr, DecidableEq

namespace Operator

def call (o : Operator) (p : Pool) : OperatorCall → Except Error CallAnswer × Operator × Pool
  | .init => let (r, s) := o.init p; (r.map fun _ => .nothing, s)
  | .next => let (r, s) := o.next p; (r.map .row, s)
  | .collect => let (r, s) := o.collect p; (r.map .rows, s)
  | .schema => (.ok (.schema o.plan.schema), o, p)

/-- Each call on what the one before it left; an error ends no more than its own call. -/
def callAll : List OperatorCall → Operator → Pool → List (Except Error CallAnswer) × Operator × Pool
  | [], o, p => ([], o, p)
  | c :: rest, o, p =>
    let (r, o, p) := o.call p c
    let (rs, s) := callAll rest o p
    (r :: rs, s)

end Operator

end PageStore
