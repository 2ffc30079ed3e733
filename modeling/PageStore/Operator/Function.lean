-- The functions that sum up a column.
import PageStore.Field

namespace PageStore

inductive AggregateFunction where
  | count
  | sum
  | average
  | least
  | greatest
  deriving Repr, DecidableEq

namespace AggregateFunction

def name : AggregateFunction → String
  | .count => "COUNT"
  | .sum => "SUM"
  | .average => "AVG"
  | .least => "MIN"
  | .greatest => "MAX"

/-- The function that a word in small letters names. -/
def ofName? : String → Option AggregateFunction
  | "count" => some .count
  | "sum" => some .sum
  | "avg" => some .average
  | "min" => some .least
  | "max" => some .greatest
  | _ => none

/-- Numbers can be summed up in every way, strings only be counted. -/
def supports : AggregateFunction → FieldType → Bool
  | _, .int => true
  | f, .str => f = .count

end AggregateFunction

end PageStore
