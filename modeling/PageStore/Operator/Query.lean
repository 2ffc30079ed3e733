-- A tree of operators as it is asked for, before it is known whether its nodes
-- fit together.
import PageStore.Operator.Plan

namespace PageStore

inductive Query where
  | values (columns : List Column) (rows : List (List Field)) (failInit failAt : Option Nat)
  | scan (tx : TxId) (table : TableId)
  | join (on : Predicate) (left right : Query)
  | aggregate (function : String) (field : Nat) (groupBy : Option Nat) (child : Query)
  | insert (tx : TxId) (table : TableId) (child : Query)

namespace Query

/-- Builds the inputs first, the left one before the right one, then the node itself. -/
def plan (c : Catalog) : Query → Except Error Plan
  | values columns rows failInit failAt => do
    let schema ← Schema.ofColumns columns
    let rows ← rows.mapM (Row.ofFields schema)
    .ok (.replay { schema, rows, failInit, failAt })
  | scan tx table => do
    let schema ← c.schemaOf table
    .ok (.scan tx table schema)
  | join on left right => do
    let left ← left.plan c
    let right ← right.plan c
    on.check left.schema right.schema
    .ok (.join on left right)
  | aggregate word field groupBy child => do
    let child ← child.plan c
    let function ← AggregateFunction.ofWord word
    let a ← Aggregate.ofFields child.schema function field groupBy
    .ok (.aggregate a child)
  | insert tx table child => do
    let child ← child.plan c
    let schema ← c.schemaOf table
    let target : InsertTarget := { tx, table, schema }
    target.check child.schema
    .ok (.insert target child)

end Query

end PageStore
