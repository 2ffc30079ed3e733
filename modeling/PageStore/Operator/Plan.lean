-- Trees of operators. A plan says what the nodes are; what each of them
-- remembers while it runs is its cursor, whose type follows the plan.
import PageStore.Operator.Replay
import PageStore.Operator.Join
import PageStore.Operator.Aggregate
import PageStore.Operator.Insert

namespace PageStore

/-- A tree whose nodes fit together. -/
inductive Plan where
  | replay (replay : Replay)
  | scan (tx : TxId) (table : TableId) (schema : Schema)
  | join (on : Predicate) (left right : Plan)
  | aggregate (aggregate : Aggregate) (child : Plan)
  | insert (target : InsertTarget) (child : Plan)

namespace Plan

/-- What the nodes of a plan remember. -/
def Cursor : Plan → Type
  | replay _ => ReplayCursor
  | scan _ _ _ => Scan
  | join _ left right => JoinCursor left.Cursor right.Cursor
  | aggregate _ child => AggregateCursor child.Cursor
  | insert _ child => InsertCursor child.Cursor

/-- Nothing was started yet. -/
def fresh : (p : Plan) → p.Cursor
  | replay _ => ({} : ReplayCursor)
  | scan tx table _ => Scan.start tx table
  | join _ left right => ({ left := left.fresh, right := right.fresh } : JoinCursor _ _)
  | aggregate _ child => ({ child := child.fresh } : AggregateCursor _)
  | insert _ child => ({ child := child.fresh } : InsertCursor _)

/-- How a plan runs. -/
def source : (p : Plan) → Source p.Cursor
  | replay r => r.source
  | scan _ _ schema => Scan.source schema
  | join on left right => Join.source on left.source right.source
  | aggregate a child => a.source child.source
  | insert target child => target.source child.source

/-- The columns of the rows that come out. -/
def schema (p : Plan) : Schema := p.source.schema

end Plan

/-- A plan that runs. -/
structure Operator where
  plan : Plan
  cursor : plan.Cursor

namespace Operator

def ofPlan (plan : Plan) : Operator := { plan, cursor := plan.fresh }

/-- A call of the plan, on the cursor of this operator. -/
def run {α : Type} (o : Operator) (m : Step (o.plan.Cursor × Pool) α) (p : Pool) :
    Except Error α × Operator × Pool :=
  let (r, cursor, p) := m (o.cursor, p)
  (r, { plan := o.plan, cursor }, p)

def init (o : Operator) (p : Pool) : Except Error Unit × Operator × Pool := o.run o.plan.source.init p

def next (o : Operator) (p : Pool) : Except Error (Option Row) × Operator × Pool :=
  o.run o.plan.source.next p

def collect (o : Operator) (p : Pool) : Except Error (List Row) × Operator × Pool :=
  o.run o.plan.source.collect p

end Operator

end PageStore
