-- The commands: create tables, insert, scan, delete and sum up rows, and show
-- what there is. A command runs on the files of a directory and ends with what
-- it prints or with a complaint.
import PageStore.Database
import PageStore.Operator.Plan
import PageStore.CommandLine.Help
import PageStore.CommandLine.Report

namespace PageStore.CommandLine

/-- A part of a command: it works on the pool and may end in a complaint. -/
abbrev Part (α : Type) : Type := ExceptT Complaint (StateM Pool) α

/-- An operation whose error is told as it is. -/
def ofStep {α : Type} (m : Step Pool α) : Part α :=
  ExceptT.mk fun p => let (r, p) := m p; (r.mapError .error, p)

def ofExcept {α : Type} (r : Except Error α) : Part α := ofStep (Step.ofExcept r)

def orComplain {α : Type} (r : Except Complaint α) : Part α := ExceptT.mk fun p => (r, p)

/-- The transaction of a command; there is one at most. -/
def tx : TxId := 1

/-! ## Reading what was typed -/

/-- A type and a name with a colon between them. -/
def columnOf (arg : String) : Except Complaint Column :=
  let cs := arg.toList
  if ':' ∈ cs then
    let name := String.ofList ((cs.dropWhile (· ≠ ':')).drop 1)
    match FieldType.ofWord (String.ofList (cs.takeWhile (· ≠ ':'))) with
    | .ok type => .ok { name, type }
    | .error e => .error (.error e)
  else .error (.notAColumn arg)

/-- The place of a column of a table. -/
def columnIndex (table : String) (schema : Schema) (column : String) : Except Complaint Nat :=
  match schema.index? column with
  | some i => .ok i
  | none => .error (.noColumn table column)

/-! ## Commands -/

def create (table : String) (columns : List String) : Part String := do
  let columns ← orComplain (columns.mapM columnOf)
  let schema ← ofExcept (Schema.ofColumns columns)
  let p ← get
  let (r, p) := Database.createTable table schema p
  set p
  match r with
  | .ok _ => return ""
  | .error e => throw (.cannotCreate table e)

def insert (table : String) (values : List String) : Part String := do
  let id ← ofStep (Database.table table)
  let schema ← ofStep (Database.schemaOf id)
  if values.length ≠ schema.numFields then throw (.valueCount table schema.numFields values.length)
  let fields ← ofExcept ((schema.columns.zip values).mapM fun e => Field.ofTyped e.1.type e.2)
  let place ← ofStep (Database.withTransaction tx (Database.insert tx id fields))
  return s!"inserted at page {place.page.number} slot {place.slot}\n"

/-- A row with its place in front. -/
def rowLine (row : Row) : String :=
  match row.place with
  | some place => s!"{place.page.number}:{place.slot}\t{row.text}\n"
  | none => s!"?\t{row.text}\n"

def scan (table : String) : Part String := do
  let id ← ofStep (Database.table table)
  let schema ← ofStep (Database.schemaOf id)
  let rows ← ofStep (Database.withTransaction tx (Database.scan tx id))
  return schema.text ++ "\n" ++ String.join (rows.map rowLine) ++ s!"({rows.length} rows)\n"

def delete (table : String) (page slot : Nat) : Part String := do
  let id ← ofStep (Database.table table)
  let row ← ofStep (Database.withTransaction tx (Database.delete tx ⟨⟨id, page⟩, slot⟩))
  return s!"deleted {row.text}\n"

/-- The rows of an aggregate over a scan. -/
def aggregateRows (table : TableId) (function : AggregateFunction) (field : Nat) (groupBy : Option Nat) :
    Step Pool (List Row) := do
  let schema ← Database.schemaOf table
  let a ← Step.ofExcept (Aggregate.ofFields schema function field groupBy)
  let operator := Operator.ofPlan (.aggregate a (.scan tx table schema))
  fun p => let (r, _, p) := operator.collect p; (r, p)

def aggregate (table function column : String) (groupBy : Option String) : Part String := do
  let id ← ofStep (Database.table table)
  let schema ← ofStep (Database.schemaOf id)
  let field ← orComplain (columnIndex table schema column)
  let group ← orComplain (groupBy.mapM (columnIndex table schema))
  let function ← ofExcept (AggregateFunction.ofWord function)
  let rows ← ofStep (Database.withTransaction tx (aggregateRows id function field group))
  return String.join (rows.map fun row => row.text ++ "\n")

/-- A time in the greatest unit of which there is one at least; without zeros at the end. -/
def durationText (milliseconds : Nat) : String :=
  if milliseconds = 0 then "0ns"
  else if milliseconds < 1000 then s!"{milliseconds}ms"
  else
    let thousandths := (toString (1000 + milliseconds % 1000)).toList.drop 1
    let digits := (thousandths.reverse.dropWhile (· = '0')).reverse
    let point := if digits.isEmpty then "" else "." ++ String.ofList digits
    s!"{milliseconds / 1000}{point}s"

def tableLine (p : Pool) (id : TableId) (file : TableFile) : String :=
  let name := (p.catalog.nameOf? id).getD ""
  s!"table {id} '{name}': {file.numPages p.disk} pages, schema ({file.schema.text})\n"

def stats (directory : String) : Part String := do
  let p ← get
  let tables := p.catalog.ids.filterMap fun id => (p.catalog.tableFile? id).map (tableLine p id)
  return s!"data directory: {directory}\n" ++
    s!"buffer pool: {p.capacity} pages of {p.config.pageSize} bytes, " ++
    s!"lock timeout {durationText p.config.lockTimeout}\n" ++ String.join tables

def perform (directory : String) : Command → Part String
  | .create table columns => create table columns
  | .insert table values => insert table values
  | .scan table => scan table
  | .delete table page slot => delete table page slot
  | .aggregate table function column groupBy => aggregate table function column groupBy
  | .stats => stats directory

/-! ## The program -/

/-- How a run of the program ends. -/
inductive Ending where
  | printed (out : String)
  | failed (complaint : Complaint)
  /-- The arguments do not fit. -/
  | usage
  deriving Repr, DecidableEq

def Ending.code : Ending → Nat
  | .printed _ => 0
  | .failed _ => 1
  | .usage => 2

/-- Opens the directory and carries out the command. -/
def run (args : Arguments) (disk : Disk) : Ending × Disk :=
  match Database.load args.config disk with
  | (.error e, disk) => (.failed (.cannotOpen args.directory e), disk)
  | (.ok pool, _) =>
    let (r, pool) := (perform args.directory args.command).run pool
    match r with
    | .ok out => (.printed out, pool.disk)
    | .error complaint => (.failed complaint, pool.disk)

/-- How a run ends whose arguments are not read up to their end. -/
def endingOf (program : Program) : Arguments.Stop → Ending
  | .version => .printed program.versionLine
  | .help topic => .printed (program.helpOn topic)
  | .misfit => .usage

/-- A run on the arguments as they were typed. -/
def runList (program : Program) (args : List String) (disk : Disk) : Ending × Disk :=
  match Arguments.ofList program.directory args with
  | .ok arguments => run arguments disk
  | .error stop => (endingOf program stop, disk)

end PageStore.CommandLine
