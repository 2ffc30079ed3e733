-- Carrying out what a client asks.
import PageStore.Session.Action

namespace PageStore.Session

/-! ## Parts of actions -/

/-- The row of these values over a given schema, or else over another one. -/
def rowOver (columns : Option (List Column)) (schema : Step Session Schema) (fields : List Field) :
    Step Session Row := do
  let schema ← match columns with
    | some columns => Step.ofExcept (Schema.ofColumns columns)
    | none => schema
  Step.ofExcept (Row.ofFields schema fields)

/-- Opens a file without telling the catalog. -/
def openFile (table : TableId) (name : String) (columns : List Column) (pageSize : Nat) :
    Step Session TableFile := do
  let schema ← Step.ofExcept (Schema.ofColumns columns)
  let file ← onDisk (TableFile.ofName table (Storage.fileNameOf name) schema pageSize)
  Step.update fun s => { s with opened := s.opened.insert table file }
  return file

/-- Opens the directory anew and goes on with that; what was not written is lost, unless a
transaction that is running ends on the old pool. If the directory cannot be opened the session goes
on as it was. -/
def reopen (config : Config) : Step Session Unit := do
  let s ← Step.state
  let (result, disk) := Database.load config s.pool.disk
  match result with
  | .ok pool => Step.setState { pool, former := s.former ++ [s.pool], opened := s.opened }
  | .error e =>
    onDisk (Step.setState disk)
    Step.fail e

def scanNext (name : String) : Step Session (Option Row) := do
  let s ← Step.state
  let scan ← Step.ofOption (missing name) (s.scans.get? name)
  let (result, scan, pool) := Scan.next (scan, s.pool)
  Step.update fun s => { s with pool, scans := s.scans.insert name scan }
  Step.ofExcept result

def planOf (query : Query) : Step Session Plan := do
  let s ← Step.state
  Step.ofExcept (query.plan s.pool.catalog)

/-- A page of these rows, written straight into a file. -/
def writeFile (file : TableFile) (id : PageId) (rows : List (List Field)) : Step Session Unit := do
  let empty ← Step.ofExcept (Page.empty id file.schema file.pageSize)
  let page ← Step.ofExcept <| rows.foldlM (fun (page : Page) fields => do
    let row ← Row.ofFields file.schema fields
    let (_, page) ← page.insert row
    return page) empty
  onDisk (file.writePage page)

/-- The page in memory. -/
def cached (id : PageId) : Step Session Page := do
  let s ← Step.state
  Step.ofOption (missing id.text) (s.pool.page? id)

/-- What the body of a transaction says after its steps: how many there were, or the first error. -/
def verdict (results : List (Except Error Answer)) (fail : Bool) : Except Error Nat :=
  match results.getLast? with
  | some (.error e) => .error e
  | _ => if fail then .error (.operator (.other "forced failure")) else .ok results.length

/-! ## Actions -/

mutual

/-- Carries out an action. -/
def perform : Action → Step Session Answer
  | .createTable name columns => do
    let schema ← Step.ofExcept (Schema.ofColumns columns)
    return .number (← onPool (Database.createTable name schema))
  | .findTable name => return .number (← onPool (Database.table name))
  | .listTables => return .texts (Database.tableNames (← Step.state).pool)
  | .tableId name => return ((← Step.state).pool.catalog.idOf? name).elim .nothing .number
  | .tableName table => return ((← Step.state).pool.catalog.nameOf? table).elim .nothing .text
  | .tableIds => return .numbers (← Step.state).pool.catalog.ids
  | .takeTableId => return .number (← onPool (Pool.onStorage Storage.takeId))
  | .schemaOf table => return .schema (← onPool (Database.schemaOf table))
  | .catalog => do
    let p := (← Step.state).pool
    return .catalog p.catalog.pageSize p.catalog.onDisk p.capacity (p.numCached = 0)
  | .openFile table name columns pageSize => do
    let file ← openFile table name columns pageSize
    let s ← Step.state
    return .file table file.layout.slots (file.numPages s.pool.disk)
  | .addTable table name columns pageSize => do
    let file ← openFile table name columns pageSize
    onPool (Pool.onStorage (Storage.addTable file name))
    return .nothing
  | .reopen config => do
    reopen config
    return .nothing
  | .readRaw name => return ((← Step.state).pool.disk.contentAt? name).elim .nothing .bytes
  | .writeRaw name bytes => do
    onDisk (Disk.putAt name bytes)
    return .nothing
  | .insert tx table fields => return .place (← onPool (Database.insert tx table fields))
  | .delete tx place => return .row (← onPool (Database.delete tx place))
  | .commit tx => do
    onPool (Database.commit tx)
    return .nothing
  | .abort tx => do
    onPool (Database.abort tx)
    return .nothing
  | .transaction tx steps fail => do
    let opening := (← Step.state).opening
    let results ← performUntilError steps
    let result ← Step.attempt <| Step.guarded (onOpening opening (Database.commit tx))
      (onOpening opening (Database.abort tx)) (Step.ofExcept (verdict results fail))
    return .transaction results result
  | .scan tx table => return .rows (← onPool (Database.scan tx table))
  | .openScan name tx table => do
    Step.update fun s => { s with scans := s.scans.insert name (Scan.start tx table) }
    return .number table
  | .nextRows name count => return .pulled (← Step.each (fun _ => scanNext name) (List.range count))
  | .rewind name => do
    Step.update fun s => { s with scans := s.scans.modify name Scan.rewind }
    return .nothing
  | .exec query calls => do
    let plan ← planOf query
    let s ← Step.state
    let (results, _, pool) := (Operator.ofPlan plan).callAll calls s.pool
    Step.update fun s => { s with pool }
    return .calls results
  | .openOperator name query => do
    let plan ← planOf query
    Step.update fun s => { s with operators := s.operators.insert name (.ofPlan plan) }
    return .nothing
  | .callOperator name call => do
    let s ← Step.state
    let operator ← Step.ofOption (missing name) (s.operators.get? name)
    let (result, operator, pool) := operator.call s.pool call
    Step.update fun s => { s with pool, operators := s.operators.insert name operator }
    return .call (← Step.ofExcept result)
  | .fetch tx page mode keepAs busy => do
    let busy := (← Step.state).pagesOfHandles busy
    let fetched ← onPool (Pool.fetchBeside busy tx page mode)
    keepAs.forM fun name => keep name page
    return .page fetched
  | .poolInsert tx table fields columns => do
    let row ← rowOver columns (TableFile.schema <$> fileOf table) fields
    return .place (← onPool (Pool.insert tx table row))
  | .poolDelete tx place fields columns => do
    let schema ← Step.ofExcept (Schema.ofColumns columns)
    let row ← Step.ofExcept (Row.ofFields schema fields)
    onPool (Pool.delete tx (row.setPlace place))
    return .nothing
  | .release tx page => do
    onPool (Pool.release tx page)
    return .nothing
  | .holdsLock tx page => return .flag (← onPool (Pool.holds tx page))
  | .flush tx => do
    onPool (Pool.flush tx)
    return .nothing
  | .flushAll => do
    onPool Pool.flushAll
    return .nothing
  | .discard page => do
    onPool (Pool.discard page)
    return .nothing
  | .isCached page => return .flag ((← Step.state).pool.isCached page)
  | .handlePage name => return .page (← handle name).page
  | .handleBefore name => do
    let h ← handle name
    let before ← Step.ofExcept h.page.before
    return .compared before (before.same h.page)
  | .handleInsert name fields columns => do
    let h ← handle name
    let row ← rowOver columns (Step.done h.page.schema) fields
    let (place, page) ← Step.ofExcept (h.page.insert row)
    changeHandle h page
    return .place place
  | .handleMark name tx dirty => do
    let h ← handle name
    changeHandle h (h.page.mark (if dirty then some tx else none))
    return .nothing
  | .readStored table page => do
    let file ← fileOf table
    let read ← Step.ofExcept (file.readPage (← Step.state).pool.disk page)
    let bytes ← Step.ofExcept read.data
    return .pageWithBytes read bytes
  | .storePage table page rows => do
    let file ← fileOf table
    writeFile file page rows
    return .nothing
  | .insertInFile tx table fields columns => do
    let file ← fileOf table
    let row ← rowOver columns (Step.done file.schema) fields
    let place ← onPool (Pool.insertInto file tx row)
    return .placed place [← cached place.page]
  | .deleteInFile tx table fields place => do
    let file ← fileOf table
    let row ← Step.ofExcept (Row.ofFields file.schema fields)
    let page ← onPool (Pool.deleteFrom file tx (row.setPlace place))
    return .page (← cached page)

/-- Carries out actions up to the first that fails, and gives what each came to. -/
def performUntilError : List Action → Step Session (List (Except Error Answer))
  | [] => return []
  | action :: rest => do
    let result ← Step.attempt (perform action)
    refresh
    match result with
    | .error e => return [.error e]
    | .ok answer => return .ok answer :: (← performUntilError rest)

end

/-- Carries out an action, after which every kept page is again as it is in memory. -/
def run (action : Action) : Step Session Answer := do
  let result ← Step.attempt (perform action)
  refresh
  Step.ofExcept result

end PageStore.Session
