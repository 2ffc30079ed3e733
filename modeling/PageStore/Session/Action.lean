-- What a client can ask of a session, and the form of what it gets.
import PageStore.Session.Basic
import PageStore.Operator.Query

namespace PageStore

inductive Action where
  -- Tables
  | createTable (name : String) (columns : List Column)
  | findTable (name : String)
  | listTables
  | tableId (name : String)
  | tableName (table : TableId)
  | tableIds
  | takeTableId
  | schemaOf (table : TableId)
  | catalog
  | openFile (table : TableId) (name : String) (columns : List Column) (pageSize : Nat)
  | addTable (table : TableId) (name : String) (columns : List Column) (pageSize : Nat)
  | reopen (config : Config)
  | readRaw (name : String)
  | writeRaw (name : String) (bytes : Bytes)
  -- Rows
  | insert (tx : TxId) (table : TableId) (fields : List Field)
  | delete (tx : TxId) (place : RecordId)
  -- Transactions
  | commit (tx : TxId)
  | abort (tx : TxId)
  | transaction (tx : TxId) (steps : List Action) (fail : Bool)
  -- Scans
  | scan (tx : TxId) (table : TableId)
  | openScan (name : String) (tx : TxId) (table : TableId)
  | nextRows (name : String) (count : Nat)
  | rewind (name : String)
  -- Operators
  | exec (query : Query) (calls : List OperatorCall)
  | openOperator (name : String) (query : Query)
  | callOperator (name : String) (call : OperatorCall)
  -- Pages
  | fetch (tx : TxId) (page : PageId) (mode : LockMode) (keepAs : Option String) (busy : List String)
  | poolInsert (tx : TxId) (table : TableId) (fields : List Field) (columns : Option (List Column))
  | poolDelete (tx : TxId) (place : Option RecordId) (fields : List Field) (columns : List Column)
  | release (tx : TxId) (page : PageId)
  | holdsLock (tx : TxId) (page : PageId)
  | flush (tx : TxId)
  | flushAll
  | discard (page : PageId)
  | isCached (page : PageId)
  -- Pages that the client keeps
  | handlePage (name : String)
  | handleBefore (name : String)
  | handleInsert (name : String) (fields : List Field) (columns : Option (List Column))
  | handleMark (name : String) (tx : TxId) (dirty : Bool)
  -- Files
  | readStored (table : TableId) (page : PageId)
  | storePage (table : TableId) (page : PageId) (rows : List (List Field))
  | insertInFile (tx : TxId) (table : TableId) (fields : List Field) (columns : Option (List Column))
  | deleteInFile (tx : TxId) (table : TableId) (fields : List Field) (place : Option RecordId)

/-- What a client gets when nothing went wrong. -/
inductive Answer where
  | nothing
  | flag (value : Bool)
  | number (value : Nat)
  | numbers (values : List Nat)
  | text (value : String)
  | texts (values : List String)
  | bytes (value : Bytes)
  | schema (value : Schema)
  | place (value : RecordId)
  | row (value : Row)
  | rows (values : List Row)
  /-- What single calls gave, none for the end. -/
  | pulled (values : List (Option Row))
  | page (value : Page)
  | pageWithBytes (page : Page) (bytes : Bytes)
  /-- A before image, and whether the page is still the same. -/
  | compared (before : Page) (same : Bool)
  /-- The place of a row and the pages that were touched to put it there. -/
  | placed (place : RecordId) (touched : List Page)
  | file (table : TableId) (slots pages : Nat)
  | catalog (pageSize : Nat) (onDisk : Bool) (capacity : Nat) (empty : Bool)
  | call (value : CallAnswer)
  | calls (values : List (Except Error CallAnswer))
  | transaction (steps : List (Except Error Answer)) (result : Except Error Nat)

end PageStore
