-- Everything that can go wrong, as causes. The wording of each stands in one
-- function, so that a law about an error never speaks of text.
import PageStore.Id
import PageStore.Field
import PageStore.Operator.Function
import PageStore.Text.Quoted

namespace PageStore

/-! ## Rows -/

/-- What is wrong with a row, with its schema or with text that should be one. -/
inductive RowFault where
  | noColumns
  | fieldCount (expected got : Nat)
  | fieldType (index : Nat) (got expected : FieldType)
  | cannotHold (index : Nat) (got : FieldType)
  | unknownType (name : String)
  | badInteger (text : String) (fault : Decimal.Fault)
  | stringTooLong (bytes : Nat)
  | storedLength (claimed : Nat)
  | storedText (fault : Utf8.Fault)
  | noRecordId
  | other (reason : String)
  deriving Repr, DecidableEq

def RowFault.message : RowFault → String
  | .noColumns => "schema needs at least one column"
  | .fieldCount expected got => s!"expected {expected} fields, got {got}"
  | .fieldType index got expected => s!"field {index} has type {got.name}, schema says {expected.name}"
  | .cannotHold index got => s!"field {index} cannot hold a {got.name} value"
  | .unknownType name => s!"unknown field type: {name}"
  | .badInteger text fault => s!"'{text}': {fault.message}"
  | .stringTooLong bytes => s!"string of {bytes} bytes exceeds {maxStringBytes}"
  | .storedLength claimed => s!"string length {claimed} exceeds {maxStringBytes}"
  | .storedText fault => fault.message
  | .noRecordId => "tuple has no record id"
  | .other reason => reason

/-! ## Files and pages -/

/-- What is wrong with an access to a file. -/
inductive FileFault where
  /-- The bytes end inside a value. -/
  | short
  | beyondEnd (page : Nat) (path : String)
  | bufferLength (expected got : Nat)
  /-- The system refuses the file's name. -/
  | refused
  | other (reason : String)
  deriving Repr, DecidableEq

def FileFault.message : FileFault → String
  | .short => "failed to fill whole buffer"
  | .beyondEnd page path => s!"page {page} is beyond the end of {Quoted.quote path}"
  | .bufferLength expected got => s!"buffer must be {expected} bytes, got {got}"
  | .refused => "os error"
  | .other reason => reason

/-- Why bytes are no row. -/
inductive DecodeFault where
  | short
  | row (fault : RowFault)
  deriving Repr, DecidableEq

def DecodeFault.ofField : Field.Unreadable → DecodeFault
  | .short => .short
  | .length claimed => .row (.storedLength claimed)
  | .text fault => .row (.storedText fault)

/-- What is wrong with the bytes of a page. -/
inductive PageFault where
  | length (expected got : Nat)
  | slot (index : Nat) (fault : DecodeFault)
  | other (reason : String)
  deriving Repr, DecidableEq

/-! ## Catalog -/

/-- Why bytes are no list of table definitions. -/
inductive DefinitionFault where
  /-- A number is cut short. -/
  | numberCut
  /-- A text claims more bytes than are left. -/
  | textCut
  | unknownType (index : Nat)
  | badText (fault : Utf8.Fault)
  deriving Repr, DecidableEq

def DefinitionFault.message : DefinitionFault → String
  | .numberCut => "io error: unexpected end of file"
  | .textCut => "io error: "
  | .unknownType index => s!"invalid value: integer `{index}`, expected variant index 0 <= i < 2"
  | .badText fault => s!"string is not valid utf8: {fault.message}"

inductive CatalogFault where
  | inMemory
  | invalidName (name : String)
  | doesNotFit (name : String) (row page : Nat)
  | pageBytes (name : String) (table catalog : Nat)
  | idTaken (id : TableId)
  | noSuchTable (name : String)
  | poolPageBytes (catalog pool : Nat)
  | noPages
  | pageTooSmall (bytes : Nat)
  | definitions (fault : DefinitionFault)
  | other (reason : String)
  deriving Repr, DecidableEq

def CatalogFault.message : CatalogFault → String
  | .inMemory => "an in-memory catalog cannot create tables"
  | .invalidName name => s!"invalid table name '{name}'"
  | .doesNotFit name row page =>
    s!"table '{name}': {row} byte tuples do not fit in {page} byte pages"
  | .pageBytes name table catalog => s!"table '{name}' uses {table} byte pages, catalog uses {catalog}"
  | .idTaken id => s!"table id {id} is already registered"
  | .noSuchTable name => s!"table '{name}' does not exist"
  | .poolPageBytes catalog pool => s!"catalog uses {catalog} byte pages, buffer pool {pool}"
  | .noPages => "buffer pool must hold at least one page"
  | .pageTooSmall bytes => s!"page size {bytes} is too small"
  | .definitions fault => fault.message
  | .other reason => reason

/-! ## Operators -/

inductive OperatorFault where
  | cannotCompare (left : Nat) (leftType : Option FieldType) (right : Nat) (rightType : Option FieldType)
  /-- `next` came before `init`; `operator` names the kind. -/
  | notStarted (operator : String)
  | noAggregateField (index : Nat)
  | noGroupField (index : Nat)
  | unsupported (function : AggregateFunction) (type : FieldType)
  | overflow (function : AggregateFunction) (value : Int)
  | unknownFunction (name : String)
  /-- A planned failure of a replay. -/
  | injected (call : String)
  /-- More rows came than there can be. -/
  | endless
  | other (reason : String)
  deriving Repr, DecidableEq

/-- How a message writes a type that may be missing. -/
def FieldType.optionText : Option FieldType → String
  | some type => s!"Some({type.capital})"
  | none => "None"

def OperatorFault.message : OperatorFault → String
  | .cannotCompare left leftType right rightType =>
    s!"cannot compare left field {left} ({FieldType.optionText leftType}) " ++
    s!"with right field {right} ({FieldType.optionText rightType})"
  | .notStarted operator => s!"{operator} not initialized, call init() first"
  | .noAggregateField index => s!"no field {index} to aggregate"
  | .noGroupField index => s!"no field {index} to group by"
  | .unsupported function type => s!"{function.name} is not supported on {type.name} fields"
  | .overflow function value => s!"{function.name} result {value} overflows an int"
  | .unknownFunction name => s!"unknown aggregate '{name}'"
  | .injected call => s!"injected {call} failure"
  | .endless => "more rows than there can be"
  | .other reason => reason

/-! ## All errors -/

inductive Error where
  | lockRefused (tx : TxId) (page : PageId)
  | schemaMismatch (expected found : String)
  | pageFull (page : PageId)
  | slotEmpty (page : PageId) (slot : Nat)
  | notOnPage (page : PageId)
  | poolFull (capacity : Nat)
  | corruptPage (page : PageId) (fault : PageFault)
  | unknownTable (table : TableId)
  | duplicateTable (name : String)
  | invalidRow (fault : RowFault)
  | catalog (fault : CatalogFault)
  | operator (fault : OperatorFault)
  | file (fault : FileFault)
  deriving Repr, DecidableEq

namespace Error

def ofDecode : DecodeFault → Error
  | .short => .file .short
  | .row fault => .invalidRow fault

/-- The wording of what is wrong with a row's bytes, as an error of its own has it. -/
def decodeMessage : DecodeFault → String
  | .short => s!"IO error: {FileFault.message .short}"
  | .row fault => s!"Invalid tuple: {fault.message}"

def pageReason : PageFault → String
  | .length expected got => s!"expected {expected} bytes, got {got}"
  | .slot index fault => s!"slot {index}: {decodeMessage fault}"
  | .other reason => reason

def message : Error → String
  | .lockRefused tx page =>
    s!"Transaction {tx.text} aborted: lock on {page.text} not granted within wait budget"
  | .schemaMismatch expected found => s!"Schema mismatch: expected {expected}, found {found}"
  | .pageFull page => s!"Page {page.text} is full"
  | .slotEmpty page slot => s!"Slot {slot} on page {page.text} is already empty"
  | .notOnPage page => s!"Tuple is not stored on page {page.text}"
  | .poolFull capacity => s!"Buffer pool is full: all {capacity} cached pages are dirty"
  | .corruptPage page fault => s!"Corrupt page {page.text}: {pageReason fault}"
  | .unknownTable table => s!"Unknown table: {table}"
  | .duplicateTable name => s!"Table '{name}' already exists"
  | .invalidRow fault => s!"Invalid tuple: {fault.message}"
  | .catalog fault => s!"Catalog error: {fault.message}"
  | .operator fault => s!"Executor error: {fault.message}"
  | .file fault => s!"IO error: {fault.message}"

/-- Whether the whole transaction may be rolled back and run again. -/
def retryable : Error → Bool
  | .lockRefused _ _ => true
  | _ => false

/-- The messages of the errors behind this one. -/
def causes : Error → List String
  | .file fault => [fault.message]
  | _ => []

end Error

end PageStore
