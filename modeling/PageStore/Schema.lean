-- The columns of a row: their names and types, in order.
import PageStore.Error

namespace PageStore

/-- The type that a word names, in any mix of small letters and capitals. -/
def FieldType.ofWord (word : String) : Except Error FieldType :=
  let word := word.map Char.toLower
  match FieldType.ofName? word with
  | some type => .ok type
  | none => .error (.invalidRow (.unknownType word))

structure Column where
  name : String
  type : FieldType
  deriving Repr, DecidableEq

/-- Ordered columns. A schema that a person gives has at least one; one that is read from a stored
catalog may have none. -/
structure Schema where
  columns : List Column
  deriving Repr, DecidableEq

namespace Schema

def ofColumns (columns : List Column) : Except Error Schema :=
  if columns.isEmpty then .error (.invalidRow .noColumns) else .ok ⟨columns⟩

/-- Columns named `field0`, `field1` and so on. -/
def numbered (types : List FieldType) : List Column :=
  types.mapIdx fun i type => ⟨s!"field{i}", type⟩

def types (s : Schema) : List FieldType := s.columns.map Column.type

def numFields (s : Schema) : Nat := s.columns.length

def type? (s : Schema) (i : Nat) : Option FieldType := s.types[i]?

/-- The place of the first column of a name. -/
def index? (s : Schema) (name : String) : Option Nat := s.columns.findIdx? fun c => c.name = name

/-- The bytes of fields of these types, one behind the other. -/
def bytesOf : List FieldType → Nat
  | [] => 0
  | type :: rest => type.width + bytesOf rest

/-- The bytes of one row. -/
def byteSize (s : Schema) : Nat := bytesOf s.types

/-- Schemas agree when their types do, place by place. Names have no part in it. -/
def agrees (s t : Schema) : Bool := s.types = t.types

/-- The columns of `left`, then those of `right`. -/
def append (left right : Schema) : Schema := ⟨left.columns ++ right.columns⟩

def text (s : Schema) : String :=
  "[" ++ ", ".intercalate (s.columns.map fun c => s!"{c.name}({c.type.name})") ++ "]"

/-- What is wrong when a row or an input has other types than a table. -/
def mismatch (expected found : Schema) : Error := .schemaMismatch expected.text found.text

@[simp] theorem types_append (s t : Schema) : (s.append t).types = s.types ++ t.types := by
  simp [append, types]

@[simp] theorem bytesOf_append (front back : List FieldType) :
    bytesOf (front ++ back) = bytesOf front + bytesOf back := by
  induction front with
  | nil => simp [bytesOf]
  | cons type rest ih => simp [bytesOf, ih, Nat.add_assoc]

@[simp] theorem byteSize_append (s t : Schema) : (s.append t).byteSize = s.byteSize + t.byteSize := by
  simp [byteSize]

theorem agrees_iff (s t : Schema) : s.agrees t = true ↔ s.types = t.types := by simp [agrees]

end Schema

end PageStore
