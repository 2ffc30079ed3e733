-- Rows: one value for each column of a schema, and the place where they are stored.
import PageStore.Schema

namespace PageStore

/-! ## Single values -/

/-- Reads a value from the text that a person typed. -/
def Field.ofTyped (type : FieldType) (text : String) : Except Error Field :=
  (Field.ofText type text).mapError fun fault => .invalidRow (.badInteger text fault)

/-- Reads a value from the front of `bs` and gives what is left. -/
def Field.read (type : FieldType) (bs : Bytes) : Except Error (Field × Bytes) :=
  (Field.decode type bs).mapError fun fault => Error.ofDecode (.ofField fault)

structure Row where
  schema : Schema
  fields : List Field
  place : Option RecordId := none
  deriving Repr, DecidableEq

namespace Row

/-! ## Making rows -/

/-- The first value whose type is not the column's, from index `i` on. -/
def misfit? : Nat → List Field → List FieldType → Option RowFault
  | i, f :: fields, t :: types => if f.type = t then misfit? (i + 1) fields types else some (.fieldType i f.type t)
  | _, _, _ => none

/-- A row that has no place yet. -/
def ofFields (schema : Schema) (fields : List Field) : Except Error Row :=
  if fields.length ≠ schema.numFields then .error (.invalidRow (.fieldCount schema.numFields fields.length))
  else match misfit? 0 fields schema.types with
    | some fault => .error (.invalidRow fault)
    | none => .ok { schema, fields }

def field? (r : Row) (i : Nat) : Option Field := r.fields[i]?

/-- Puts a value into a column of its type. -/
def setField (r : Row) (i : Nat) (f : Field) : Except Error Row :=
  if r.schema.type? i = some f.type then .ok { r with fields := r.fields.set i f }
  else .error (.invalidRow (.cannotHold i f.type))

def setPlace (r : Row) (place : Option RecordId) : Row := { r with place }

/-- The values of `left`, then those of `right`, over a schema that must have room for both. -/
def append (schema : Schema) (left right : Row) : Except Error Row :=
  ofFields schema (left.fields ++ right.fields)

/-- Same types and same values. The place of a row is no part of it. -/
def same (r s : Row) : Bool := r.schema.agrees s.schema && r.fields = s.fields

def text (r : Row) : String := "\t".intercalate (r.fields.map Field.text)

/-! ## Bytes -/

/-- The values one behind the other. -/
def encodeFields : List Field → Except Error Bytes
  | [] => .ok []
  | f :: fields =>
    match f.encode with
    | .error tooLong => .error (.invalidRow (.stringTooLong tooLong.bytes))
    | .ok front => (encodeFields fields).map (front ++ ·)

def encode (r : Row) : Except Error Bytes := encodeFields r.fields

/-- Reads values of these types from the front and gives what is left. -/
def decodeFields : List FieldType → Bytes → Except DecodeFault (List Field × Bytes)
  | [], bs => .ok ([], bs)
  | t :: types, bs =>
    match Field.decode t bs with
    | .error fault => .error (.ofField fault)
    | .ok (f, rest) => (decodeFields types rest).map fun r => (f :: r.1, r.2)

/-- A row without a place and the bytes behind it. -/
def decode (schema : Schema) (bs : Bytes) : Except Error (Row × Bytes) :=
  match decodeFields schema.types bs with
  | .ok (fields, rest) => .ok ({ schema, fields }, rest)
  | .error fault => .error (Error.ofDecode fault)

end Row

end PageStore
