-- The values of a row and their types. Every type has a fixed width in bytes, so
-- that rows of one schema are all equally wide.
import PageStore.Bytes
import PageStore.Text.Decimal
import PageStore.Text.Utf8

namespace PageStore

/-- The most bytes that a string may have. -/
def maxStringBytes : Nat := 128

inductive FieldType where
  | int
  | str
  deriving Repr, DecidableEq

/-- A value of a row. -/
inductive Field where
  | int (value : Int32)
  | str (text : String)
  deriving Repr, DecidableEq

/-! ## Types -/

namespace FieldType

/-- How many bytes a value takes. A string has its length in front and zeros behind. -/
def width : FieldType → Nat
  | .int => 4
  | .str => 4 + maxStringBytes

def name : FieldType → String
  | .int => "int"
  | .str => "string"

/-- The word for the type with a capital, as one message has it. -/
def capital : FieldType → String
  | .int => "Int"
  | .str => "Str"

/-- The type that a word in small letters names. -/
def ofName? : String → Option FieldType
  | "int" | "integer" => some .int
  | "str" | "string" | "text" => some .str
  | _ => none

end FieldType

/-! ## Values -/

namespace Field

def type : Field → FieldType
  | .int _ => .int
  | .str _ => .str

def text : Field → String
  | .int v => toString v.toInt
  | .str s => s

/-- Byte strings compare like words in a dictionary. -/
def orderBytes : Bytes → Bytes → Ordering
  | [], [] => .eq
  | [], _ :: _ => .lt
  | _ :: _, [] => .gt
  | a :: as, b :: bs => (compare a.toNat b.toNat).then (orderBytes as bs)

/-- Numbers by value and below all strings, strings by their bytes. -/
def order : Field → Field → Ordering
  | .int a, .int b => compare a.toInt b.toInt
  | .int _, .str _ => .lt
  | .str _, .int _ => .gt
  | .str a, .str b => orderBytes (Utf8.encode a) (Utf8.encode b)

/-! ## Bytes -/

/-- A string of `bytes` bytes is longer than a row has room for. -/
structure TooLong where
  bytes : Nat
  deriving Repr, DecidableEq

/-- The `FieldType.width` bytes of a value: numbers with the greatest byte first, strings behind
their length and followed by zeros. -/
def encode : Field → Except TooLong Bytes
  | .int v => .ok (Bytes.bigEndian 4 v.toUInt32.toNat)
  | .str s =>
    let bytes := Utf8.encode s
    if maxStringBytes < bytes.length then .error ⟨bytes.length⟩
    else .ok (Bytes.bigEndian 4 bytes.length ++ Bytes.fit maxStringBytes bytes)

/-- Why bytes are no value. -/
inductive Unreadable where
  /-- They end before the value does. -/
  | short
  /-- They claim a string longer than its room. -/
  | length (claimed : Nat)
  | text (fault : Utf8.Fault)
  deriving Repr, DecidableEq

/-- The first `n` bytes and the rest. -/
def takeExactly (n : Nat) (bs : Bytes) : Except Unreadable (Bytes × Bytes) :=
  if bs.length < n then .error .short else .ok (bs.take n, bs.drop n)

/-- Reads a value from the front of `bs` and gives what is left. All bytes of a string's room are
taken before its length is looked at. -/
def decode (type : FieldType) (bs : Bytes) : Except Unreadable (Field × Bytes) := do
  let (head, rest) ← takeExactly 4 bs
  match type with
  | .int => .ok (.int (UInt32.ofNat (Bytes.ofBigEndian head)).toInt32, rest)
  | .str =>
    let (room, rest) ← takeExactly maxStringBytes rest
    let length := Bytes.ofBigEndian head
    if maxStringBytes < length then .error (.length length)
    else match Utf8.decode (room.take length) with
      | .ok s => .ok (.str s, rest)
      | .error fault => .error (.text fault)

/-- Reads a value of a type from the text that a person typed. -/
def ofText (type : FieldType) (text : String) : Except Decimal.Fault Field :=
  match type with
  | .int => (Decimal.readInt32 text).map Field.int
  | .str => .ok (.str text)

end Field

end PageStore
