-- The stored form of the catalog: a list of table definitions as bytes. Lengths
-- take eight bytes, other numbers four, least byte first; texts are UTF-8 behind
-- their length. Bytes behind the list do not count.
import PageStore.Schema

namespace PageStore

structure TableDefinition where
  id : TableId
  name : String
  fileName : String
  schema : Schema
  deriving Repr, DecidableEq

namespace TableDefinition

/-! ## Writing -/

def encodeLength (n : Nat) : Bytes := Bytes.littleEndian 8 n

def encodeNumber (n : Nat) : Bytes := Bytes.littleEndian 4 n

def encodeText (s : String) : Bytes :=
  let bytes := Utf8.encode s
  encodeLength bytes.length ++ bytes

def typeIndex : FieldType → Nat
  | .int => 0
  | .str => 1

def encodeColumn (c : Column) : Bytes := encodeText c.name ++ encodeNumber (typeIndex c.type)

/-- How many there are, then each. -/
def encodeList {α : Type} (encode : α → Bytes) (l : List α) : Bytes :=
  encodeLength l.length ++ l.flatMap encode

def encode (d : TableDefinition) : Bytes :=
  encodeNumber d.id ++ encodeText d.name ++ encodeText d.fileName ++
    encodeList encodeColumn d.schema.columns

def encodeAll (defs : List TableDefinition) : Bytes := encodeList encode defs

/-! ## Reading -/

/-- Reads a value from the front and gives what is left. -/
abbrev Reader (α : Type) : Type := Bytes → Except DefinitionFault (α × Bytes)

def decodeNumber (width : Nat) : Reader Nat := fun bs =>
  if bs.length < width then .error .numberCut
  else .ok (Bytes.ofLittleEndian (bs.take width), bs.drop width)

def decodeText : Reader String := fun bs => do
  let (length, rest) ← decodeNumber 8 bs
  if rest.length < length then .error .textCut
  else match Utf8.decode (rest.take length) with
    | .ok s => .ok (s, rest.drop length)
    | .error fault => .error (.badText fault)

def decodeType : Reader FieldType := fun bs => do
  let (index, rest) ← decodeNumber 4 bs
  match index with
  | 0 => .ok (.int, rest)
  | 1 => .ok (.str, rest)
  | _ => .error (.unknownType index)

def decodeColumn : Reader Column := fun bs => do
  let (name, bs) ← decodeText bs
  let (type, bs) ← decodeType bs
  .ok ({ name, type }, bs)

/-- `n` values one behind the other. -/
def decodeMany {α : Type} (decode : Reader α) : Nat → Reader (List α)
  | 0, bs => .ok ([], bs)
  | n + 1, bs => do
    let (a, bs) ← decode bs
    let (rest, bs) ← decodeMany decode n bs
    .ok (a :: rest, bs)

def decodeList {α : Type} (decode : Reader α) : Reader (List α) := fun bs => do
  let (n, bs) ← decodeNumber 8 bs
  decodeMany decode n bs

def decode : Reader TableDefinition := fun bs => do
  let (id, bs) ← decodeNumber 4 bs
  let (name, bs) ← decodeText bs
  let (fileName, bs) ← decodeText bs
  let (columns, bs) ← decodeList decodeColumn bs
  .ok ({ id, name, fileName, schema := ⟨columns⟩ }, bs)

def decodeAll (bs : Bytes) : Except Error (List TableDefinition) :=
  match decodeList decode bs with
  | .ok (defs, _) => .ok defs
  | .error fault => .error (.catalog (.definitions fault))

end TableDefinition

end PageStore
