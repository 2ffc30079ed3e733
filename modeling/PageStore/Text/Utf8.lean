-- Bytes read as UTF-8 text. A refusal names the place of the first sequence
-- that is no character and how much of it could have begun one.
import PageStore.Bytes

namespace PageStore.Utf8

/-- Why bytes are no text. -/
inductive Fault where
  /-- From `index`, `length` bytes begin a character that the next byte cannot continue. -/
  | invalid (length index : Nat)
  /-- From `index` on, the bytes begin a character and end inside it. -/
  | incomplete (index : Nat)
  deriving Repr, DecidableEq

def Fault.message : Fault → String
  | .invalid length index => s!"invalid utf-8 sequence of {length} bytes from index {index}"
  | .incomplete index => s!"incomplete utf-8 byte sequence from index {index}"

/-- What stands at the front of a byte string. -/
inductive Front where
  | character (length : Nat)
  | broken (length : Nat)
  | cut
  deriving Repr, DecidableEq

/-- The length that a leading byte announces beyond one byte, with the range of the second byte. -/
def announced (b : UInt8) : Option (Nat × UInt8 × UInt8) :=
  if b < 0xC2 then none
  else if b < 0xE0 then some (2, 0x80, 0xBF)
  else if b = 0xE0 then some (3, 0xA0, 0xBF)
  else if b = 0xED then some (3, 0x80, 0x9F)
  else if b < 0xF0 then some (3, 0x80, 0xBF)
  else if b = 0xF0 then some (4, 0x90, 0xBF)
  else if b < 0xF4 then some (4, 0x80, 0xBF)
  else if b = 0xF4 then some (4, 0x80, 0x8F)
  else none

/-- `missing` continuation bytes are still to come after `seen` bytes of a character. -/
def continued (seen : Nat) : Nat → Bytes → Front
  | 0, _ => .character seen
  | _ + 1, [] => .cut
  | missing + 1, b :: rest =>
    if 0x80 ≤ b ∧ b ≤ 0xBF then continued (seen + 1) missing rest else .broken seen

def front : Bytes → Front
  | [] => .cut
  | b :: rest =>
    if b < 0x80 then .character 1
    else match announced b with
      | none => .broken 1
      | some (length, low, high) =>
        match rest with
        | [] => .cut
        | c :: rest' =>
          if low ≤ c ∧ c ≤ high then continued 2 (length - 2) rest' else .broken 1

/-- The first fault at or after `index`, where `bs` begins; at most `steps` characters are passed. -/
def faultFrom : Nat → Nat → Bytes → Fault
  | 0, index, _ => .incomplete index
  | steps + 1, index, bs =>
    match front bs with
    | .character length => faultFrom steps (index + length) (bs.drop length)
    | .broken length => .invalid length index
    | .cut => .incomplete index

/-- The bytes of a text. -/
def encode (s : String) : Bytes := s.toUTF8.data.toList

/-- The text that these bytes spell. -/
def decode (bs : Bytes) : Except Fault String :=
  match String.fromUTF8? ⟨bs.toArray⟩ with
  | some s => .ok s
  | none => .error (faultFrom (bs.length + 1) 0 bs)

theorem decode_encode (s : String) : decode (encode s) = .ok s := by
  have hb : (⟨(encode s).toArray⟩ : ByteArray) = s.toByteArray := rfl
  simp only [decode, hb, String.fromUTF8?]
  rw [dif_pos s.isValidUTF8]
  rfl

/-- The bytes of a text tell it apart. -/
theorem encode_injective {s t : String} (h : encode s = encode t) : s = t := by
  have hdecode := congrArg decode h
  rw [decode_encode, decode_encode] at hdecode
  exact Except.ok.inj hdecode

theorem encode_append (s t : String) : encode (s ++ t) = encode s ++ encode t := by
  simp [encode]

theorem encode_of_decode {bs : Bytes} {s : String} (h : decode bs = .ok s) : encode s = bs := by
  simp only [decode, String.fromUTF8?] at h
  split at h
  · rename_i hs
    split at hs
    · cases hs
      cases h
      rfl
    · cases hs
  · cases h

end PageStore.Utf8
