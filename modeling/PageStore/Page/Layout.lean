-- Where the rows of a page stand: a bit for each slot in front, then the slots,
-- all of one width, then bytes that nothing uses.

namespace PageStore

structure Layout where
  pageSize : Nat
  rowSize : Nat
  slots : Nat
  deriving Repr, DecidableEq

namespace Layout

/-- The bytes that hold one bit for each of `slots` slots. -/
def headerBytes (slots : Nat) : Nat := (slots + 7) / 8

/-- Whether the bits and the rows of `slots` slots stay inside the page. -/
def fits (pageSize rowSize slots : Nat) : Bool := headerBytes slots + slots * rowSize ≤ pageSize

/-- The most slots at or below `slots` that fit. -/
def lower (pageSize rowSize : Nat) : Nat → Nat
  | 0 => 0
  | slots + 1 => if fits pageSize rowSize (slots + 1) then slots + 1 else lower pageSize rowSize slots

/-- The most slots that a page may have, since a slot's number takes two bytes. -/
def maxSlots : Nat := 65535

/-- As many slots as a page has room for. A slot costs its row and one bit. -/
def of (pageSize rowSize : Nat) : Layout :=
  let bound := min (pageSize * 8 / (rowSize * 8 + 1)) maxSlots
  { pageSize, rowSize, slots := lower pageSize rowSize bound }

def headerLength (l : Layout) : Nat := headerBytes l.slots

/-- Where a slot's row begins. -/
def offset (l : Layout) (slot : Nat) : Nat := l.headerLength + slot * l.rowSize

/-! ## Words

The sizes of a machine have 64 bits, and what goes beyond is lost. This is `of` in its words. Within the bounds
it comes to the same. -/

/-- `fits` as a machine finds it out. -/
def fitsWord (pageSize rowSize slots : UInt64) : Bool := (slots + 7) / 8 + slots * rowSize ≤ pageSize

/-- `lower` as a machine finds it out. -/
def lowerWord (pageSize rowSize : UInt64) : Nat → Nat
  | 0 => 0
  | slots + 1 =>
    if fitsWord pageSize rowSize (.ofNat (slots + 1)) then slots + 1 else lowerWord pageSize rowSize slots

/-- The number of slots with which a machine begins. -/
def estimateWord (pageSize rowSize : UInt64) : UInt64 := min (pageSize * 8 / (rowSize * 8 + 1)) 65535

def ofWords (pageSize rowSize : UInt64) : Layout where
  pageSize := pageSize.toNat
  rowSize := rowSize.toNat
  slots := lowerWord pageSize rowSize (estimateWord pageSize rowSize).toNat

/-- The bits of a page, and what a slot costs, can be counted with 64 bits. -/
structure InWords (pageSize rowSize : Nat) : Prop where
  page : pageSize * 8 < 0x10000000000000000
  row : rowSize * 8 + 1 < 0x10000000000000000

/-! ## Laws -/

theorem lower_le (pageSize rowSize slots : Nat) : lower pageSize rowSize slots ≤ slots := by
  induction slots with
  | zero => simp [lower]
  | succ n ih =>
    unfold lower
    split
    · exact Nat.le_refl _
    · omega

theorem fits_lower (pageSize rowSize slots : Nat) :
    fits pageSize rowSize (lower pageSize rowSize slots) = true := by
  induction slots with
  | zero => simp [lower, fits, headerBytes]
  | succ n ih =>
    unfold lower
    split
    · assumption
    · exact ih

end Layout

end PageStore
