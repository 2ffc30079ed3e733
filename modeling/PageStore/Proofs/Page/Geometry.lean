-- How many slots a page has and where they stand. A slot costs the bits of its row and one
-- more. Slots fit into a page, with their bits rounded up to whole bytes, exactly if what they
-- cost does, so the first estimate is right and no slot is ever taken away from it.
import Mathlib.Algebra.Order.Floor.Div
import Mathlib.GroupTheory.GroupAction.Ring
import Mathlib.Order.Interval.Finset.Nat
import PageStore.Page.Layout

namespace PageStore.Layout

/-! ## How many slots fit -/

variable {pageSize rowSize slots : Nat}

/-- The slots that a page can pay for, if there may be so many. -/
def estimate (pageSize rowSize : Nat) : Nat := min (pageSize * 8 / (rowSize * 8 + 1)) maxSlots

theorem slots_of (pageSize rowSize : Nat) :
    (of pageSize rowSize).slots = lower pageSize rowSize (estimate pageSize rowSize) := rfl

theorem headerBytes_eq_ceilDiv (n : Nat) : headerBytes n = n ⌈/⌉ 8 := rfl

theorem fits_iff : fits pageSize rowSize slots = true ↔ headerBytes slots + slots * rowSize ≤ pageSize := by
  rw [fits, decide_eq_true_iff]

/-- The rows and the page are whole bytes, so nothing is lost when the bits are rounded up to bytes. -/
theorem fits_iff_le_div : fits pageSize rowSize slots = true ↔ slots ≤ pageSize * 8 / (rowSize * 8 + 1) := by
  have hcost : slots * (rowSize * 8 + 1) = slots * rowSize * 8 + slots := by
    rw [Nat.mul_succ, Nat.mul_assoc]
  rw [fits_iff, Nat.le_div_iff_mul_le (Nat.succ_pos _), hcost, headerBytes]
  omega

theorem lower_of_fits (h : fits pageSize rowSize slots = true) : lower pageSize rowSize slots = slots := by
  cases slots with
  | zero => rfl
  | succ n => rw [lower, if_pos h]

/-- The estimate is never lowered. -/
theorem lower_estimate (pageSize rowSize : Nat) :
    lower pageSize rowSize (estimate pageSize rowSize) = estimate pageSize rowSize :=
  lower_of_fits (fits_iff_le_div.mpr (Nat.min_le_left ..))

theorem slots_eq_estimate (pageSize rowSize : Nat) : (of pageSize rowSize).slots = estimate pageSize rowSize := by
  rw [slots_of, lower_estimate]

/-- What a page may have and has room for is what it has, or less. -/
theorem fits_iff_le_slots :
    slots ≤ maxSlots ∧ fits pageSize rowSize slots = true ↔ slots ≤ (of pageSize rowSize).slots := by
  rw [fits_iff_le_div, slots_eq_estimate, estimate, le_min_iff, and_comm]

theorem isGreatest_slots (pageSize rowSize : Nat) :
    IsGreatest {n | n ≤ maxSlots ∧ fits pageSize rowSize n = true} (of pageSize rowSize).slots :=
  ⟨fits_iff_le_slots.mpr (Nat.le_refl _), fun _ h => fits_iff_le_slots.mp h⟩

/-! ## In words -/

section Words

variable {pageSize rowSize : UInt64} (h : InWords pageSize.toNat rowSize.toNat)

include h

/-- Numbers of 64 bits are enough for the estimate, if the bits of the page and what a slot costs can be
counted in them. -/
theorem slots_of_words : (estimateWord pageSize rowSize).toNat = (of pageSize.toNat rowSize.toNat).slots := by
  have hbits : (pageSize * 8).toNat = pageSize.toNat * 8 := Nat.mod_eq_of_lt h.page
  have hwide : (rowSize * 8).toNat = rowSize.toNat * 8 := Nat.mod_eq_of_lt (Nat.lt_of_succ_lt h.row)
  have hcost : (rowSize * 8 + 1).toNat = rowSize.toNat * 8 + 1 := by
    rw [UInt64.toNat_add, hwide]
    exact Nat.mod_eq_of_lt h.row
  have hmin (a b : UInt64) : (min a b).toNat = min a.toNat b.toNat := by
    rw [Nat.min_def]
    exact apply_ite UInt64.toNat (a ≤ b) a b
  rw [slots_eq_estimate, estimate, estimateWord, hmin, UInt64.toNat_div, hbits, hcost]
  rfl

/-- The test of slots that fit makes no number above the size of the page. -/
theorem fitsWord_of_fits {slots : Nat} (hmax : slots ≤ maxSlots)
    (hfits : fits pageSize.toNat rowSize.toNat slots = true) : fitsWord pageSize rowSize (.ofNat slots) = true := by
  have hroom := fits_iff.mp hfits
  have hpage := h.page
  unfold maxSlots at hmax
  unfold headerBytes at hroom
  have hslots : (UInt64.ofNat slots).toNat = slots := Nat.mod_eq_of_lt (by omega)
  have hheader : ((UInt64.ofNat slots + 7) / 8).toNat = (slots + 7) / 8 := by
    rw [UInt64.toNat_div, UInt64.toNat_add, hslots]
    exact congrArg (· / 8) (Nat.mod_eq_of_lt (show slots + 7 < 2 ^ 64 by omega))
  have hrows : (UInt64.ofNat slots * rowSize).toNat = slots * rowSize.toNat := by
    rw [UInt64.toNat_mul, hslots]
    exact Nat.mod_eq_of_lt (by omega)
  rw [fitsWord, decide_eq_true_iff, UInt64.le_iff_toNat_le, UInt64.toNat_add, hheader, hrows]
  rw [Nat.mod_eq_of_lt (by omega)]
  exact hroom

/-- The first test says that all slots of the estimate fit. -/
theorem lowerWord_estimateWord : lowerWord pageSize rowSize (estimateWord pageSize rowSize).toNat =
    (estimateWord pageSize rowSize).toNat := by
  rw [slots_of_words h]
  obtain ⟨hmax, hfits⟩ := (isGreatest_slots pageSize.toNat rowSize.toNat).1
  have hword := fitsWord_of_fits h hmax hfits
  cases hslots : (of pageSize.toNat rowSize.toNat).slots with
  | zero => rfl
  | succ n =>
    rw [hslots] at hword
    rw [lowerWord, if_pos hword]

/-- A machine finds the same layout. -/
theorem ofWords_eq : ofWords pageSize rowSize = of pageSize.toNat rowSize.toNat := by
  rw [ofWords, lowerWord_estimateWord h, slots_of_words h]
  rfl

end Words

/-! ## Where they stand -/

section Ranges

/-- The bytes of the page that hold the bits. -/
def headerRange (l : Layout) : Finset Nat := Finset.range l.headerLength

/-- The bytes of the page that hold the row of a slot. -/
def rowRange (l : Layout) (slot : Nat) : Finset Nat := Finset.Ico (l.offset slot) (l.offset slot + l.rowSize)

variable {l : Layout} {slot other : Nat}

/-- A row ends before the next one begins. -/
theorem offset_add_le_offset (h : slot < other) : l.offset slot + l.rowSize ≤ l.offset other := by
  have hnext : (slot + 1) * l.rowSize ≤ other * l.rowSize := Nat.mul_le_mul_right _ h
  rw [Nat.succ_mul] at hnext
  unfold offset
  omega

theorem disjoint_headerRange (slot : Nat) : Disjoint l.headerRange (l.rowRange slot) := by
  rw [Finset.disjoint_left]
  intro i hheader hrow
  rw [headerRange, Finset.mem_range] at hheader
  rw [rowRange, Finset.mem_Ico, offset] at hrow
  omega

theorem disjoint_rowRange (h : slot ≠ other) : Disjoint (l.rowRange slot) (l.rowRange other) := by
  rw [Finset.disjoint_left]
  intro i hslot hother
  rw [rowRange, Finset.mem_Ico] at hslot hother
  rcases Nat.lt_or_gt_of_ne h with hlt | hlt
  · have := offset_add_le_offset (l := l) hlt
    omega
  · have := offset_add_le_offset (l := l) hlt
    omega

theorem rowRange_subset (h : slot < (of pageSize rowSize).slots) :
    (of pageSize rowSize).rowRange slot ⊆ Finset.range pageSize := by
  have hroom := fits_iff.mp (isGreatest_slots pageSize rowSize).1.2
  have hrows : (slot + 1) * rowSize ≤ (of pageSize rowSize).slots * rowSize := Nat.mul_le_mul_right _ h
  rw [Nat.succ_mul] at hrows
  intro i hi
  have hend : i < headerBytes (of pageSize rowSize).slots + slot * rowSize + rowSize := (Finset.mem_Ico.mp hi).2
  exact Finset.mem_range.mpr (by omega)

end Ranges

/-- The bits of a page of 2 ^ 61 bytes are too many for a machine, which finds no slot at all. -/
example : (ofWords 0x2000000000000000 7).slots = 0 ∧ (of 0x2000000000000000 7).slots = 65535 := by
  refine ⟨by decide, ?_⟩
  rw [slots_eq_estimate]
  decide

/-- Rows of no bytes cost a bit each. There is room for one more than a page may have. -/
example : (of 8192 0).slots = 65535 ∧ fits 8192 0 65536 = true := by decide +kernel

end PageStore.Layout
