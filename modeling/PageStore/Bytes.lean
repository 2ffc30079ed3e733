-- Byte strings and the two ways in which whole numbers are written as bytes.

namespace PageStore

abbrev Bytes := List UInt8

namespace Bytes

/-- `n` zero bytes. -/
def zeros (n : Nat) : Bytes := List.replicate n 0

/-- Cut or padded with zero bytes to exactly `n` bytes. -/
def fit (n : Nat) (bs : Bytes) : Bytes := bs.take n ++ zeros (n - bs.length)

/-! ## Numbers -/

/-- The low `width` base-256 digits of a number, least first. -/
def littleEndian : Nat → Nat → Bytes
  | 0, _ => []
  | width + 1, n => UInt8.ofNat (n % 256) :: littleEndian width (n / 256)

/-- The number whose base-256 digits these are, least first. -/
def ofLittleEndian : Bytes → Nat
  | [] => 0
  | b :: rest => b.toNat + 256 * ofLittleEndian rest

/-- The low `width` base-256 digits of a number, greatest first. -/
def bigEndian (width n : Nat) : Bytes := (littleEndian width n).reverse

def ofBigEndian (bs : Bytes) : Nat := ofLittleEndian bs.reverse

/-! ## Bits -/

/-- The eight bits of a byte, least first. -/
def bitsOfByte (b : UInt8) : List Bool := (List.range 8).map fun i => b.toNat.testBit i

def bits (bs : Bytes) : List Bool := bs.flatMap bitsOfByte

/-- The number whose binary digits these are, least first. -/
def numberOfBits : List Bool → Nat
  | [] => 0
  | b :: rest => b.toNat + 2 * numberOfBits rest

/-- `n` bytes that hold these bits, eight a byte, the first in the lowest place. -/
def ofBits : Nat → List Bool → Bytes
  | 0, _ => []
  | n + 1, flags => UInt8.ofNat (numberOfBits (flags.take 8)) :: ofBits n (flags.drop 8)

/-! ## Laws -/

@[simp] theorem length_zeros (n : Nat) : (zeros n).length = n := by simp [zeros]

@[simp] theorem length_littleEndian (width n : Nat) : (littleEndian width n).length = width := by
  induction width generalizing n with
  | zero => rfl
  | succ w ih => simp [littleEndian, ih]

@[simp] theorem length_bigEndian (width n : Nat) : (bigEndian width n).length = width := by
  simp [bigEndian]

theorem ofLittleEndian_littleEndian (width n : Nat) :
    ofLittleEndian (littleEndian width n) = n % Nat.pow 256 width := by
  induction width generalizing n with
  | zero => exact (Nat.mod_one n).symm
  | succ w ih =>
    have hbyte : (UInt8.ofNat (n % 256)).toNat = n % 256 := by
      simp
    have hpow : Nat.pow 256 (w + 1) = 256 * Nat.pow 256 w := Nat.mul_comm _ _
    simp only [littleEndian, ofLittleEndian, ih]
    rw [hbyte, hpow, Nat.mod_mul]

theorem ofLittleEndian_lt (bs : Bytes) : ofLittleEndian bs < Nat.pow 256 bs.length := by
  induction bs with
  | nil => exact Nat.zero_lt_one
  | cons b rest ih =>
    have hb : b.toNat < 256 := b.toNat_lt
    have hpow : Nat.pow 256 (rest.length + 1) = Nat.pow 256 rest.length * 256 := rfl
    rw [ofLittleEndian, List.length_cons, hpow]
    omega

theorem littleEndian_ofLittleEndian (bs : Bytes) : littleEndian bs.length (ofLittleEndian bs) = bs := by
  induction bs with
  | nil => rfl
  | cons b rest ih =>
    have hb : b.toNat < 256 := b.toNat_lt
    have hdigit : (b.toNat + 256 * ofLittleEndian rest) % 256 = b.toNat := by omega
    have hrest : (b.toNat + 256 * ofLittleEndian rest) / 256 = ofLittleEndian rest := by omega
    rw [List.length_cons, ofLittleEndian, littleEndian, hdigit, hrest, ih, UInt8.ofNat_toNat]

theorem ofBigEndian_bigEndian {width n : Nat} (h : n < Nat.pow 256 width) :
    ofBigEndian (bigEndian width n) = n := by
  rw [ofBigEndian, bigEndian, List.reverse_reverse, ofLittleEndian_littleEndian, Nat.mod_eq_of_lt h]

@[simp] theorem length_fit (n : Nat) (bs : Bytes) : (fit n bs).length = n := by
  simp only [fit, List.length_append, List.length_take, length_zeros]
  omega

theorem fit_of_length {n : Nat} {bs : Bytes} (h : bs.length = n) : fit n bs = bs := by
  subst h
  simp [fit, zeros]

@[simp] theorem length_bitsOfByte (b : UInt8) : (bitsOfByte b).length = 8 := by simp [bitsOfByte]

@[simp] theorem length_bits (bs : Bytes) : (bits bs).length = 8 * bs.length := by
  induction bs with
  | nil => rfl
  | cons b rest ih =>
    simp only [bits, List.flatMap_cons, List.length_append, length_bitsOfByte, List.length_cons] at ih ⊢
    omega

@[simp] theorem length_ofBits (n : Nat) (flags : List Bool) : (ofBits n flags).length = n := by
  induction n generalizing flags with
  | zero => rfl
  | succ n ih => simp [ofBits, ih]

theorem testBit_numberOfBits (flags : List Bool) (i : Nat) :
    (numberOfBits flags).testBit i = (flags[i]?).getD false := by
  induction flags generalizing i with
  | nil => simp [numberOfBits]
  | cons b rest ih =>
    cases i with
    | zero => cases b <;> simp [numberOfBits, Nat.testBit_zero]
    | succ i =>
      rw [Nat.testBit_succ]
      have hb : b.toNat ≤ 1 := Bool.toNat_le b
      have h : (b.toNat + 2 * numberOfBits rest) / 2 = numberOfBits rest := by omega
      simp [numberOfBits, h, ih]

theorem numberOfBits_lt (flags : List Bool) : numberOfBits flags < Nat.pow 2 flags.length := by
  induction flags with
  | nil => exact Nat.zero_lt_one
  | cons b rest ih =>
    have hb : b.toNat ≤ 1 := Bool.toNat_le b
    have hpow : Nat.pow 2 (rest.length + 1) = Nat.pow 2 rest.length * 2 := rfl
    rw [numberOfBits, List.length_cons, hpow]
    omega

theorem bitsOfByte_ofNat {flags : List Bool} (h : flags.length = 8) :
    bitsOfByte (UInt8.ofNat (numberOfBits flags)) = flags := by
  have hlt : numberOfBits flags < 256 := by
    have := numberOfBits_lt flags
    rw [h] at this
    exact this
  have hto : (UInt8.ofNat (numberOfBits flags)).toNat = numberOfBits flags := by
    simp [Nat.mod_eq_of_lt hlt]
  apply List.ext_getElem
  · simp [h]
  · intro i h₁ h₂
    simp [bitsOfByte, hto, testBit_numberOfBits, h₂]

theorem bits_ofBits {n : Nat} {flags : List Bool} (h : flags.length = 8 * n) :
    bits (ofBits n flags) = flags := by
  induction n generalizing flags with
  | zero =>
    have : flags = [] := List.length_eq_zero_iff.mp (by omega)
    subst this
    rfl
  | succ n ih =>
    have htake : (flags.take 8).length = 8 := by rw [List.length_take]; omega
    have hdrop : (flags.drop 8).length = 8 * n := by rw [List.length_drop]; omega
    have := ih hdrop
    simp only [bits] at this
    simp only [bits, ofBits, List.flatMap_cons, bitsOfByte_ofNat htake, this, List.take_append_drop]

theorem ofNat_numberOfBits_bitsOfByte (b : UInt8) : UInt8.ofNat (numberOfBits (bitsOfByte b)) = b := by
  apply UInt8.toNat_inj.mp
  have hlt : numberOfBits (bitsOfByte b) < 256 := by
    have := numberOfBits_lt (bitsOfByte b)
    rw [length_bitsOfByte] at this
    exact this
  have hto : (UInt8.ofNat (numberOfBits (bitsOfByte b))).toNat = numberOfBits (bitsOfByte b) := by
    simp [Nat.mod_eq_of_lt hlt]
  rw [hto]
  apply Nat.eq_of_testBit_eq
  intro i
  rw [testBit_numberOfBits]
  by_cases hi : i < 8
  · simp [bitsOfByte, hi]
  · have hb : b.toNat < 2 ^ i := by
      have := b.toNat_lt
      calc b.toNat < 2 ^ 8 := this
        _ ≤ 2 ^ i := Nat.pow_le_pow_right (by omega) (by omega)
    have hnone : (bitsOfByte b)[i]? = none := by
      rw [List.getElem?_eq_none_iff, length_bitsOfByte]
      omega
    rw [hnone, Nat.testBit_lt_two_pow hb]
    rfl

theorem ofBits_bits (bs : Bytes) : ofBits bs.length (bits bs) = bs := by
  induction bs with
  | nil => rfl
  | cons b rest ih =>
    have htake : (bitsOfByte b ++ bits rest).take 8 = bitsOfByte b := by
      rw [List.take_append_of_le_length (by simp)]
      exact List.take_of_length_le (by simp)
    have hdrop : (bitsOfByte b ++ bits rest).drop 8 = bits rest := by
      rw [List.drop_append_of_le_length (by simp)]
      simp [List.drop_of_length_le]
    have hbits : bits (b :: rest) = bitsOfByte b ++ bits rest := by simp [bits]
    simp only [List.length_cons, ofBits, hbits, htake, hdrop, ofNat_numberOfBits_bitsOfByte, ih]

end Bytes

end PageStore
