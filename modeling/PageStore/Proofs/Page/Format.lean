-- The format of a page, byte by byte: which byte strings are a page, which of
-- their bytes its rows come from, and what is left of them when the page is
-- written again. A byte from which nothing is read may be anything before and is
-- zero after.
import PageStore.Proofs.Page.Codec

namespace PageStore

/-! ## Numbers and bits -/

namespace Bytes

/-- Bit `i` of a byte string, eight to a byte, the lowest of a byte first. -/
def bitAt (bs : Bytes) (i : Nat) : Bool := ((bs[i / 8]?).getD 0).toNat.testBit (i % 8)

theorem bigEndian_ofBigEndian {n : Nat} {bs : Bytes} (h : bs.length = n) :
    bigEndian n (ofBigEndian bs) = bs := by
  have hrev := littleEndian_ofLittleEndian bs.reverse
  rw [List.length_reverse, h] at hrev
  rw [bigEndian, ofBigEndian, hrev, List.reverse_reverse]

theorem ofBigEndian_lt {n : Nat} {bs : Bytes} (h : bs.length = n) : ofBigEndian bs < Nat.pow 256 n := by
  have hlt := ofLittleEndian_lt bs.reverse
  rwa [List.length_reverse, h] at hlt

theorem getElem?_bits {bs : Bytes} {i : Nat} (h : i < 8 * bs.length) :
    (bits bs)[i]? = some (bs.bitAt i) := by
  induction bs generalizing i with
  | nil => simp at h
  | cons b rest ih =>
    have hbits : bits (b :: rest) = bitsOfByte b ++ bits rest := by simp [bits]
    rw [hbits]
    by_cases hi : i < 8
    · rw [List.getElem?_append_left (by simpa using hi)]
      simp [bitsOfByte, bitAt, hi, Nat.div_eq_of_lt hi, Nat.mod_eq_of_lt hi]
    · rw [List.getElem?_append_right (by simpa using Nat.le_of_not_lt hi), length_bitsOfByte,
        ih (by rw [List.length_cons] at h; omega)]
      have hdiv : i / 8 = (i - 8) / 8 + 1 := by omega
      have hmod : i % 8 = (i - 8) % 8 := by omega
      simp [bitAt, hdiv, hmod]

/-! ## Bytes that count -/

/-- `out` has the bytes of `bs` that count, and zeros for all others. -/
structure Blanked (counts : Nat → Prop) (bs out : Bytes) : Prop where
  length : out.length = bs.length
  kept : ∀ i, counts i → out[i]? = bs[i]?
  zero : ∀ i < bs.length, ¬ counts i → out[i]? = some 0

theorem Blanked.append {front back : Nat → Prop} {bs bs' out out' : Bytes} (counts : Nat → Prop)
    (h : Blanked front bs out) (h' : Blanked back bs' out')
    (hleft : ∀ i < bs.length, counts i ↔ front i)
    (hright : ∀ i, counts (bs.length + i) ↔ back i) :
    Blanked counts (bs ++ bs') (out ++ out') := by
  refine ⟨by simp [h.length, h'.length], ?_, ?_⟩
  · intro i hi
    by_cases hlt : i < bs.length
    · rw [List.getElem?_append_left (h.length ▸ hlt), List.getElem?_append_left hlt]
      exact h.kept i ((hleft i hlt).mp hi)
    · obtain ⟨k, rfl⟩ := Nat.exists_eq_add_of_le (Nat.le_of_not_lt hlt)
      rw [List.getElem?_append_right (by rw [h.length]; omega), List.getElem?_append_right (by omega),
        h.length, Nat.add_sub_cancel_left]
      exact h'.kept k ((hright k).mp hi)
  · intro i hlen hi
    by_cases hlt : i < bs.length
    · rw [List.getElem?_append_left (h.length ▸ hlt)]
      exact h.zero i hlt fun hc => hi ((hleft i hlt).mpr hc)
    · obtain ⟨k, rfl⟩ := Nat.exists_eq_add_of_le (Nat.le_of_not_lt hlt)
      rw [List.getElem?_append_right (by rw [h.length]; omega), h.length, Nat.add_sub_cancel_left]
      rw [List.length_append] at hlen
      exact h'.zero k (by omega) fun hc => hi ((hright k).mpr hc)

theorem blanked_nil (counts : Nat → Prop) : Blanked counts [] [] :=
  ⟨rfl, fun _ _ => rfl, fun i hi => absurd hi (Nat.not_lt_zero i)⟩

theorem blanked_all (bs : Bytes) : Blanked (fun _ => True) bs bs :=
  ⟨rfl, fun _ _ => rfl, fun _ _ h => absurd trivial h⟩

theorem blanked_none {bs : Bytes} {n : Nat} (h : bs.length = n) : Blanked (fun _ => False) bs (zeros n) := by
  refine ⟨by simp [h], fun i hi => hi.elim, fun i hi _ => ?_⟩
  simp [zeros, ← h, hi]

end Bytes

/-! ## Values -/

namespace Field

/-- The length that the bytes of a string claim in front. -/
def claimedLength (bs : Bytes) : Nat := Bytes.ofBigEndian (bs.take 4)

/-- Bytes that begin with a value of the type: any number, but only a string that fits and is text. -/
def Legible : FieldType → Bytes → Prop
  | .int, _ => True
  | .str, bs => claimedLength bs ≤ maxStringBytes ∧
      ∃ s, Utf8.encode s = (bs.drop 4).take (claimedLength bs)

/-- From how many of its bytes a value is read. Behind them a string has its padding. -/
def usedBytes : FieldType → Bytes → Nat
  | .int, _ => 4
  | .str, bs => 4 + min (claimedLength bs) maxStringBytes

theorem usedBytes_le_width (t : FieldType) (bs : Bytes) : usedBytes t bs ≤ t.width := by
  cases t <;> simp only [usedBytes, FieldType.width] <;> omega

/-- The value at the front of bytes that do not end before it does. -/
def value : FieldType → Bytes → Except Unreadable Field
  | .int, bs => .ok (.int (UInt32.ofNat (Bytes.ofBigEndian (bs.take 4))).toInt32)
  | .str, bs =>
    if maxStringBytes < claimedLength bs then .error (.length (claimedLength bs))
    else match Utf8.decode ((bs.drop 4).take (claimedLength bs)) with
      | .ok s => .ok (.str s)
      | .error fault => .error (.text fault)

theorem decode_eq_value {t : FieldType} {bs : Bytes} (h : t.width ≤ bs.length) :
    decode t bs = (value t bs).map fun f => (f, bs.drop t.width) := by
  cases t with
  | int =>
    have hlen : ¬ bs.length < 4 := Nat.not_lt.mpr h
    simp [decode, takeExactly, hlen, bind, Except.bind, value, Except.map, FieldType.width]
  | str =>
    have hwide : 4 + maxStringBytes ≤ bs.length := h
    have hlen : ¬ bs.length < 4 := by omega
    have hroom : ¬ (bs.drop 4).length < maxStringBytes := by rw [List.length_drop]; omega
    simp only [decode, takeExactly, hlen, hroom, if_false, bind, Except.bind, List.drop_drop,
      FieldType.width, List.take_take]
    by_cases hle : claimedLength bs ≤ maxStringBytes
    · rw [show Bytes.ofBigEndian (bs.take 4) = claimedLength bs from rfl, Nat.min_eq_left hle]
      cases hs : Utf8.decode ((bs.drop 4).take (claimedLength bs)) <;>
        simp [value, Nat.not_lt.mpr hle, hs, Except.map]
    · have hlong := Nat.lt_of_not_le hle
      simp only [value, claimedLength] at hlong ⊢
      simp [hlong, Except.map]

theorem value_ok_iff (t : FieldType) (bs : Bytes) : (∃ f, value t bs = .ok f) ↔ Legible t bs := by
  cases t with
  | int => simp [value, Legible]
  | str =>
    simp only [value, Legible]
    split
    · rename_i hlong
      constructor
      · rintro ⟨f, ⟨⟩⟩
      · exact fun h => absurd h.1 (Nat.not_le.mpr hlong)
    · rename_i hle
      constructor
      · rintro ⟨f, hf⟩
        split at hf
        · rename_i s hs
          exact ⟨Nat.le_of_not_lt hle, s, Utf8.encode_of_decode hs⟩
        · cases hf
      · rintro ⟨-, s, hs⟩
        rw [← hs, Utf8.decode_encode]
        exact ⟨_, rfl⟩

/-- A value depends on no more than the bytes it is read from. -/
theorem value_congr {t : FieldType} {bs bs' : Bytes}
    (h : bs'.take (usedBytes t bs) = bs.take (usedBytes t bs)) : value t bs' = value t bs := by
  have hfour : bs'.take 4 = bs.take 4 := by
    have hle : 4 ≤ usedBytes t bs := by cases t <;> simp only [usedBytes] <;> omega
    have := congrArg (List.take 4) h
    rwa [List.take_take, List.take_take, Nat.min_eq_left hle] at this
  cases t with
  | int => simp [value, hfour]
  | str =>
    have hclaim : claimedLength bs' = claimedLength bs := by rw [claimedLength, claimedLength, hfour]
    simp only [value, hclaim]
    split
    · rfl
    · rename_i hle
      have htext : (bs'.drop 4).take (claimedLength bs) = (bs.drop 4).take (claimedLength bs) := by
        have := congrArg (List.drop 4) h
        rwa [usedBytes, Nat.min_eq_left (Nat.le_of_not_lt hle), List.drop_take, List.drop_take,
          Nat.add_sub_cancel_left] at this
      rw [htext]

/-- What was read is written as the same bytes, with zeros for the padding. -/
theorem encode_of_value {t : FieldType} {bs : Bytes} {f : Field} (hlen : t.width ≤ bs.length)
    (h : value t bs = .ok f) :
    f.encode = .ok (bs.take (usedBytes t bs) ++ Bytes.zeros (t.width - usedBytes t bs)) := by
  cases t with
  | int =>
    have hfour : (bs.take 4).length = 4 := by
      rw [List.length_take]
      exact Nat.min_eq_left hlen
    have hnumber : (UInt32.ofNat (Bytes.ofBigEndian (bs.take 4))).toInt32.toUInt32.toNat =
        Bytes.ofBigEndian (bs.take 4) := by
      rw [UInt32.toUInt32_toInt32]
      exact UInt32.toNat_ofNat_of_lt' (Bytes.ofBigEndian_lt hfour)
    cases h
    rw [encode, hnumber, Bytes.bigEndian_ofBigEndian hfour]
    simp [usedBytes, FieldType.width, Bytes.zeros]
  | str =>
    have hwide : 4 + maxStringBytes ≤ bs.length := hlen
    have hfour : (bs.take 4).length = 4 := by rw [List.length_take]; omega
    simp only [value] at h
    split at h
    · cases h
    · rename_i hle
      have hle := Nat.le_of_not_lt hle
      split at h
      · rename_i s hs
        cases h
        have htext := Utf8.encode_of_decode hs
        have hcount : ((bs.drop 4).take (claimedLength bs)).length = claimedLength bs := by
          rw [List.length_take, List.length_drop]; omega
        have hfront : Bytes.bigEndian 4 (claimedLength bs) = bs.take 4 :=
          Bytes.bigEndian_ofBigEndian hfour
        have hfit : ((bs.drop 4).take (claimedLength bs)).take maxStringBytes =
            (bs.drop 4).take (claimedLength bs) := List.take_of_length_le (hcount.symm ▸ hle)
        simp only [encode, htext, hcount, Nat.not_lt.mpr hle, if_false, usedBytes, FieldType.width,
          Nat.min_eq_left hle, List.take_add, Bytes.fit, hfit, hfront, List.append_assoc,
          Nat.add_sub_add_left]
      · cases h

theorem blanked_of_value {t : FieldType} {bs : Bytes} {f : Field} (hlen : t.width ≤ bs.length)
    (h : value t bs = .ok f) :
    ∃ front, f.encode = .ok front ∧ Bytes.Blanked (· < usedBytes t bs) (bs.take t.width) front := by
  refine ⟨_, encode_of_value hlen h, ?_⟩
  have hle := usedBytes_le_width t bs
  have hsplit : bs.take t.width =
      bs.take (usedBytes t bs) ++ (bs.drop (usedBytes t bs)).take (t.width - usedBytes t bs) := by
    rw [← List.take_add, Nat.add_sub_cancel' hle]
  have hcount : (bs.take (usedBytes t bs)).length = usedBytes t bs := by
    rw [List.length_take]
    omega
  rw [hsplit]
  refine (Bytes.blanked_all _).append _ (Bytes.blanked_none ?_) ?_ ?_
  · rw [List.length_take, List.length_drop]
    omega
  · intro i hi
    simpa [hcount] using hi
  · intro i
    simp [hcount]

end Field

/-! ## Rows -/

namespace Row

/-- Where the bytes of a column begin in those of a row. -/
def columnStart (types : List FieldType) (c : Nat) : Nat := Schema.bytesOf (types.take c)

/-- Bytes that are a row: each column of them is a value. -/
def Legible (types : List FieldType) (bs : Bytes) : Prop :=
  ∀ c t, types[c]? = some t → Field.Legible t (bs.drop (columnStart types c))

/-- Byte `k` of a row is one that a value is read from. -/
def Counts (types : List FieldType) (bs : Bytes) (k : Nat) : Prop :=
  ∃ c t, types[c]? = some t ∧ columnStart types c ≤ k ∧
    k < columnStart types c + Field.usedBytes t (bs.drop (columnStart types c))

theorem columnStart_cons (t : FieldType) (types : List FieldType) (c : Nat) :
    columnStart (t :: types) (c + 1) = t.width + columnStart types c := rfl

variable {t : FieldType} {types : List FieldType} {bs bs' : Bytes} {k : Nat}

theorem legible_cons : Legible (t :: types) bs ↔ Field.Legible t bs ∧ Legible types (bs.drop t.width) := by
  constructor
  · intro h
    refine ⟨by simpa [columnStart, Schema.bytesOf] using h 0 t rfl, fun c t' hc => ?_⟩
    simpa [columnStart_cons, List.drop_drop] using h (c + 1) t' hc
  · rintro ⟨hhead, htail⟩ c t' hc
    cases c with
    | zero =>
      cases hc
      simpa [columnStart, Schema.bytesOf] using hhead
    | succ c => simpa [columnStart_cons, List.drop_drop] using htail c t' hc

theorem counts_head (hk : k < t.width) : Counts (t :: types) bs k ↔ k < Field.usedBytes t bs := by
  constructor
  · rintro ⟨c, t', hc, hle, hlt⟩
    cases c with
    | zero =>
      cases hc
      simpa [columnStart, Schema.bytesOf] using hlt
    | succ c =>
      rw [columnStart_cons] at hle
      omega
  · exact fun h => ⟨0, t, rfl, Nat.zero_le _, by simpa [columnStart, Schema.bytesOf] using h⟩

theorem counts_tail : Counts (t :: types) bs (t.width + k) ↔ Counts types (bs.drop t.width) k := by
  constructor
  · rintro ⟨c, t', hc, hle, hlt⟩
    cases c with
    | zero =>
      cases hc
      have hlt : t.width + k < Field.usedBytes t bs := by
        simpa [columnStart, Schema.bytesOf] using hlt
      have := Field.usedBytes_le_width t bs
      omega
    | succ c =>
      rw [columnStart_cons] at hle hlt
      rw [← List.drop_drop] at hlt
      exact ⟨c, t', hc, by omega, by omega⟩
  · rintro ⟨c, t', hc, hle, hlt⟩
    refine ⟨c + 1, t', hc, ?_, ?_⟩ <;> rw [columnStart_cons]
    · omega
    · rw [← List.drop_drop]
      omega

theorem lt_of_counts (h : Counts types bs k) : k < Schema.bytesOf types := by
  induction types generalizing bs k with
  | nil =>
    obtain ⟨c, t, hc, -⟩ := h
    cases hc
  | cons t types ih =>
    rw [Schema.bytesOf]
    by_cases hk : k < t.width
    · omega
    · obtain ⟨k, rfl⟩ := Nat.exists_eq_add_of_le (Nat.le_of_not_lt hk)
      have := ih (counts_tail.mp h)
      omega

theorem decodeFields_cons (h : t.width ≤ bs.length) : decodeFields (t :: types) bs =
    match Field.value t bs with
    | .error fault => .error (.ofField fault)
    | .ok f => (decodeFields types (bs.drop t.width)).map fun r => (f :: r.1, r.2) := by
  rw [decodeFields, Field.decode_eq_value h]
  cases Field.value t bs <;> rfl

theorem decodeFields_ok_iff (h : bs.length = Schema.bytesOf types) :
    (∃ r, decodeFields types bs = .ok r) ↔ Legible types bs := by
  induction types generalizing bs with
  | nil => simp [decodeFields, Legible]
  | cons t types ih =>
    rw [Schema.bytesOf] at h
    rw [legible_cons, ← Field.value_ok_iff, ← ih (by rw [List.length_drop]; omega),
      decodeFields_cons (by omega)]
    cases Field.value t bs with
    | error e => simp
    | ok f => cases decodeFields types (bs.drop t.width) <;> simp [Except.map]

/-- The values of a row depend on no more than the bytes they are read from. -/
theorem decodeFields_congr (h : bs.length = Schema.bytesOf types) (hlen : bs'.length = bs.length)
    (agree : ∀ k, Counts types bs k → bs'[k]? = bs[k]?) :
    (decodeFields types bs').map Prod.fst = (decodeFields types bs).map Prod.fst := by
  induction types generalizing bs bs' with
  | nil => rfl
  | cons t types ih =>
    rw [Schema.bytesOf] at h
    have hvalue : Field.value t bs' = Field.value t bs := by
      apply Field.value_congr
      apply List.ext_getElem?
      intro k
      rw [List.getElem?_take, List.getElem?_take]
      split
      · rename_i hk
        exact agree k ((counts_head (Nat.lt_of_lt_of_le hk (Field.usedBytes_le_width t bs))).mpr hk)
      · rfl
    have hrest := @ih (bs.drop t.width) (bs'.drop t.width) (by rw [List.length_drop]; omega)
      (by rw [List.length_drop, List.length_drop, hlen]) fun k hk => by
        rw [List.getElem?_drop, List.getElem?_drop]
        exact agree _ (counts_tail.mpr hk)
    rw [decodeFields_cons (by omega), decodeFields_cons (by omega), hvalue]
    cases Field.value t bs with
    | error e => rfl
    | ok f =>
      cases hr : decodeFields types (bs.drop t.width) <;>
        cases hr' : decodeFields types (bs'.drop t.width) <;> simp_all [Except.map]

/-- What was read is written as the same bytes, with zeros for those it was not read from. -/
theorem blanked_of_decodeFields {fields : List Field} {rest : Bytes}
    (h : bs.length = Schema.bytesOf types) (hread : decodeFields types bs = .ok (fields, rest)) :
    ∃ out, encodeFields fields = .ok out ∧ Bytes.Blanked (Counts types bs) bs out := by
  induction types generalizing bs fields with
  | nil =>
    cases hread
    rw [List.length_eq_zero_iff.mp h]
    exact ⟨[], rfl, Bytes.blanked_nil _⟩
  | cons t types ih =>
    rw [Schema.bytesOf] at h
    rw [decodeFields_cons (by omega)] at hread
    split at hread
    · cases hread
    · rename_i f hf
      cases hr : decodeFields types (bs.drop t.width) with
      | error e => simp [hr, Except.map] at hread
      | ok r =>
        obtain ⟨others, left⟩ := r
        simp only [hr, Except.map, Except.ok.injEq, Prod.mk.injEq] at hread
        obtain ⟨rfl, rfl⟩ := hread
        obtain ⟨front, hfront, hhead⟩ := Field.blanked_of_value (by omega) hf
        obtain ⟨back, hback, htail⟩ := ih (by rw [List.length_drop]; omega) hr
        refine ⟨front ++ back, by simp [encodeFields, hfront, hback, Except.map], ?_⟩
        have hwidth : (bs.take t.width).length = t.width := by
          rw [List.length_take]
          omega
        have := hhead.append (Counts (t :: types) bs) htail
          (fun i hi => counts_head (hwidth ▸ hi)) (fun i => by rw [hwidth]; exact counts_tail)
        rwa [List.take_append_drop] at this

end Row

/-! ## Slots -/

namespace Page

/-- The bytes of slot `j`, where the slots begin at the front of `bs`. -/
def slotBytes (width : Nat) (bs : Bytes) (j : Nat) : Bytes := (bs.drop (j * width)).take width

/-- Byte `k` of the slots is one that a row is read from. -/
def SlotCounts (schema : Schema) (flags : List Bool) (bs : Bytes) (k : Nat) : Prop :=
  ∃ j i, flags[j]? = some true ∧ k = j * schema.byteSize + i ∧
    Row.Counts schema.types (slotBytes schema.byteSize bs j) i

variable {schema : Schema} {flag : Bool} {flags : List Bool} {bs bs' : Bytes} {k slot : Nat}

theorem slotBytes_zero (width : Nat) (bs : Bytes) : slotBytes width bs 0 = bs.take width := by
  simp [slotBytes]

theorem slotBytes_succ (width : Nat) (bs : Bytes) (j : Nat) :
    slotBytes width bs (j + 1) = slotBytes width (bs.drop width) j := by
  rw [slotBytes, slotBytes, List.drop_drop, Nat.succ_mul, Nat.add_comm]

theorem slotCounts_head (hk : k < schema.byteSize) : SlotCounts schema (flag :: flags) bs k ↔
    flag = true ∧ Row.Counts schema.types (bs.take schema.byteSize) k := by
  constructor
  · rintro ⟨j, i, hj, rfl, hi⟩
    cases j with
    | zero =>
      rw [slotBytes_zero] at hi
      exact ⟨by simpa using hj, by simpa using hi⟩
    | succ j =>
      rw [Nat.succ_mul] at hk
      omega
  · rintro ⟨rfl, hi⟩
    exact ⟨0, k, rfl, by simp, by rwa [slotBytes_zero]⟩

theorem slotCounts_tail : SlotCounts schema (flag :: flags) bs (schema.byteSize + k) ↔
    SlotCounts schema flags (bs.drop schema.byteSize) k := by
  constructor
  · rintro ⟨j, i, hj, heq, hi⟩
    cases j with
    | zero =>
      have : i < schema.byteSize := Row.lt_of_counts hi
      omega
    | succ j =>
      rw [slotBytes_succ] at hi
      exact ⟨j, i, hj, by rw [Nat.succ_mul] at heq; omega, hi⟩
  · rintro ⟨j, i, hj, rfl, hi⟩
    rw [← slotBytes_succ] at hi
    exact ⟨j + 1, i, hj, by rw [Nat.succ_mul]; omega, hi⟩

theorem lt_of_slotCounts (h : SlotCounts schema flags bs k) : k < flags.length * schema.byteSize := by
  obtain ⟨j, i, hj, rfl, hi⟩ := h
  have hlt : j < flags.length := (List.getElem?_eq_some_iff.mp hj).1
  have hi : i < schema.byteSize := Row.lt_of_counts hi
  calc j * schema.byteSize + i < j * schema.byteSize + schema.byteSize := by omega
    _ = (j + 1) * schema.byteSize := (Nat.succ_mul ..).symm
    _ ≤ flags.length * schema.byteSize := Nat.mul_le_mul_right _ hlt

theorem length_take_byteSize (h : (flag :: flags).length * schema.byteSize ≤ bs.length) :
    (bs.take schema.byteSize).length = schema.byteSize ∧
      flags.length * schema.byteSize ≤ (bs.drop schema.byteSize).length := by
  rw [List.length_cons, Nat.succ_mul] at h
  rw [List.length_take, List.length_drop]
  omega

theorem decodeSlots_ok (slot : Nat) (hlen : flags.length * schema.byteSize ≤ bs.length)
    (h : ∀ j, flags[j]? = some true → Row.Legible schema.types (slotBytes schema.byteSize bs j)) :
    ∃ slots, decodeSlots schema schema.byteSize slot flags bs = .ok slots := by
  induction flags generalizing slot bs with
  | nil => exact ⟨[], rfl⟩
  | cons flag flags ih =>
    obtain ⟨hrow, hrest⟩ := length_take_byteSize hlen
    obtain ⟨slots, hslots⟩ := ih (slot + 1) hrest fun j hj =>
      slotBytes_succ _ bs j ▸ h (j + 1) hj
    cases flag with
    | false => exact ⟨none :: slots, by simp [decodeSlots, hslots, Except.map]⟩
    | true =>
      obtain ⟨⟨fields, left⟩, hfields⟩ :=
        (Row.decodeFields_ok_iff hrow).mpr (slotBytes_zero _ bs ▸ h 0 rfl)
      exact ⟨some fields :: slots, by simp [decodeSlots, hfields, hslots, Except.map]⟩

/-- Reading the slots stops at the first one in use that is no row. -/
theorem decodeSlots_error (slot : Nat) {j : Nat} (hlen : flags.length * schema.byteSize ≤ bs.length)
    (hj : flags[j]? = some true) (hbad : ¬ Row.Legible schema.types (slotBytes schema.byteSize bs j))
    (hfirst : ∀ i < j, flags[i]? = some true →
      Row.Legible schema.types (slotBytes schema.byteSize bs i)) :
    ∃ fault, decodeSlots schema schema.byteSize slot flags bs = .error (.slot (slot + j) fault) := by
  induction flags generalizing slot bs j with
  | nil => cases hj
  | cons flag flags ih =>
    obtain ⟨hrow, hrest⟩ := length_take_byteSize hlen
    cases j with
    | zero =>
      obtain rfl : flag = true := by simpa using hj
      rw [slotBytes_zero, ← Row.decodeFields_ok_iff hrow] at hbad
      cases hfields : Row.decodeFields schema.types (bs.take schema.byteSize) with
      | error fault => exact ⟨fault, by simp [decodeSlots, hfields]⟩
      | ok r => exact absurd ⟨r, hfields⟩ hbad
    | succ j =>
      obtain ⟨fault, hfault⟩ := ih (slot + 1) hrest hj (slotBytes_succ _ bs j ▸ hbad)
        fun i hi hflag => slotBytes_succ _ bs i ▸ hfirst (i + 1) (by omega) hflag
      rw [Nat.add_right_comm] at hfault
      refine ⟨fault, ?_⟩
      cases flag with
      | false => simpa [decodeSlots, hfault, Except.map] using Nat.add_assoc slot j 1
      | true =>
        obtain ⟨⟨fields, left⟩, hfields⟩ :=
          (Row.decodeFields_ok_iff hrow).mpr (slotBytes_zero _ bs ▸ hfirst 0 (by omega) rfl)
        simpa [decodeSlots, hfields, hfault, Except.map] using Nat.add_assoc slot j 1

/-- The slots depend on no more than the bytes that rows are read from. -/
theorem decodeSlots_congr (slot : Nat) (hlen : flags.length * schema.byteSize ≤ bs.length)
    (hsame : bs'.length = bs.length) (agree : ∀ k, SlotCounts schema flags bs k → bs'[k]? = bs[k]?) :
    decodeSlots schema schema.byteSize slot flags bs' =
      decodeSlots schema schema.byteSize slot flags bs := by
  induction flags generalizing slot bs bs' with
  | nil => rfl
  | cons flag flags ih =>
    obtain ⟨hrow, hrest⟩ := length_take_byteSize hlen
    have hslots := @ih (bs.drop schema.byteSize) (bs'.drop schema.byteSize) (slot + 1) hrest
      (by rw [List.length_drop, List.length_drop, hsame]) fun k hk => by
        rw [List.getElem?_drop, List.getElem?_drop]
        exact agree _ (slotCounts_tail.mpr hk)
    cases flag with
    | false => rw [decodeSlots, decodeSlots, hslots]
    | true =>
      have hfields := @Row.decodeFields_congr _ _ (bs'.take schema.byteSize) hrow
        (by rw [List.length_take, List.length_take, hsame]) fun k hk => by
          have hlt : k < schema.byteSize := Row.lt_of_counts hk
          rw [List.getElem?_take_of_lt hlt, List.getElem?_take_of_lt hlt]
          exact agree k ((slotCounts_head hlt).mpr ⟨rfl, hk⟩)
      rw [decodeSlots, decodeSlots, hslots]
      cases hr : Row.decodeFields schema.types (bs.take schema.byteSize) <;>
        cases hr' : Row.decodeFields schema.types (bs'.take schema.byteSize) <;>
        simp_all [Except.map]

/-- The bytes of the first slot, blanked, in front of those of the others. -/
theorem blanked_cons {counts : Nat → Prop} {front back : Bytes}
    (hlen : (flag :: flags).length * schema.byteSize ≤ bs.length)
    (hcounts : ∀ k, counts k ↔ flag = true ∧ Row.Counts schema.types (bs.take schema.byteSize) k)
    (hfront : Bytes.Blanked counts (bs.take schema.byteSize) front)
    (hback : Bytes.Blanked (SlotCounts schema flags (bs.drop schema.byteSize))
      ((bs.drop schema.byteSize).take (flags.length * schema.byteSize)) back) :
    Bytes.Blanked (SlotCounts schema (flag :: flags) bs)
      (bs.take ((flag :: flags).length * schema.byteSize)) (front ++ back) := by
  have hrow := (length_take_byteSize hlen).1
  have hsplit : bs.take ((flag :: flags).length * schema.byteSize) = bs.take schema.byteSize ++
      (bs.drop schema.byteSize).take (flags.length * schema.byteSize) := by
    rw [← List.take_add, List.length_cons, Nat.succ_mul, Nat.add_comm]
  rw [hsplit]
  refine hfront.append _ hback ?_ ?_
  · intro k hk
    rw [hrow] at hk
    rw [slotCounts_head hk, hcounts]
  · intro k
    rw [hrow, slotCounts_tail]

/-- The slots are written as the same bytes, with zeros for those that no row was read from. -/
theorem blanked_of_decodeSlots {slots : List (Option (List Field))}
    (hlen : flags.length * schema.byteSize ≤ bs.length)
    (h : decodeSlots schema schema.byteSize slot flags bs = .ok slots) :
    ∃ body, encodeSlots schema.byteSize slots = .ok body ∧
      Bytes.Blanked (SlotCounts schema flags bs) (bs.take (flags.length * schema.byteSize)) body := by
  induction flags generalizing slot bs slots with
  | nil =>
    cases h
    exact ⟨[], rfl, by simpa using Bytes.blanked_nil (SlotCounts schema [] bs)⟩
  | cons flag flags ih =>
    obtain ⟨hrow, hrest⟩ := length_take_byteSize hlen
    cases flag with
    | false =>
      simp only [decodeSlots] at h
      cases hr : decodeSlots schema schema.byteSize (slot + 1) flags (bs.drop schema.byteSize) with
      | error e => simp [hr, Except.map] at h
      | ok others =>
        simp only [hr, Except.map, Except.ok.injEq] at h
        subst h
        obtain ⟨body, hbody, hblank⟩ := ih hrest hr
        refine ⟨Bytes.zeros schema.byteSize ++ body, by simp [encodeSlots, hbody, Except.map], ?_⟩
        exact blanked_cons hlen (by simp) (Bytes.blanked_none hrow) hblank
    | true =>
      simp only [decodeSlots] at h
      rcases hf : Row.decodeFields schema.types (bs.take schema.byteSize) with e | ⟨fields, left⟩
      · simp [hf] at h
      · cases hr : decodeSlots schema schema.byteSize (slot + 1) flags (bs.drop schema.byteSize) with
        | error e => simp [hf, hr, Except.map] at h
        | ok others =>
          simp only [hf, hr, Except.map, Except.ok.injEq] at h
          subst h
          obtain ⟨front, hfront, hhead⟩ := Row.blanked_of_decodeFields hrow hf
          obtain ⟨body, hbody, hblank⟩ := ih hrest hr
          refine ⟨front ++ body, by simp [encodeSlots, hfront, hbody, Except.map], ?_⟩
          exact blanked_cons hlen (by simp) hhead hblank

/-! ## Pages -/

/-- The bytes of the row in a slot. -/
def rowBytes (schema : Schema) (size : Nat) (bs : Bytes) (slot : Nat) : Bytes :=
  (bs.drop ((Layout.of size schema.byteSize).offset slot)).take schema.byteSize

/-- A slot that is used according to its bit, with bytes that are no row. -/
def Bad (schema : Schema) (size : Nat) (bs : Bytes) (slot : Nat) : Prop :=
  slot < (Layout.of size schema.byteSize).slots ∧ bs.bitAt slot = true ∧
    ¬ Row.Legible schema.types (rowBytes schema size bs slot)

/-- Byte `i` is one that a row is read from: it stands in a slot that is used, and is neither padding of
a string nor behind the slots. -/
def OfRow (schema : Schema) (size : Nat) (bs : Bytes) (i : Nat) : Prop :=
  ∃ slot k, slot < (Layout.of size schema.byteSize).slots ∧ bs.bitAt slot = true ∧
    i = (Layout.of size schema.byteSize).offset slot + k ∧
    Row.Counts schema.types (rowBytes schema size bs slot) k

/-- Byte `i` comes through reading and writing: it is of the header, all bits of which are kept, or of
a row. -/
def Kept (schema : Schema) (size : Nat) (bs : Bytes) (i : Nat) : Prop :=
  i < (Layout.of size schema.byteSize).headerLength ∨ OfRow schema size bs i

/-- The bytes of the header. -/
def headerOf (schema : Schema) (size : Nat) (bs : Bytes) : Bytes :=
  bs.take (Layout.of size schema.byteSize).headerLength

/-- The bytes behind the header: the slots, and what is left of the page. -/
def behindHeader (schema : Schema) (size : Nat) (bs : Bytes) : Bytes :=
  bs.drop (Layout.of size schema.byteSize).headerLength

/-- The bits of the slots that a page of this size has. -/
def usedFlags (schema : Schema) (size : Nat) (bs : Bytes) : List Bool :=
  (Bytes.bits (headerOf schema size bs)).take (Layout.of size schema.byteSize).slots

section

variable {id : PageId} {size : Nat}

theorem bitAt_take {n i : Nat} (h : i < 8 * n) : Bytes.bitAt (bs.take n) i = bs.bitAt i := by
  rw [Bytes.bitAt, Bytes.bitAt, List.getElem?_take_of_lt (by omega)]

theorem length_headerOf (schema : Schema) (h : bs.length = size) :
    (headerOf schema size bs).length = (Layout.of size schema.byteSize).headerLength := by
  have hroom := layout_fits size schema.byteSize
  rw [headerOf, List.length_take]
  omega

theorem slotBytes_behindHeader (schema : Schema) (size : Nat) (bs : Bytes) (j : Nat) :
    slotBytes schema.byteSize (behindHeader schema size bs) j = rowBytes schema size bs j := by
  rw [slotBytes, rowBytes, behindHeader, List.drop_drop]
  rfl

theorem getElem?_usedFlags (h : bs.length = size) {j : Nat} {b : Bool} :
    (usedFlags schema size bs)[j]? = some b ↔
      j < (Layout.of size schema.byteSize).slots ∧ bs.bitAt j = b := by
  have hbits := slots_le_headerLength (Layout.of size schema.byteSize)
  rw [usedFlags, List.getElem?_take]
  by_cases hj : j < (Layout.of size schema.byteSize).slots
  · rw [if_pos hj, Bytes.getElem?_bits (by rw [length_headerOf schema h]; omega), headerOf,
      bitAt_take (by omega)]
    simp [hj]
  · simp [hj]

theorem length_usedFlags (h : bs.length = size) :
    (usedFlags schema size bs).length = (Layout.of size schema.byteSize).slots := by
  have hbits := slots_le_headerLength (Layout.of size schema.byteSize)
  rw [usedFlags, List.length_take, Bytes.length_bits, length_headerOf schema h]
  omega

/-- The slots end before the page does. -/
theorem slots_fit (schema : Schema) (h : bs.length = size) :
    (usedFlags schema size bs).length * schema.byteSize ≤ (behindHeader schema size bs).length := by
  have hroom := layout_fits size schema.byteSize
  rw [length_usedFlags h, behindHeader, List.length_drop]
  omega

theorem slotCounts_iff_ofRow (h : bs.length = size) :
    SlotCounts schema (usedFlags schema size bs) (behindHeader schema size bs) k ↔
      OfRow schema size bs ((Layout.of size schema.byteSize).headerLength + k) := by
  constructor
  · rintro ⟨j, i, hj, rfl, hi⟩
    obtain ⟨hlt, hbit⟩ := (getElem?_usedFlags h).mp hj
    rw [slotBytes_behindHeader] at hi
    exact ⟨j, i, hlt, hbit, (Nat.add_assoc ..).symm, hi⟩
  · rintro ⟨j, i, hlt, hbit, heq, hi⟩
    rw [← slotBytes_behindHeader] at hi
    refine ⟨j, i, (getElem?_usedFlags h).mpr ⟨hlt, hbit⟩, ?_, hi⟩
    exact Nat.add_left_cancel (heq.trans (Nat.add_assoc ..))

theorem ofBytes_eq (h : bs.length = size) : ofBytes id schema size bs =
    match decodeSlots schema schema.byteSize 0 (usedFlags schema size bs)
      (behindHeader schema size bs) with
    | .error fault => .error (.corruptPage id fault)
    | .ok slots => .ok
        { id, schema, size, slots, beforeImage := bs
          stray := (Bytes.bits (headerOf schema size bs)).drop (Layout.of size schema.byteSize).slots } := by
  simp only [ofBytes, h, ne_eq, not_true_eq_false, if_false]
  rfl

theorem ofBytes_ok (h : bs.length = size) (hgood : ∀ slot, ¬ Bad schema size bs slot) :
    ∃ p, ofBytes id schema size bs = .ok p := by
  obtain ⟨slots, hslots⟩ := decodeSlots_ok 0 (slots_fit schema h) fun j hj => by
    obtain ⟨hlt, hbit⟩ := (getElem?_usedFlags h).mp hj
    rw [slotBytes_behindHeader]
    exact Classical.not_not.mp fun hbad => hgood j ⟨hlt, hbit, hbad⟩
  rw [ofBytes_eq h, hslots]
  exact ⟨_, rfl⟩

/-- The lowest bad slot is the one that is named. -/
theorem ofBytes_error (id : PageId) (h : bs.length = size) (hbad : Bad schema size bs slot)
    (hfirst : ∀ s < slot, ¬ Bad schema size bs s) :
    ∃ fault, ofBytes id schema size bs = .error (.corruptPage id (.slot slot fault)) := by
  obtain ⟨hlt, hbit, hrow⟩ := hbad
  rw [← slotBytes_behindHeader] at hrow
  obtain ⟨fault, hfault⟩ := decodeSlots_error 0 (slots_fit schema h)
    ((getElem?_usedFlags h).mpr ⟨hlt, hbit⟩) hrow fun i hi hflag => by
      obtain ⟨hlt, hbit⟩ := (getElem?_usedFlags h).mp hflag
      rw [slotBytes_behindHeader]
      exact Classical.not_not.mp fun hbad => hfirst i hi ⟨hlt, hbit, hbad⟩
  rw [Nat.zero_add] at hfault
  exact ⟨fault, by rw [ofBytes_eq h, hfault]⟩

theorem ofBytes_ok_iff : (∃ p, ofBytes id schema size bs = .ok p) ↔
    bs.length = size ∧ ∀ slot, ¬ Bad schema size bs slot := by
  constructor
  · rintro ⟨p, hp⟩
    have hlen := (read_of_ofBytes hp).length
    refine ⟨hlen, fun slot => ?_⟩
    -- below a bad slot there is a lowest one, and that one would have been named
    induction slot using Nat.strongRecOn with
    | _ slot ih =>
      intro hbad
      obtain ⟨fault, hfault⟩ := ofBytes_error id hlen hbad ih
      rw [hp] at hfault
      cases hfault
  · rintro ⟨hlen, hgood⟩
    exact ofBytes_ok hlen hgood

/-- Bytes that agree in the bits of the slots and in what rows are read from are read alike. -/
theorem rows_congr (hsame : bs'.length = bs.length)
    (hbits : ∀ slot < (Layout.of size schema.byteSize).slots, bs'.bitAt slot = bs.bitAt slot)
    (agree : ∀ i, OfRow schema size bs i → bs'[i]? = bs[i]?) :
    (ofBytes id schema size bs').map Page.rows = (ofBytes id schema size bs).map Page.rows := by
  by_cases h : bs.length = size
  · have hflags : usedFlags schema size bs' = usedFlags schema size bs := by
      apply List.ext_getElem?
      intro j
      apply Option.ext
      intro b
      rw [getElem?_usedFlags (hsame.trans h), getElem?_usedFlags h]
      exact and_congr_right fun hj => by rw [hbits j hj]
    have hslots := @decodeSlots_congr _ _ _ (behindHeader schema size bs') 0 (slots_fit schema h)
      (by rw [behindHeader, behindHeader, List.length_drop, List.length_drop, hsame]) fun k hk => by
        rw [behindHeader, behindHeader, List.getElem?_drop, List.getElem?_drop]
        exact agree _ ((slotCounts_iff_ofRow h).mp hk)
    rw [ofBytes_eq h, ofBytes_eq (hsame.trans h), hflags, hslots]
    cases decodeSlots schema schema.byteSize 0 (usedFlags schema size bs)
      (behindHeader schema size bs) <;> rfl
  · simp [ofBytes, hsame, h]

/-! ## Writing again -/

/-- The header as it is, blanked slots, and zeros to the end are a blanked page. -/
theorem blanked_page {body : Bytes} (h : bs.length = size)
    (hbody : Bytes.Blanked (SlotCounts schema (usedFlags schema size bs) (behindHeader schema size bs))
      ((behindHeader schema size bs).take ((usedFlags schema size bs).length * schema.byteSize)) body) :
    Bytes.Blanked (Kept schema size bs) bs (Bytes.fit size (headerOf schema size bs ++ body)) := by
  have hfits := slots_fit schema h
  have hhead := length_headerOf schema h
  obtain ⟨back, hrestIs⟩ : ∃ back, (behindHeader schema size bs).drop
    ((usedFlags schema size bs).length * schema.byteSize) = back := ⟨_, rfl⟩
  have hmiddle : ((behindHeader schema size bs).take
      ((usedFlags schema size bs).length * schema.byteSize)).length =
      (usedFlags schema size bs).length * schema.byteSize := by
    rw [List.length_take, Nat.min_eq_left hfits]
  have hparts : bs = headerOf schema size bs ++ ((behindHeader schema size bs).take
      ((usedFlags schema size bs).length * schema.byteSize) ++ back) := by
    rw [← hrestIs, List.take_append_drop, headerOf, behindHeader, List.take_append_drop]
  have hback : Bytes.Blanked (fun _ => False) back (Bytes.zeros back.length) := Bytes.blanked_none rfl
  have hrest := hbody.append (SlotCounts schema (usedFlags schema size bs) (behindHeader schema size bs))
    hback (fun _ _ => Iff.rfl) fun i => by
      refine iff_false_intro fun hi => ?_
      have := lt_of_slotCounts hi
      omega
  have hwhole := (Bytes.blanked_all (headerOf schema size bs)).append (Kept schema size bs) hrest
    (fun i hi => iff_true_intro (.inl (hhead ▸ hi)))
    (fun i => by
      rw [hhead, slotCounts_iff_ofRow h]
      exact or_iff_right (Nat.not_lt.mpr (Nat.le_add_right ..)))
  rw [← hparts] at hwhole
  have hlen := hwhole.length
  have hfit : Bytes.fit size (headerOf schema size bs ++ body) =
      headerOf schema size bs ++ (body ++ Bytes.zeros back.length) := by
    rw [List.length_append, List.length_append, Bytes.length_zeros] at hlen
    rw [Bytes.fit, List.take_of_length_le (by rw [List.length_append]; omega), List.append_assoc,
      List.length_append]
    congr 3
    omega
  rw [hfit]
  exact hwhole

theorem flags_of_decodeSlots {width : Nat} {slots : List (Option (List Field))}
    (h : decodeSlots schema width slot flags bs = .ok slots) : slots.map Option.isSome = flags := by
  induction flags generalizing slot bs slots with
  | nil =>
    cases h
    rfl
  | cons flag flags ih =>
    cases hr : decodeSlots schema width (slot + 1) flags (bs.drop width) with
    | error e =>
      cases flag <;> simp only [decodeSlots, hr] at h
      · cases h
      · split at h <;> cases h
    | ok others =>
      have := ih hr
      cases flag <;> simp only [decodeSlots, hr] at h
      · cases h
        simp [this]
      · split at h
        · cases h
        · cases h
          simp [this]

/-- The header of a page that was read is the one it was read from, stray bits and all; the rest is
blanked. -/
theorem blanked_of_ofBytes {p : Page} (hp : ofBytes id schema size bs = .ok p) :
    ∃ out, p.data = .ok out ∧ Bytes.Blanked (Kept schema size bs) bs out := by
  have h := (read_of_ofBytes hp).length
  rw [ofBytes_eq h] at hp
  split at hp
  · cases hp
  · rename_i slots hslots
    cases hp
    obtain ⟨body, hbody, hblank⟩ := blanked_of_decodeSlots (slots_fit schema h) hslots
    have hback := Bytes.ofBits_bits (headerOf schema size bs)
    rw [length_headerOf schema h] at hback
    refine ⟨_, ?_, blanked_page h hblank⟩
    have hbits : slots.map Option.isSome ++ (Bytes.bits (headerOf schema size bs)).drop
        (Layout.of size schema.byteSize).slots = Bytes.bits (headerOf schema size bs) := by
      rw [flags_of_decodeSlots hslots, usedFlags, List.take_append_drop]
    simp only [data, header, layout, hbits, hback]
    simp only [Layout.of, hbody, Except.map]

/-! ## The law -/

/-- A byte string is a page if it is as long as a page and each slot that is used holds a row; else the
length or the lowest bad slot is named. What is read depends on the bits of the slots and on the bytes
that rows are read from, and on nothing else. Written again, the page has its header and these bytes, and
zeros for all others; that is then read and written without change. -/
theorem a_page_is_read_from_exactly_its_format (id : PageId) (schema : Schema) (size : Nat) (bs : Bytes) :
    ((∃ p, ofBytes id schema size bs = .ok p) ↔
      bs.length = size ∧ ∀ slot, ¬ Bad schema size bs slot) ∧
    (bs.length ≠ size →
      ofBytes id schema size bs = .error (.corruptPage id (.length size bs.length))) ∧
    (∀ slot, bs.length = size → Bad schema size bs slot → (∀ s < slot, ¬ Bad schema size bs s) →
      ∃ fault, ofBytes id schema size bs = .error (.corruptPage id (.slot slot fault))) ∧
    (∀ bs' : Bytes, bs'.length = bs.length →
      (∀ slot < (Layout.of size schema.byteSize).slots, bs'.bitAt slot = bs.bitAt slot) →
      (∀ i, OfRow schema size bs i → bs'[i]? = bs[i]?) →
      (ofBytes id schema size bs').map Page.rows = (ofBytes id schema size bs).map Page.rows) ∧
    (∀ p, ofBytes id schema size bs = .ok p → ∃ out q, p.data = .ok out ∧
      Bytes.Blanked (Kept schema size bs) bs out ∧
      ofBytes id schema size out = .ok q ∧ q.rows = p.rows ∧ q.data = .ok out) := by
  refine ⟨ofBytes_ok_iff, fun h => by simp [ofBytes, h], fun slot => ofBytes_error id,
    fun bs' => rows_congr, fun p hp => ?_⟩
  obtain ⟨out, hout, hblank⟩ := blanked_of_ofBytes hp
  obtain ⟨rfl, rfl, rfl, -, -, -, hsound⟩ := read_of_ofBytes hp
  obtain ⟨out', hout', -, hread⟩ := hsound.data
  obtain rfl : out = out' := Except.ok.inj (hout.symm.trans hout')
  exact ⟨out, _, hout, hblank, hread, rfl, hout⟩

/-- A page with room for two numbers, of which the second is free. There is junk in the free slot and
behind the slots, and a bit for an eighth slot. -/
def junk : Bytes := [129, 0, 0, 1, 7, 9, 9, 9, 9, 5, 5, 5]

/-- A page of one string that claims to be longer than its room. -/
def overlong : Bytes := 1 :: 0 :: 0 :: 0 :: 129 :: Bytes.zeros 130

theorem junk_is_read_and_gone_when_it_is_written :
    (∃ p out, ofBytes ⟨1, 0⟩ ⟨[⟨"n", .int⟩]⟩ 12 junk = .ok p ∧
      p.rows = [⟨⟨[⟨"n", .int⟩]⟩, [.int 263], some ⟨⟨1, 0⟩, 0⟩⟩] ∧ p.data = .ok out ∧
      out = [129, 0, 0, 1, 7, 0, 0, 0, 0, 0, 0, 0] ∧
      Bytes.Blanked (Kept ⟨[⟨"n", .int⟩]⟩ 12 junk) junk out) ∧
    ∃ fault, ofBytes ⟨1, 0⟩ ⟨[⟨"s", .str⟩]⟩ 135 overlong =
      .error (.corruptPage ⟨1, 0⟩ (.slot 0 fault)) := by
  constructor
  · obtain ⟨hread, -, -, -, hwrite⟩ :=
      a_page_is_read_from_exactly_its_format ⟨1, 0⟩ ⟨[⟨"n", .int⟩]⟩ 12 junk
    have hgood : ∀ slot, ¬ Bad ⟨[⟨"n", .int⟩]⟩ 12 junk slot := by
      rintro slot ⟨-, -, hbad⟩
      refine hbad fun c t hc => ?_
      match c, hc with
      | 0, rfl => trivial
    obtain ⟨p, hp⟩ := hread.mpr ⟨rfl, hgood⟩
    obtain ⟨out, -, hout, hblank, -⟩ := hwrite p hp
    have hpage : (ofBytes ⟨1, 0⟩ ⟨[⟨"n", .int⟩]⟩ 12 junk).toOption.map
        (fun p => (p.rows, p.data.toOption)) =
        some ([⟨⟨[⟨"n", .int⟩]⟩, [.int 263], some ⟨⟨1, 0⟩, 0⟩⟩],
          some [129, 0, 0, 1, 7, 0, 0, 0, 0, 0, 0, 0]) := by decide +kernel
    simp only [hp, hout, Except.toOption, Option.map_some, Option.some.injEq, Prod.mk.injEq] at hpage
    exact ⟨p, out, hp, hpage.1, hout, hpage.2, hblank⟩
  · refine (a_page_is_read_from_exactly_its_format ⟨1, 0⟩ ⟨[⟨"s", .str⟩]⟩ 135 overlong).2.2.1 0
      rfl ⟨by decide +kernel, by decide +kernel, fun h => ?_⟩ (fun s hs => absurd hs (Nat.not_lt_zero s))
    -- the string claims one byte more than a row has for it
    have hlen := (h 0 .str rfl).1
    revert hlen
    decide +kernel

end

end Page

end PageStore
