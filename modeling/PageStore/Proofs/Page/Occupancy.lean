-- Which slots of a page are used is written down twice: in the bits of the header's bytes, and
-- by the rows in the slots. A page that is kept so, and changed in place by masks of single
-- bytes, is at all times the page of slots, so that it is a map from its slots to rows: each
-- change is a change of one slot, or is refused and leaves everything as it was.
import PageStore.Proofs.Page.Format
import PageStore.Proofs.Page.RoundTrip
import PageStore.Proofs.Step
import Mathlib.Data.Nat.Bitwise

namespace PageStore

/-! ## Bits by their masks -/

namespace Bytes

/-- The byte that has only one bit. -/
def mask (i : Nat) : UInt8 := 1 <<< UInt8.ofNat (i % 8)

/-- Whether bit `i` of a byte string is set. -/
def hasBit (bs : Bytes) (i : Nat) : Bool := bs.getD (i / 8) 0 &&& mask i != 0

/-- A byte with one bit set or cleared. -/
def masked (b : UInt8) (i : Nat) (on : Bool) : UInt8 := if on then b ||| mask i else b &&& ~~~mask i

/-- Sets or clears bit `i` of a byte string. -/
def setBit (bs : Bytes) (i : Nat) (on : Bool) : Bytes := bs.modify (i / 8) fun b => masked b i on

theorem toNat_mask (i : Nat) : (mask i).toNat = 2 ^ (i % 8) := by
  have hlt : 2 ^ (i % 8) < 2 ^ 8 := Nat.pow_lt_pow_right (by decide) (Nat.mod_lt _ (by decide))
  have hbit : i % 8 % 2 ^ 8 % 8 = i % 8 := by omega
  rw [mask, UInt8.toNat_shiftLeft, UInt8.toNat_ofNat', UInt8.toNat_one, hbit, Nat.shiftLeft_eq,
    Nat.one_mul, Nat.mod_eq_of_lt hlt]

/-- Of the eight bits of a byte one is as it was set, and the others are as before. -/
theorem testBit_masked (b : UInt8) (i : Nat) (on : Bool) {j : Nat} (h : j < 8) :
    (masked b i on).toNat.testBit j = if j = i % 8 then on else b.toNat.testBit j := by
  unfold masked
  cases on with
  | true =>
    rw [if_pos rfl, UInt8.toNat_or, Nat.testBit_or, toNat_mask, Nat.testBit_two_pow]
    by_cases hj : j = i % 8
    · simp [hj]
    · simp [hj, Ne.symm hj]
  | false =>
    have hmask : (mask i).toNat < 2 ^ 8 := (mask i).toNat_lt
    have hsize : UInt8.size - 1 - (mask i).toNat = 2 ^ 8 - ((mask i).toNat + 1) := by
      rw [UInt8.size]
      omega
    have hnot : (~~~mask i).toNat.testBit j = !decide (i % 8 = j) := by
      rw [UInt8.toNat_not, hsize, Nat.testBit_two_pow_sub_succ hmask, toNat_mask, Nat.testBit_two_pow]
      simp [h]
    rw [if_neg Bool.false_ne_true, UInt8.toNat_and, Nat.testBit_and, hnot]
    by_cases hj : j = i % 8
    · simp [hj]
    · simp [hj, Ne.symm hj]

theorem hasBit_eq_bitAt (bs : Bytes) (i : Nat) : bs.hasBit i = bs.bitAt i := by
  unfold hasBit bitAt
  rw [List.getD_eq_getElem?_getD]
  generalize (bs[i / 8]?).getD 0 = b
  have hzero : b &&& mask i = 0 ↔ b.toNat &&& 2 ^ (i % 8) = 0 := by
    rw [← UInt8.toNat_inj, UInt8.toNat_and, toNat_mask]
    rfl
  rw [Bool.eq_iff_iff, bne_iff_ne, Ne, hzero, Nat.and_two_pow]
  cases b.toNat.testBit (i % 8) <;> simp

theorem bitAt_setBit {bs : Bytes} {i : Nat} (h : i < 8 * bs.length) (on : Bool) (j : Nat) :
    (bs.setBit i on).bitAt j = if j = i then on else bs.bitAt j := by
  have hbyte : i / 8 < bs.length := by omega
  unfold bitAt setBit
  by_cases hsame : i / 8 = j / 8
  · have hbit : j % 8 = i % 8 ↔ j = i := by omega
    rw [← hsame, List.getElem?_modify_eq, List.getElem?_eq_getElem hbyte]
    change (masked bs[i / 8] i on).toNat.testBit (j % 8) = _
    rw [testBit_masked _ i on (Nat.mod_lt j (by decide))]
    simp only [hbit, Option.getD_some]
  · have hne : j ≠ i := fun heq => hsame (heq ▸ rfl)
    rw [List.getElem?_modify_ne _ _ hsame, if_neg hne]

@[simp] theorem length_setBit (bs : Bytes) (i : Nat) (on : Bool) : (bs.setBit i on).length = bs.length :=
  List.length_modify ..

theorem bitAt_ofBits {n : Nat} {flags : List Bool} (h : flags.length = 8 * n) {i : Nat}
    (hi : i < flags.length) : flags[i]? = some ((ofBits n flags).bitAt i) := by
  rw [← getElem?_bits (by rwa [length_ofBits, ← h]), bits_ofBits h]

/-- To set a bit of some bytes is to set one of the flags that they hold. -/
theorem setBit_ofBits {n : Nat} {flags : List Bool} (h : flags.length = 8 * n) {i : Nat}
    (hi : i < flags.length) (on : Bool) : (ofBits n flags).setBit i on = ofBits n (flags.set i on) := by
  have hbits : bits ((ofBits n flags).setBit i on) = flags.set i on := by
    apply List.ext_getElem?
    intro j
    by_cases hj : j < flags.length
    · rw [getElem?_bits (by rwa [length_setBit, length_ofBits, ← h]),
        bitAt_setBit (by rwa [length_ofBits, ← h]), List.getElem?_set]
      by_cases heq : j = i
      · rw [if_pos heq, if_pos heq.symm, if_pos hi]
      · rw [if_neg heq, if_neg (Ne.symm heq), bitAt_ofBits h hj]
    · rw [List.getElem?_eq_none (by simp; omega), List.getElem?_eq_none (by simp; omega)]
  have hback := ofBits_bits ((ofBits n flags).setBit i on)
  rw [hbits, length_setBit, length_ofBits] at hback
  exact hback.symm

end Bytes

/-! ## Pages with a register -/

/-- A page as it is kept while it is changed: the bytes of the header, and beside them what stands in
each slot. -/
structure Register where
  page : PageId
  schema : Schema
  size : Nat
  header : Bytes
  rows : List (Option Row)
  deriving Repr, DecidableEq

namespace Register

/-- A slot is used if its bit is set. -/
def isUsed (g : Register) (slot : Nat) : Bool := slot < g.rows.length && g.header.hasBit slot

def numFree (g : Register) : Nat := (List.range g.rows.length).countP fun slot => !g.isUsed slot

def firstFree? (g : Register) : Option Nat := (List.range g.rows.length).find? fun slot => !g.isUsed slot

/-- The rows in slot order. -/
def held (g : Register) : List Row := g.rows.filterMap id

/-- The bytes of the page: the header, the rows, zeros. -/
def data (g : Register) : Except Error Bytes :=
  (Page.encodeSlots g.schema.byteSize (g.rows.map (Option.map Row.fields))).map fun body =>
    Bytes.fit g.size (g.header ++ body)

/-- Puts a row into the lowest free slot. The row gets its place, the slot the row, the header its bit. -/
def insert : Step (Row × Register) RecordId := do
  let (row, g) ← Step.state
  Step.check (row.schema.agrees g.schema) (g.schema.mismatch row.schema)
  let slot ← Step.ofOption (.pageFull g.page) g.firstFree?
  let _ ← Step.ofExcept row.encode
  let place : RecordId := ⟨g.page, slot⟩
  let row := row.setPlace (some place)
  Step.update fun s => (row, s.2)
  Step.update fun s => (s.1, { s.2 with rows := s.2.rows.set slot (some { row with schema := g.schema }) })
  Step.update fun s => (s.1, { s.2 with header := s.2.header.setBit slot true })
  return place

/-- Frees the slot of a row. -/
def delete (row : Row) : Step Register Unit := do
  let g ← Step.state
  let place ← Step.ofOption (.notOnPage g.page) (row.place.filter fun place => place.page = g.page)
  Step.check (g.isUsed place.slot) (.slotEmpty g.page place.slot)
  Step.update fun g => { g with rows := g.rows.set place.slot none }
  Step.update fun g => { g with header := g.header.setBit place.slot false }

/-- This is the register of a page with `count` slots, in which there are these rows and no others. -/
structure Maps (id : PageId) (count : Nat) (rows : Nat → Option (List Field)) (g : Register) : Prop where
  page : g.page = id
  length : g.rows.length = count
  few : count ≤ Layout.maxSlots
  bits : ∀ slot < count, g.header.hasBit slot = (rows slot).isSome
  row : ∀ slot < count, g.rows[slot]? =
    some ((rows slot).map fun fields => { schema := g.schema, fields, place := some ⟨id, slot⟩ })
  others : ∀ slot, count ≤ slot → rows slot = none
  balance : g.numFree + g.held.length = count

end Register

namespace Page

/-- The page with its register. -/
def register (p : Page) : Register where
  page := p.id
  schema := p.schema
  size := p.size
  header := p.header
  rows := (List.range p.numSlots).map p.row?

variable {id : PageId} {schema : Schema} {size : Nat} {p q : Page}

theorem row?_eq (p : Page) (slot : Nat) : p.row? slot = (p.fieldsAt slot).map (p.rowAt slot) := rfl

theorem fieldsAt_behind {slot : Nat} (h : p.numSlots ≤ slot) : p.fieldsAt slot = none := by
  rw [fieldsAt, List.getElem?_eq_none h]
  rfl

theorem fieldsAt_getElem {slot : Nat} (h : slot < p.slots.length) : p.fieldsAt slot = p.slots[slot] := by
  rw [fieldsAt, List.getElem?_eq_getElem h, Option.join_some]

@[simp] theorem length_register (p : Page) : p.register.rows.length = p.numSlots := by
  simp [register]

theorem getElem?_register {slot : Nat} (h : slot < p.numSlots) :
    p.register.rows[slot]? = some ((p.fieldsAt slot).map (p.rowAt slot)) := by
  simp [register, row?_eq, h]

/-- A page is what stands in its slots, one after the other. -/
theorem slots_eq (p : Page) : p.slots = (List.range p.numSlots).map p.fieldsAt := by
  apply List.ext_getElem
  · simp [numSlots]
  · intro slot hslot _
    simp [fieldsAt_getElem hslot]

theorem data_register (p : Page) : p.register.data = p.data := by
  have hslots : p.register.rows.map (Option.map Row.fields) = p.slots := by
    rw [p.slots_eq, register, List.map_map]
    refine List.map_congr_left fun slot _ => ?_
    rw [Function.comp_apply, row?_eq, Option.map_map]
    exact Option.map_id'
  rw [Register.data, hslots]
  rfl

theorem held_register (p : Page) : p.register.held = p.rows := by
  have hrows : p.register.rows = p.slots.zipIdx.map fun e => e.1.map (p.rowAt e.2) := by
    apply List.ext_getElem
    · simp [numSlots]
    · intro slot _ hslot
      rw [List.length_map, List.length_zipIdx] at hslot
      simp [register, row?_eq, fieldsAt_getElem hslot]
  rw [Register.held, hrows, List.filterMap_map]
  rfl

/-! ## The register and the slots -/

section Bits

variable (bits : p.slots.length + p.stray.length = 8 * p.layout.headerLength)

include bits

/-- The bit of a slot says whether a row is there. -/
theorem hasBit_header {slot : Nat} (h : slot < p.numSlots) :
    p.header.hasBit slot = (p.fieldsAt slot).isSome := by
  have hflag : (p.slots.map Option.isSome ++ p.stray)[slot]? = some (p.fieldsAt slot).isSome := by
    rw [List.getElem?_append_left (by rwa [List.length_map]), List.getElem?_map,
      List.getElem?_eq_getElem h, fieldsAt_getElem h, Option.map_some]
  rw [Bytes.hasBit_eq_bitAt, header]
  refine Option.some.inj (Eq.trans (Bytes.bitAt_ofBits ?_ ?_).symm hflag)
  · simpa using bits
  · have h : slot < p.slots.length := h
    rw [List.length_append, List.length_map]
    omega

theorem isUsed_register (slot : Nat) : p.register.isUsed slot = (p.fieldsAt slot).isSome := by
  rw [Register.isUsed, length_register]
  by_cases h : slot < p.numSlots
  · rw [decide_eq_true h, Bool.true_and]
    exact hasBit_header bits h
  · rw [decide_eq_false h, Bool.false_and, fieldsAt_behind (Nat.le_of_not_lt h)]
    rfl

theorem firstFree?_register : p.register.firstFree? = p.firstFree? := by
  have hused : ∀ slot, (!p.register.isUsed slot) = (p.fieldsAt slot).isNone := by
    intro slot
    rw [isUsed_register bits, Option.not_isSome]
  rw [Register.firstFree?, length_register]
  cases hfree : p.firstFree? with
  | none =>
    rw [firstFree?, List.findIdx?_eq_none_iff] at hfree
    rw [List.find?_range_eq_none]
    intro slot hslot
    rw [hused, fieldsAt_getElem hslot, hfree _ (List.getElem_mem hslot)]
    rfl
  | some slot =>
    rw [firstFree?, List.findIdx?_eq_some_iff_getElem] at hfree
    obtain ⟨hlt, hnone, hfront⟩ := hfree
    rw [List.find?_range_eq_some]
    refine ⟨?_, List.mem_range.mpr hlt, fun other hother => ?_⟩
    · rw [hused, fieldsAt_getElem hlt, hnone]
    · rw [hused, fieldsAt_getElem (Nat.lt_trans hother hlt), Bool.not_eq_true']
      exact Bool.eq_false_iff.mpr (hfront other hother)

theorem numFree_register : p.register.numFree = p.numFree := by
  rw [Register.numFree, length_register, numFree, p.slots_eq, List.countP_map]
  refine List.countP_congr fun slot _ => ?_
  rw [isUsed_register bits, Option.not_isSome, Function.comp_apply]

/-- Every slot is counted once, as a free one or as that of a row. -/
theorem balance_register : p.register.numFree + p.register.held.length = p.numSlots := by
  have hheld : p.register.held.length = (List.range p.numSlots).countP fun slot => p.register.isUsed slot := by
    have hrows : p.register.rows = (List.range p.numSlots).map p.row? := rfl
    rw [Register.held, hrows, List.filterMap_map, List.length_filterMap_eq_countP]
    refine List.countP_congr fun slot _ => ?_
    rw [isUsed_register bits, Function.comp_apply, id_eq, row?_eq, Option.isSome_map]
  have hall := List.length_eq_countP_add_countP p.register.isUsed (l := List.range p.numSlots)
  simp only [List.length_range, Bool.not_eq_true, Bool.decide_eq_false] at hall
  rw [hheld, Register.numFree, length_register, Nat.add_comm]
  exact hall.symm

/-- A change of one slot is a change of one bit and of one row. -/
theorem register_withSlot {slot : Nat} (h : slot < p.numSlots) (value : Option (List Field)) :
    (p.withSlot slot value).register =
      { p.register with
        header := p.header.setBit slot value.isSome
        rows := p.register.rows.set slot (value.map (p.rowAt slot)) } := by
  have hheader : (p.withSlot slot value).header = p.header.setBit slot value.isSome := by
    have hlt : slot < (p.slots.map Option.isSome).length := by rwa [List.length_map]
    have hflags : (p.slots.map Option.isSome ++ p.stray).length = 8 * p.layout.headerLength := by
      rwa [List.length_append, List.length_map]
    have hset := Bytes.setBit_ofBits hflags (i := slot) (by rw [List.length_append]; omega) value.isSome
    rw [List.set_append_left _ _ hlt, ← List.map_set] at hset
    exact hset.symm
  have hrows : (p.withSlot slot value).register.rows =
      p.register.rows.set slot (value.map (p.rowAt slot)) := by
    apply List.ext_getElem?
    intro other
    by_cases hother : other < p.numSlots
    · rw [getElem?_register (by simpa [numSlots, withSlot] using hother), fieldsAt_withSlot h,
        List.getElem?_set, length_register]
      by_cases heq : slot = other
      · subst heq
        simp only [if_true, hother]
        rfl
      · rw [if_neg heq, if_neg heq, getElem?_register hother]
        rfl
    · rw [List.getElem?_eq_none (by simpa [numSlots, withSlot] using hother),
        List.getElem?_eq_none (by simpa using hother)]
  rw [← hheader, ← hrows]
  rfl

end Bits

theorem Sound.maps (h : p.Sound) : p.register.Maps p.id p.numSlots p.fieldsAt where
  page := rfl
  length := length_register p
  few := by
    rw [numSlots, h.slots]
    exact Nat.le_trans (Layout.lower_le ..) (Nat.min_le_right ..)
  bits _ hslot := hasBit_header h.bits hslot
  row _ hslot := getElem?_register hslot
  others _ hslot := fieldsAt_behind hslot
  balance := balance_register h.bits

/-! ## Changes in place -/

section Changes

variable (bits : p.slots.length + p.stray.length = 8 * p.layout.headerLength)

include bits

/-- A row is put in as it is put into the page of slots, and has its place then. -/
theorem insert_register (row : Row) : Register.insert (row, p.register) = match p.insert row with
    | .ok (place, q) => (.ok place, (row.setPlace (some place), q.register))
    | .error e => (.error e, (row, p.register)) := by
  have hagrees : row.schema.agrees p.register.schema = row.schema.agrees p.schema := rfl
  unfold Register.insert
  rw [Step.bind_of_ok (Step.state_run _)]
  dsimp only
  rw [firstFree?_register bits]
  cases hagree : row.schema.agrees p.schema with
  | false => simp only [insert, hagrees, hagree, Bool.false_eq_true, if_false]; rfl
  | true =>
    cases hfree : p.firstFree? with
    | none => simp only [insert, hagrees, hagree, hfree, if_true]; rfl
    | some slot =>
      cases hencode : row.encode with
      | error e => simp only [insert, hagrees, hagree, hfree, hencode, if_true]; rfl
      | ok bs =>
        simp only [insert, hagrees, hagree, hfree, hencode, if_true]
        have hlt : slot < p.numSlots := by
          rw [firstFree?, List.findIdx?_eq_some_iff_getElem] at hfree
          exact hfree.1
        have hset := register_withSlot bits hlt (some row.fields)
        refine Eq.trans ?_ (congrArg (fun g => (Except.ok _, (_, g))) hset.symm)
        rfl

/-- A row is taken out as it is taken out of the page of slots. -/
theorem delete_register (row : Row) : Register.delete row p.register = match p.delete row.place with
    | .ok q => (.ok (), q.register)
    | .error e => (.error e, p.register) := by
  unfold Register.delete
  rw [Step.bind_of_ok (Step.state_run _)]
  cases hplace : row.place with
  | none => rfl
  | some place =>
    by_cases hpage : place.page = p.id
    · have hfilter : (some place).filter (fun place => place.page = p.register.page) = some place := by
        rw [Option.filter_some, if_pos (decide_eq_true (show place.page = p.register.page from hpage))]
      have hused : p.register.isUsed place.slot = p.isUsed place.slot := by
        rw [isUsed_register bits, isUsed, row?_eq, Option.isSome_map]
      rw [hfilter]
      simp only [delete, hpage, if_true]
      cases hslot : p.isUsed place.slot with
      | false =>
        rw [hslot] at hused
        simp only [Step.ofOption, Bool.false_eq_true, if_false]
        rw [Step.bind_of_ok (Step.done_run _ _), hused]
        rfl
      | true =>
        rw [hslot] at hused
        have hlt : place.slot < p.numSlots := by
          rw [Register.isUsed, length_register, Bool.and_eq_true, decide_eq_true_iff] at hused
          exact hused.1
        have hset := register_withSlot bits hlt none
        simp only [Step.ofOption, if_true]
        rw [Step.bind_of_ok (Step.done_run _ _), hused]
        refine Eq.trans ?_ (congrArg (Prod.mk (Except.ok ())) hset.symm)
        rfl
    · have hfilter : (some place).filter (fun place => place.page = p.register.page) = none := by
        rw [Option.filter_some, if_neg (mt of_decide_eq_true (show ¬ place.page = p.register.page from hpage))]
      rw [hfilter]
      simp only [delete, hpage, if_false]
      rfl

theorem insert_register_ok {row : Row} {place : RecordId} {s : Row × Register} :
    Register.insert (row, p.register) = (.ok place, s) ↔
      ∃ q, p.insert row = .ok (place, q) ∧ s = (row.setPlace (some place), q.register) := by
  rw [insert_register bits]
  cases p.insert row with
  | error e => simp
  | ok e => grind

theorem insert_register_error {row : Row} {e : Error} {s : Row × Register}
    (h : Register.insert (row, p.register) = (.error e, s)) : s = (row, p.register) := by
  rw [insert_register bits] at h
  cases hinsert : p.insert row with
  | error e' =>
    rw [hinsert] at h
    exact (congrArg Prod.snd h).symm
  | ok e' =>
    rw [hinsert] at h
    cases h

theorem delete_register_ok {row : Row} {g : Register} :
    Register.delete row p.register = (.ok (), g) ↔ ∃ q, p.delete row.place = .ok q ∧ g = q.register := by
  rw [delete_register bits]
  cases p.delete row.place with
  | error e => simp
  | ok q => grind

theorem delete_register_error {row : Row} {e : Error} {g : Register}
    (h : Register.delete row p.register = (.error e, g)) : g = p.register := by
  rw [delete_register bits] at h
  cases hdelete : p.delete row.place with
  | error e' =>
    rw [hdelete] at h
    exact (congrArg Prod.snd h).symm
  | ok q =>
    rw [hdelete] at h
    cases h

end Changes

/-! ## The law -/

/-- The lowest slot that is free. -/
structure LowestFree (p : Page) (slot : Nat) : Prop where
  lt : slot < p.numSlots
  free : p.fieldsAt slot = none
  front : ∀ other < slot, p.fieldsAt other ≠ none

theorem firstFree?_eq_some {slot : Nat} : p.firstFree? = some slot ↔ p.LowestFree slot := by
  rw [firstFree?, List.findIdx?_eq_some_iff_getElem]
  constructor
  · rintro ⟨hlt, hnone, hfront⟩
    refine ⟨hlt, ?_, fun other hother => ?_⟩
    · simpa [fieldsAt_getElem hlt] using hnone
    · simpa [fieldsAt_getElem (Nat.lt_trans hother hlt)] using hfront other hother
  · rintro ⟨hlt, hnone, hfront⟩
    have hlt : slot < p.slots.length := hlt
    refine ⟨hlt, ?_, fun other hother => ?_⟩
    · simpa [fieldsAt_getElem hlt] using hnone
    · simpa [fieldsAt_getElem (Nat.lt_trans hother hlt)] using hfront other hother

theorem insert_succeeds_iff {row : Row} (agrees : row.schema.types = p.schema.types) :
    (∃ place q, p.insert row = .ok (place, q)) ↔
      (∃ slot < p.numSlots, p.fieldsAt slot = none) ∧ ∀ f ∈ row.fields, f.Fits := by
  constructor
  · rintro ⟨place, q, hinsert⟩
    have hin := inserted_of_insert hinsert
    exact ⟨⟨place.slot, hin.lt, hin.was_free⟩, hin.encodes⟩
  · rintro ⟨⟨slot, hslot, hempty⟩, hfits⟩
    have hslot : slot < p.slots.length := hslot
    obtain ⟨bs, hbs⟩ := (Row.encodeFields_ok_iff row.fields).mpr hfits
    have hencode : row.encode = .ok bs := hbs
    have hagree : row.schema.agrees p.schema = true := (Schema.agrees_iff ..).mpr agrees
    cases hfree : p.firstFree? with
    | none =>
      rw [firstFree?, List.findIdx?_eq_none_iff] at hfree
      have hused := hfree _ (List.getElem_mem hslot)
      rw [← fieldsAt_getElem hslot, hempty] at hused
      cases hused
    | some first =>
      refine ⟨⟨p.id, first⟩, p.withSlot first (some row.fields), ?_⟩
      simp only [insert, hagree, hfree, hencode, if_true]
      rfl

theorem delete_succeeds_iff {row : Row} :
    (∃ q, p.delete row.place = .ok q) ↔
      ∃ place, row.place = some place ∧ place.page = p.id ∧ p.fieldsAt place.slot ≠ none := by
  constructor
  · rintro ⟨q, hdelete⟩
    cases hplace : row.place with
    | none =>
      rw [hplace] at hdelete
      cases hdelete
    | some place =>
      rw [hplace] at hdelete
      have hout := deleted_of_delete hdelete
      exact ⟨place, rfl, hout.page, Option.isSome_iff_ne_none.mp hout.used⟩
  · rintro ⟨place, hplace, hpage, hused⟩
    have hslot : p.isUsed place.slot = true := by
      rw [isUsed, row?_eq, Option.isSome_map]
      exact Option.isSome_iff_ne_none.mpr hused
    refine ⟨p.withSlot place.slot none, ?_⟩
    simp only [delete, hplace, hpage, hslot, if_true]
    rfl

/-- To take out what was just put in is to undo it, in the slots and so in the bytes. -/
theorem delete_of_insert {row : Row} {place : RecordId} (h : p.insert row = .ok (place, q)) :
    q.delete (some place) = .ok p := by
  have hin := inserted_of_insert h
  have hlt : place.slot < p.slots.length := hin.lt
  have hback : q.withSlot place.slot none = p := by
    have hfree : p.slots[place.slot] = none := (fieldsAt_getElem hlt).symm.trans hin.was_free
    rw [hin.result]
    simp only [withSlot, List.set_set, ← hfree, List.set_getElem_self]
  have hused : q.isUsed place.slot = true := by
    rw [isUsed, row?_eq, hin.result, fieldsAt_withSlot hlt, if_pos rfl]
    rfl
  have hpage : place.page = q.id := by
    rw [hin.result]
    exact hin.page
  simp only [delete, hpage, hused, if_true]
  exact congrArg Except.ok hback

/-- The page with one slot changed, which comes about in its turn, and its register. -/
structure Became (id : PageId) (schema : Schema) (size : Nat) (p : Page) (slot : Nat)
    (value : Option (List Field)) (g : Register) (q : Page) : Prop where
  reached : Reached id schema size q
  register : g = q.register
  count : q.numSlots = p.numSlots
  rows : ∀ other, q.fieldsAt other = if slot = other then value else p.fieldsAt other

theorem Reached.change (h : Reached id schema size p) {c : Change} (hc : p.change c = .ok q) :
    Reached id schema size q := by
  have hafter := h.after c
  rwa [Page.after, hc] at hafter

theorem became_of_withSlot {slot : Nat} (hlt : slot < p.numSlots) {value : Option (List Field)}
    (reached : Reached id schema size q) (hq : q = p.withSlot slot value) :
    Became id schema size p slot value q.register q := by
  refine ⟨reached, rfl, ?_, fun other => ?_⟩
  · rw [hq]
    exact List.length_set ..
  · rw [hq, fieldsAt_withSlot hlt]

/-- A page that came about in any way is a map from its slots to rows, and says so twice, by a bit and by
a row for each slot. A row of the page's types goes in if some slot is free and its strings have room, and
then into the lowest free slot; a row goes out if its place is a used slot of the page. No other slot
changes, and nothing at all if a change is refused; to put a row in and to take it out again leaves every
bit and byte as it was. -/
theorem a_page_is_a_map_from_slots_to_rows (h : Reached id schema size p) :
    p.register.Maps id p.numSlots p.fieldsAt ∧
    (p.register.held = p.rows ∧ p.register.numFree = p.numFree) ∧
    (∃ bs, p.data = .ok bs ∧ p.register.data = .ok bs) ∧
    (∀ row : Row, row.schema.types = schema.types →
      ((∃ place s, Register.insert (row, p.register) = (.ok place, s)) ↔
        (∃ slot < p.numSlots, p.fieldsAt slot = none) ∧ ∀ f ∈ row.fields, f.Fits)) ∧
    (∀ (row : Row) place s, row.Made → Register.insert (row, p.register) = (.ok place, s) →
      place.page = id ∧ p.LowestFree place.slot ∧ s.1 = row.setPlace (some place) ∧
      (∃ q, p.insert row = .ok (place, q) ∧ Became id schema size p place.slot (some row.fields) s.2 q) ∧
      Register.delete s.1 s.2 = (.ok (), p.register)) ∧
    (∀ row : Row, (∃ g, Register.delete row p.register = (.ok (), g)) ↔
      ∃ place, row.place = some place ∧ place.page = id ∧ p.fieldsAt place.slot ≠ none) ∧
    (∀ (row : Row) g, Register.delete row p.register = (.ok (), g) →
      ∃ place q, row.place = some place ∧ p.delete place = .ok q ∧
        Became id schema size p place.slot none g q) ∧
    (∀ row e s, Register.insert (row, p.register) = (.error e, s) → s = (row, p.register)) ∧
    ∀ row e g, Register.delete row p.register = (.error e, g) → g = p.register := by
  obtain ⟨rfl, rfl, rfl, hsound⟩ := h.stands
  have bits := hsound.bits
  refine ⟨hsound.maps, ⟨held_register p, numFree_register bits⟩, ?bytes, fun row agrees => ?inserts,
    fun row place s made run => ?inserted, fun row => ?deletes, fun row g run => ?deleted,
    fun _ _ _ => insert_register_error bits, fun _ _ _ => delete_register_error bits⟩
  case bytes =>
    obtain ⟨bs, hdata, -⟩ := hsound.data
    exact ⟨bs, hdata, (data_register p).trans hdata⟩
  case inserts =>
    rw [← insert_succeeds_iff agrees]
    simp only [insert_register_ok bits]
    grind
  case inserted =>
    obtain ⟨q, hinsert, rfl⟩ := (insert_register_ok bits).mp run
    have hin := inserted_of_insert hinsert
    have hreached : Reached p.id p.schema p.size q :=
      h.change (c := .insert row made) (by rw [Page.change, hinsert]; rfl)
    exact ⟨hin.page, firstFree?_eq_some.mp hin.free, rfl,
      ⟨q, hinsert, became_of_withSlot hin.lt hreached hin.result⟩,
      (delete_register_ok hreached.stands.sound.bits).mpr ⟨p, delete_of_insert hinsert, rfl⟩⟩
  case deletes =>
    rw [← delete_succeeds_iff]
    simp only [delete_register_ok bits]
    grind
  case deleted =>
    obtain ⟨q, hdelete, rfl⟩ := (delete_register_ok bits).mp run
    have hreached : Reached p.id p.schema p.size q := h.change (c := .delete row.place) hdelete
    obtain ⟨place, hplace, -, hused⟩ := delete_succeeds_iff.mp ⟨q, hdelete⟩
    obtain ⟨fields, hfields⟩ := Option.ne_none_iff_exists'.mp hused
    rw [hplace] at hdelete
    exact ⟨place, q, hplace, hdelete,
      became_of_withSlot (lt_of_fieldsAt hfields) hreached (deleted_of_delete hdelete).result⟩

/-- Fifteen slots for numbers, of which only the first behind a byte of the header is free. The last bit of
the header belongs to no slot. -/
def fifteenSlots : Page where
  id := ⟨1, 0⟩
  schema := ⟨[⟨"n", .int⟩]⟩
  size := 64
  slots := (List.range 15).map fun slot => if slot = 8 then none else some [.int 0]
  stray := [true]
  beforeImage := 255 :: 254 :: Bytes.zeros 62

def oneNumber : Row := { schema := fifteenSlots.schema, fields := [.int 5] }

theorem the_only_free_slot_is_behind_a_byte :
    Reached ⟨1, 0⟩ fifteenSlots.schema 64 fifteenSlots ∧ fifteenSlots.register.header = [255, 254] ∧
    ∃ s, Register.insert (oneNumber, fifteenSlots.register) = (.ok ⟨⟨1, 0⟩, 8⟩, s) ∧
      s.1 = oneNumber.setPlace (some ⟨⟨1, 0⟩, 8⟩) ∧ s.2.header = [255, 255] ∧ s.2.firstFree? = none ∧
      Register.delete s.1 s.2 = (.ok (), fifteenSlots.register) := by
  have hread : ofBytes ⟨1, 0⟩ fifteenSlots.schema 64 (255 :: 254 :: Bytes.zeros 62) = .ok fifteenSlots :=
    Step.eq_ok_of_toOption (by decide +kernel)
  have hreached : Reached ⟨1, 0⟩ fifteenSlots.schema 64 fifteenSlots := .ofBytes hread
  obtain ⟨-, -, -, inserts, inserted, -⟩ := a_page_is_a_map_from_slots_to_rows hreached
  obtain ⟨place, s, run⟩ := (inserts oneNumber rfl).mpr
    ⟨⟨8, by decide +kernel, by decide +kernel⟩, by simp [oneNumber, Field.Fits]⟩
  obtain ⟨-, -, hrow, -, hback⟩ := inserted oneNumber place s (Row.Typed.made rfl) run
  have hplace : (Register.insert (oneNumber, fifteenSlots.register)).1 = .ok ⟨⟨1, 0⟩, 8⟩ :=
    Step.eq_ok_of_toOption (by decide +kernel)
  rw [run] at hplace
  obtain rfl : place = ⟨⟨1, 0⟩, 8⟩ := Except.ok.inj hplace
  have hfull : (Register.insert (oneNumber, fifteenSlots.register)).2.2.header = [255, 255] ∧
      (Register.insert (oneNumber, fifteenSlots.register)).2.2.firstFree? = none := by decide +kernel
  rw [run] at hfull
  exact ⟨hreached, by decide +kernel, s, run, hrow, hfull.1, hfull.2, hback⟩

end Page

end PageStore
