-- One page of a table in memory: its slots, who changed it, and the bytes to
-- which it goes back. A slot's number is its place in the list of slots, so the
-- place of a row is known from where it stands.
import PageStore.Row
import PageStore.Page.Layout

namespace PageStore

structure Page where
  id : PageId
  schema : Schema
  size : Nat
  /-- The values of the row in each slot. -/
  slots : List (Option (List Field))
  /-- The bits of the header that belong to no slot; they are kept as they were read. -/
  stray : List Bool
  dirtiedBy : Option TxId := none
  beforeImage : Bytes
  deriving Repr, DecidableEq

namespace Page

def layout (p : Page) : Layout := .of p.size p.schema.byteSize

/-! ## Slots -/

/-- Values as the row that stands in a slot. -/
def rowAt (p : Page) (slot : Nat) (fields : List Field) : Row :=
  { schema := p.schema, fields, place := some ⟨p.id, slot⟩ }

/-- The row in a slot, with its place. -/
def row? (p : Page) (slot : Nat) : Option Row := (p.slots[slot]?.join).map (p.rowAt slot)

def isUsed (p : Page) (slot : Nat) : Bool := (p.row? slot).isSome

def numSlots (p : Page) : Nat := p.slots.length

def numFree (p : Page) : Nat := p.slots.countP Option.isNone

def firstFree? (p : Page) : Option Nat := p.slots.findIdx? Option.isNone

/-- The rows in slot order. -/
def rows (p : Page) : List Row := p.slots.zipIdx.filterMap fun e => e.1.map (p.rowAt e.2)

/-! ## Bytes -/

/-- The bytes in front: a bit for each slot that is used, then the stray bits. -/
def header (p : Page) : Bytes :=
  Bytes.ofBits p.layout.headerLength (p.slots.map Option.isSome ++ p.stray)

/-- The rows of the slots whose flag is set, read from `bs`, where the first of these slots begins. -/
def decodeSlots (schema : Schema) (width : Nat) :
    Nat → List Bool → Bytes → Except PageFault (List (Option (List Field)))
  | _, [], _ => .ok []
  | slot, false :: flags, bs =>
    (decodeSlots schema width (slot + 1) flags (bs.drop width)).map (none :: ·)
  | slot, true :: flags, bs =>
    match Row.decodeFields schema.types (bs.take width) with
    | .error fault => .error (.slot slot fault)
    | .ok (fields, _) =>
      (decodeSlots schema width (slot + 1) flags (bs.drop width)).map (some fields :: ·)

/-- Reads a page from its bytes, of which there must be exactly `size`. -/
def ofBytes (id : PageId) (schema : Schema) (size : Nat) (bs : Bytes) : Except Error Page :=
  if bs.length ≠ size then .error (.corruptPage id (.length size bs.length))
  else
    let layout := Layout.of size schema.byteSize
    let flags := Bytes.bits (bs.take layout.headerLength)
    match decodeSlots schema layout.rowSize 0 (flags.take layout.slots) (bs.drop layout.headerLength) with
    | .error fault => .error (.corruptPage id fault)
    | .ok slots => .ok { id, schema, size, slots, stray := flags.drop layout.slots, beforeImage := bs }

/-- A page whose slots are all free; its bytes are all zero. -/
def empty (id : PageId) (schema : Schema) (size : Nat) : Except Error Page :=
  ofBytes id schema size (Bytes.zeros size)

def encodeSlots (width : Nat) : List (Option (List Field)) → Except Error Bytes
  | [] => .ok []
  | none :: slots => (encodeSlots width slots).map (Bytes.zeros width ++ ·)
  | some fields :: slots =>
    match Row.encodeFields fields with
    | .error e => .error e
    | .ok front => (encodeSlots width slots).map (front ++ ·)

/-- The bytes of the page. -/
def data (p : Page) : Except Error Bytes :=
  (encodeSlots p.layout.rowSize p.slots).map fun body => Bytes.fit p.size (p.header ++ body)

/-! ## Changes -/

/-- Puts a row into the lowest free slot and gives its place. A row whose values cannot be written
is refused before it takes a slot. -/
def insert (p : Page) (r : Row) : Except Error (RecordId × Page) :=
  if r.schema.agrees p.schema then
    match p.firstFree? with
    | none => .error (.pageFull p.id)
    | some slot =>
      match r.encode with
      | .error e => .error e
      | .ok _ => .ok (⟨p.id, slot⟩, { p with slots := p.slots.set slot (some r.fields) })
  else .error (p.schema.mismatch r.schema)

/-- Values in the lowest `n` free slots, or in all free slots if there are fewer. -/
def fillFree (fields : List Field) : Nat → List (Option (List Field)) → List (Option (List Field))
  | 0, slots => slots
  | _ + 1, [] => []
  | n + 1, none :: slots => some fields :: fillFree fields n slots
  | n + 1, some taken :: slots => some taken :: fillFree fields (n + 1) slots

/-- Puts a row into the page `n` times. What keeps one insert from succeeding ends it; the rows that
were put in before stay. A row that could not be made is an error only when it is wanted. -/
def insertCopies (row : Except Error Row) (n : Nat) (p : Page) : Except Error Unit × Page :=
  if n = 0 then (.ok (), p)
  else match row with
    | .error e => (.error e, p)
    | .ok r =>
      match p.insert r with
      | .error e => (.error e, p)
      | .ok _ =>
        let filled := { p with slots := fillFree r.fields n p.slots }
        (if n ≤ p.numFree then .ok () else .error (.pageFull p.id), filled)

/-- Frees the slot that a row's place names. -/
def delete (p : Page) (place : Option RecordId) : Except Error Page :=
  match place with
  | none => .error (.notOnPage p.id)
  | some place =>
    if place.page = p.id then
      if p.isUsed place.slot then .ok { p with slots := p.slots.set place.slot none }
      else .error (.slotEmpty p.id place.slot)
    else .error (.notOnPage p.id)

/-- Notes who changed the page, or that it is as it is on disk. -/
def mark (p : Page) (who : Option TxId) : Page := { p with dirtiedBy := who }

/-! ## Before image -/

/-- The page as it was when it was read or last written. -/
def before (p : Page) : Except Error Page := ofBytes p.id p.schema p.size p.beforeImage

/-- What the page holds now becomes its before image. -/
def setBefore (p : Page) : Except Error Page := p.data.map fun bs => { p with beforeImage := bs }

/-- Same place, same header, same rows. Who changed a page and its before image do not count. -/
def same (p q : Page) : Bool :=
  p.id = q.id && p.header = q.header && p.schema.agrees q.schema && p.slots = q.slots

/-! ## Laws of filling -/

/-- Filling one more slot is filling the lowest free one and then the others. -/
theorem fillFree_succ {fields : List Field} {slots : List (Option (List Field))} {i : Nat}
    (h : slots.findIdx? Option.isNone = some i) (n : Nat) :
    fillFree fields (n + 1) slots = fillFree fields n (slots.set i (some fields)) := by
  induction slots generalizing i with
  | nil => simp at h
  | cons slot rest ih =>
    cases slot with
    | none =>
      rw [List.findIdx?_cons] at h
      obtain rfl : 0 = i := by simpa using h
      cases n <;> simp [fillFree]
    | some taken =>
      simp only [List.findIdx?_cons, Option.isNone_some, Bool.false_eq_true, if_false,
        Option.map_eq_some_iff] at h
      obtain ⟨j, hj, rfl⟩ := h
      simp only [fillFree, List.set_cons_succ, ih hj]
      cases n <;> simp [fillFree]

theorem fillFree_of_full (fields : List Field) (n : Nat) {slots : List (Option (List Field))}
    (h : slots.countP Option.isNone = 0) : fillFree fields n slots = slots := by
  induction slots with
  | nil => cases n <;> rfl
  | cons slot rest ih =>
    cases slot with
    | none => simp at h
    | some taken =>
      have hrest := ih (by simpa using h)
      cases n <;> simp_all [fillFree]

/-- Filling the lowest free slot leaves one free slot less. -/
theorem countP_set_firstFree (fields : List Field) {slots : List (Option (List Field))} {i : Nat}
    (h : slots.findIdx? Option.isNone = some i) :
    slots.countP Option.isNone = (slots.set i (some fields)).countP Option.isNone + 1 := by
  induction slots generalizing i with
  | nil => simp at h
  | cons slot rest ih =>
    cases slot with
    | none =>
      rw [List.findIdx?_cons] at h
      obtain rfl : 0 = i := by simpa using h
      simp
    | some taken =>
      simp only [List.findIdx?_cons, Option.isNone_some, Bool.false_eq_true, if_false,
        Option.map_eq_some_iff] at h
      obtain ⟨j, hj, rfl⟩ := h
      simpa using ih hj

/-- Filling slots in one pass is the same as one insert after the other. -/
theorem insertCopies_succ {p q : Page} {r : Row} {place : RecordId}
    (h : p.insert r = .ok (place, q)) (n : Nat) :
    insertCopies (.ok r) (n + 1) p = insertCopies (.ok r) n q := by
  have hq := h
  unfold insert at hq
  split at hq
  · rename_i ha
    split at hq
    · cases hq
    · rename_i slot hs
      split at hq
      · cases hq
      · rename_i bs he
        obtain ⟨rfl, rfl⟩ := Prod.mk.inj (Except.ok.inj hq)
        have hs' : p.slots.findIdx? Option.isNone = some slot := hs
        have hcount := countP_set_firstFree r.fields hs'
        simp only [insertCopies, h, Nat.add_one_ne_zero, if_false, fillFree_succ hs' n, numFree]
        cases n with
        | zero => simp [fillFree, hcount]
        | succ n =>
          simp only [insert, ha, he, if_true, firstFree?, Nat.add_one_ne_zero, if_false]
          cases hf : (p.slots.set slot (some r.fields)).findIdx? Option.isNone with
          | none =>
            have hz : (p.slots.set slot (some r.fields)).countP Option.isNone = 0 := by
              rw [List.countP_eq_zero]
              rw [List.findIdx?_eq_none_iff] at hf
              intro x hx
              simp [hf x hx]
            simp [fillFree_of_full r.fields (n + 1) hz, hcount, hz]
          | some j =>
            by_cases hn : n + 1 ≤ (p.slots.set slot (some r.fields)).countP Option.isNone <;>
              simp [hcount, hn]
  · cases hq

end Page

end PageStore
