-- What a change of a page is: one slot gets another content, and all else stays.
-- Putting a row in fills the lowest free slot, taking one out frees its own.
import PageStore.Proofs.Page.Codec

namespace PageStore.Page

/-- The values in a slot; none if the slot is free or there is no such slot. -/
def fieldsAt (p : Page) (slot : Nat) : Option (List Field) := p.slots[slot]?.join

/-- The page with one slot changed. -/
def withSlot (p : Page) (slot : Nat) (value : Option (List Field)) : Page :=
  { p with slots := p.slots.set slot value }

theorem fieldsAt_withSlot {p : Page} {slot : Nat} (h : slot < p.slots.length)
    (value : Option (List Field)) (other : Nat) :
    (p.withSlot slot value).fieldsAt other = if slot = other then value else p.fieldsAt other := by
  unfold fieldsAt withSlot
  rw [List.getElem?_set]
  split
  · rename_i heq
    subst heq
    simp
  · rfl

@[simp] theorem fieldsAt_mark (p : Page) (who : Option TxId) (slot : Nat) :
    (p.mark who).fieldsAt slot = p.fieldsAt slot := rfl

theorem lt_of_fieldsAt {p : Page} {slot : Nat} {fields : List Field}
    (h : p.fieldsAt slot = some fields) : slot < p.slots.length := by
  refine Nat.lt_of_not_le fun hge => ?_
  rw [fieldsAt, List.getElem?_eq_none hge] at h
  cases h

theorem Sound.withSlot {p : Page} (h : p.Sound) (slot : Nat) {value : Option (List Field)}
    (hfit : ∀ fields, value = some fields → Row.Fit p.schema fields) : (p.withSlot slot value).Sound where
  slots := by
    rw [Page.withSlot, List.length_set]
    exact h.slots
  bits := by
    rw [Page.withSlot, List.length_set]
    exact h.bits
  rows := by
    intro fields hmem
    rcases List.mem_or_eq_of_mem_set hmem with hold | hnew
    · exact h.rows fields hold
    · exact hfit fields hnew.symm

theorem Sound.mark {p : Page} (h : p.Sound) (who : Option TxId) : (p.mark who).Sound :=
  ⟨h.slots, h.bits, h.rows⟩

/-- The rows of a page are what stands in its slots. -/
theorem mem_rows {p : Page} {row : Row} :
    row ∈ p.rows ↔ ∃ slot fields, p.fieldsAt slot = some fields ∧ row = p.rowAt slot fields := by
  simp only [rows, List.mem_filterMap, List.mem_zipIdx_iff_getElem?, Option.map_eq_some_iff, Prod.exists,
    fieldsAt, Option.join_eq_some_iff]
  constructor
  · rintro ⟨value, slot, hvalue, fields, rfl, rfl⟩
    exact ⟨slot, fields, hvalue, rfl⟩
  · rintro ⟨slot, fields, hvalue, rfl⟩
    exact ⟨some fields, slot, hvalue, fields, rfl, rfl⟩

/-- Each row of a page has a place on it. -/
theorem place_of_mem_rows {p : Page} {row : Row} (h : row ∈ p.rows) :
    ∃ slot, row.place = some ⟨p.id, slot⟩ := by
  obtain ⟨slot, fields, -, rfl⟩ := mem_rows.mp h
  exact ⟨slot, rfl⟩

/-! ## Rows in and out -/

/-- What it takes to put a row in, and what comes of it. -/
structure Inserted (p : Page) (r : Row) (place : RecordId) (q : Page) : Prop where
  page : place.page = p.id
  free : p.firstFree? = some place.slot
  agrees : r.schema.types = p.schema.types
  encodes : ∀ f ∈ r.fields, f.Fits
  result : q = p.withSlot place.slot (some r.fields)

theorem inserted_of_insert {p q : Page} {r : Row} {place : RecordId}
    (h : p.insert r = .ok (place, q)) : Inserted p r place q := by
  unfold insert at h
  split at h
  · rename_i hagrees
    split at h
    · cases h
    · rename_i slot hfree
      split at h
      · cases h
      · rename_i bs hbs
        cases h
        exact ⟨rfl, hfree, (Schema.agrees_iff _ _).mp hagrees,
          (Row.encodeFields_ok_iff _).mp ⟨bs, hbs⟩, rfl⟩
  · cases h

theorem Inserted.lt {p q : Page} {r : Row} {place : RecordId} (h : Inserted p r place q) :
    place.slot < p.slots.length := by
  have := h.free
  rw [firstFree?, List.findIdx?_eq_some_iff_getElem] at this
  exact this.1

/-- The slot that takes a row was free. -/
theorem Inserted.was_free {p q : Page} {r : Row} {place : RecordId} (h : Inserted p r place q) :
    p.fieldsAt place.slot = none := by
  have hfree := h.free
  rw [firstFree?, List.findIdx?_eq_some_iff_getElem] at hfree
  obtain ⟨hlt, hnone, -⟩ := hfree
  rw [fieldsAt, List.getElem?_eq_getElem hlt]
  simpa using hnone

/-- The values of a row that was put in fit the page. -/
theorem Inserted.fit {p q : Page} {r : Row} {place : RecordId} (h : Inserted p r place q)
    (typed : r.Typed) : Row.Fit p.schema r.fields := ⟨typed.trans h.agrees, h.encodes⟩

/-- What it takes to take a row out, and what comes of it. -/
structure Deleted (p : Page) (place : RecordId) (q : Page) : Prop where
  page : place.page = p.id
  used : (p.fieldsAt place.slot).isSome
  result : q = p.withSlot place.slot none

theorem deleted_of_delete {p q : Page} {place : RecordId} (h : p.delete (some place) = .ok q) :
    Deleted p place q := by
  simp only [delete] at h
  split at h
  · rename_i hpage
    split at h
    · rename_i hused
      cases h
      refine ⟨hpage, ?_, rfl⟩
      simpa [isUsed, row?, fieldsAt] using hused
    · cases h
  · cases h

/-! ## Before image -/

theorem setBefore_spec {p q : Page} (h : p.setBefore = .ok q) :
    ∃ bs, p.data = .ok bs ∧ q = { p with beforeImage := bs } := by
  unfold Page.setBefore at h
  cases hdata : p.data with
  | error e =>
    rw [hdata] at h
    cases h
  | ok bs =>
    rw [hdata] at h
    exact ⟨bs, rfl, (Except.ok.inj h).symm⟩

end PageStore.Page
