-- A page and its bytes. A page that is sound can be written, and what was written
-- is read back as the same page, its stray bits and all. What is read from bytes
-- is sound, so a page that was read, changed in its slots and written is never
-- refused.
import PageStore.Page.Basic
import PageStore.Proofs.Row

namespace PageStore.Page

/-- As many slots as the page has room for, one bit of the header for each, and rows that can be
written. -/
structure Sound (p : Page) : Prop where
  slots : p.slots.length = p.layout.slots
  bits : p.slots.length + p.stray.length = 8 * p.layout.headerLength
  rows : ∀ fields, some fields ∈ p.slots → Row.Fit p.schema fields

/-! ## Room -/

theorem slots_le_headerLength (l : Layout) : l.slots ≤ 8 * l.headerLength := by
  unfold Layout.headerLength Layout.headerBytes
  omega

/-- The header and the rows end before the page does. -/
theorem layout_fits (pageSize rowSize : Nat) :
    (Layout.of pageSize rowSize).headerLength + (Layout.of pageSize rowSize).slots * rowSize ≤ pageSize := by
  have h := Layout.fits_lower pageSize rowSize (min (pageSize * 8 / (rowSize * 8 + 1)) Layout.maxSlots)
  simpa [Layout.fits, Layout.of, Layout.headerLength] using h

/-! ## Slots -/

theorem encodeSlots_of_fit {schema : Schema} {slots : List (Option (List Field))}
    (h : ∀ fields, some fields ∈ slots → Row.Fit schema fields) :
    ∃ body, encodeSlots schema.byteSize slots = .ok body ∧
      body.length = slots.length * schema.byteSize ∧
      ∀ slot rest, decodeSlots schema schema.byteSize slot (slots.map Option.isSome) (body ++ rest) =
        .ok slots := by
  induction slots with
  | nil => exact ⟨[], rfl, by simp, fun _ _ => rfl⟩
  | cons head slots ih =>
    obtain ⟨body, hbody, hlen, hread⟩ := ih fun fields hf => h fields (List.mem_cons_of_mem _ hf)
    cases head with
    | none =>
      refine ⟨Bytes.zeros schema.byteSize ++ body, ?_, ?_, ?_⟩
      · simp [encodeSlots, hbody, Except.map]
      · simp [hlen, Nat.succ_mul, Nat.add_comm]
      · intro slot rest
        have hdrop : (Bytes.zeros schema.byteSize ++ (body ++ rest)).drop schema.byteSize =
            body ++ rest := List.drop_left' (by simp)
        simp [decodeSlots, hdrop, hread, Except.map]
    | some fields =>
      obtain ⟨htypes, hfits⟩ := h fields (List.mem_cons_self ..)
      obtain ⟨front, hfront⟩ := (Row.encodeFields_ok_iff fields).mpr hfits
      have hwidth : front.length = schema.byteSize := by
        rw [Row.length_of_encodeFields hfront, htypes, Schema.byteSize]
      refine ⟨front ++ body, ?_, ?_, ?_⟩
      · simp [encodeSlots, hfront, hbody, Except.map]
      · simp [hlen, hwidth, Nat.succ_mul, Nat.add_comm]
      · intro slot rest
        have htake : (front ++ (body ++ rest)).take schema.byteSize = front := List.take_left' hwidth
        have hdrop : (front ++ (body ++ rest)).drop schema.byteSize = body ++ rest :=
          List.drop_left' hwidth
        have hrow := Row.decodeFields_append hfront []
        rw [htypes, List.append_nil] at hrow
        simp [decodeSlots, htake, hdrop, hrow, hread, Except.map]

theorem fit_of_decodeSlots {schema : Schema} {width slot : Nat} {flags : List Bool} {bs : Bytes}
    {slots : List (Option (List Field))} (h : decodeSlots schema width slot flags bs = .ok slots) :
    slots.length = flags.length ∧ ∀ fields, some fields ∈ slots → Row.Fit schema fields := by
  induction flags generalizing slot bs slots with
  | nil =>
    cases h
    exact ⟨rfl, by simp⟩
  | cons flag flags ih =>
    cases flag with
    | false =>
      simp only [decodeSlots] at h
      cases hr : decodeSlots schema width (slot + 1) flags (bs.drop width) with
      | error e => simp [hr, Except.map] at h
      | ok others =>
        simp only [hr, Except.map, Except.ok.injEq] at h
        subst h
        obtain ⟨hlen, hfit⟩ := ih hr
        exact ⟨by simp [hlen], by simpa using hfit⟩
    | true =>
      simp only [decodeSlots] at h
      rcases hf : Row.decodeFields schema.types (bs.take width) with e | ⟨fields, left⟩
      · simp [hf] at h
      · cases hr : decodeSlots schema width (slot + 1) flags (bs.drop width) with
        | error e => simp [hf, hr, Except.map] at h
        | ok others =>
          simp only [hf, hr, Except.map, Except.ok.injEq] at h
          subst h
          obtain ⟨hlen, hfit⟩ := ih hr
          refine ⟨by simp [hlen], ?_⟩
          intro fields' hmem
          rcases List.mem_cons.mp hmem with heq | hmem
          · cases heq
            exact Row.fit_of_decodeFields hf
          · exact hfit fields' hmem

theorem decodeSlots_of_free (schema : Schema) (width slot n : Nat) (bs : Bytes) :
    decodeSlots schema width slot (List.replicate n false) bs = .ok (List.replicate n none) := by
  induction n generalizing slot bs with
  | zero => rfl
  | succ n ih => simp [List.replicate_succ, decodeSlots, ih, Except.map]

/-! ## Reading -/

/-- What reading gives: nothing of the page comes from anywhere but its place, its file and its bytes. -/
structure Read (id : PageId) (schema : Schema) (size : Nat) (bs : Bytes) (p : Page) : Prop where
  place : p.id = id
  columns : p.schema = schema
  wide : p.size = size
  clean : p.dirtiedBy = none
  image : p.beforeImage = bs
  length : bs.length = size
  sound : p.Sound

theorem read_of_ofBytes {id : PageId} {schema : Schema} {size : Nat} {bs : Bytes} {p : Page}
    (h : ofBytes id schema size bs = .ok p) : Read id schema size bs p := by
  unfold ofBytes at h
  split at h
  · cases h
  · rename_i hlen
    have hlen : bs.length = size := Classical.not_not.mp hlen
    simp only at h
    split at h
    · cases h
    · rename_i slots hslots
      cases h
      obtain ⟨hcount, hfit⟩ := fit_of_decodeSlots hslots
      have hroom := layout_fits size schema.byteSize
      have hbits := slots_le_headerLength (Layout.of size schema.byteSize)
      refine ⟨rfl, rfl, rfl, rfl, rfl, hlen, ⟨?_, ?_, hfit⟩⟩
      · rw [hcount]
        simp only [layout, List.length_take, Bytes.length_bits]
        omega
      · rw [hcount]
        simp only [layout, List.length_take, List.length_drop, Bytes.length_bits]
        omega

/-- Bytes that are all zero are a page of free slots. -/
theorem ofBytes_zeros (id : PageId) (schema : Schema) (size : Nat) :
    ∃ p, ofBytes id schema size (Bytes.zeros size) = .ok p ∧
      p.slots = List.replicate (Layout.of size schema.byteSize).slots none := by
  have hroom := layout_fits size schema.byteSize
  have hbits := slots_le_headerLength (Layout.of size schema.byteSize)
  have hzero : ∀ n, Bytes.bits (Bytes.zeros n) = List.replicate (8 * n) false := by
    intro n
    rw [List.eq_replicate_iff]
    refine ⟨by simp, ?_⟩
    intro b hb
    obtain ⟨byte, hbyte, hb⟩ := List.mem_flatMap.mp hb
    rw [List.eq_of_mem_replicate hbyte] at hb
    obtain ⟨i, -, rfl⟩ := List.mem_map.mp hb
    simp
  have htake : (Bytes.zeros size).take (Layout.of size schema.byteSize).headerLength =
      Bytes.zeros (Layout.of size schema.byteSize).headerLength := by
    rw [Bytes.zeros, List.take_replicate, Nat.min_eq_left (by omega)]
    rfl
  simp only [ofBytes, Bytes.length_zeros, ne_eq, not_true_eq_false, if_false, htake, hzero,
    List.take_replicate, Nat.min_eq_left hbits, decodeSlots_of_free]
  exact ⟨_, rfl, rfl⟩

/-! ## Writing -/

/-- A sound page has its bytes, and they are read back as the page, clean and with these bytes as
its before image. -/
theorem Sound.data {p : Page} (h : p.Sound) :
    ∃ bs, p.data = .ok bs ∧ bs.length = p.size ∧
      ofBytes p.id p.schema p.size bs = .ok { p with dirtiedBy := none, beforeImage := bs } := by
  have hrow : p.layout.rowSize = p.schema.byteSize := rfl
  obtain ⟨body, hbody, hlen, hread⟩ := encodeSlots_of_fit h.rows
  have hroom := layout_fits p.size p.schema.byteSize
  have hheader : p.header.length = p.layout.headerLength := by simp [header]
  have hfill : p.header.length + body.length ≤ p.size := by
    rw [hheader, hlen, h.slots]
    exact hroom
  have hfit : Bytes.fit p.size (p.header ++ body) =
      p.header ++ (body ++ Bytes.zeros (p.size - (p.header ++ body).length)) := by
    rw [Bytes.fit, List.take_of_length_le (by simpa using hfill), List.append_assoc]
  refine ⟨Bytes.fit p.size (p.header ++ body), ?_, by simp, ?_⟩
  · simp [Page.data, hrow, hbody, Except.map]
  · have htake : (Bytes.fit p.size (p.header ++ body)).take p.layout.headerLength = p.header := by
      rw [hfit, List.take_left' hheader]
    have hdrop : (Bytes.fit p.size (p.header ++ body)).drop p.layout.headerLength =
        body ++ Bytes.zeros (p.size - (p.header ++ body).length) := by
      rw [hfit, List.drop_left' hheader]
    have hflags : Bytes.bits p.header = p.slots.map Option.isSome ++ p.stray := by
      apply Bytes.bits_ofBits
      simpa using h.bits
    have hslots : (p.slots.map Option.isSome).length = p.layout.slots := by simpa using h.slots
    have hsame : Layout.of p.size p.schema.byteSize = p.layout := rfl
    simp only [ofBytes, Bytes.length_fit, ne_eq, not_true_eq_false, if_false, hsame, htake, hdrop,
      hflags, List.take_left' hslots, List.drop_left' hslots, hrow, hread]

end PageStore.Page
