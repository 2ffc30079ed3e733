-- Every page that comes about is read back from its bytes. A page begins as bytes,
-- of whatever origin, and is changed in its slots, in its mark and in its before
-- image; a change that is refused leaves it as it was. However long that goes on,
-- the page has its bytes, as many as a page is long, and they are the same page.
import PageStore.Proofs.Page.Slots

namespace PageStore.Page

/-- The ways to change a page. -/
inductive Change where
  | insert (r : Row) (made : r.Made)
  | delete (place : Option RecordId)
  | mark (who : Option TxId)
  | setBefore

/-- What a change makes of the page, if it is not refused. -/
def change (p : Page) : Change → Except Error Page
  | .insert r _ => (p.insert r).map Prod.snd
  | .delete place => p.delete place
  | .mark who => .ok (p.mark who)
  | .setBefore => p.setBefore

/-- The page after a change, be it refused or not. -/
def after (p : Page) (c : Change) : Page :=
  match p.change c with
  | .ok q => q
  | .error _ => p

/-- The pages that come about. -/
inductive Reached (id : PageId) (schema : Schema) (size : Nat) : Page → Prop
  | empty {p} (h : Page.empty id schema size = .ok p) : Reached id schema size p
  | ofBytes {bs p} (h : Page.ofBytes id schema size bs = .ok p) : Reached id schema size p
  | after {p} (h : Reached id schema size p) (c : Change) : Reached id schema size (p.after c)

/-- A page of this place, these columns and this size that can be written. -/
structure Stands (id : PageId) (schema : Schema) (size : Nat) (p : Page) : Prop where
  place : p.id = id
  columns : p.schema = schema
  wide : p.size = size
  sound : p.Sound

variable {id : PageId} {schema : Schema} {size : Nat} {p q : Page}

theorem Stands.withSlot (h : Stands id schema size p) (slot : Nat) {value : Option (List Field)}
    (hfit : ∀ fields, value = some fields → Row.Fit p.schema fields) :
    Stands id schema size (p.withSlot slot value) :=
  ⟨h.place, h.columns, h.wide, h.sound.withSlot slot hfit⟩

/-- What a change keeps, one case for each way to change a page. -/
theorem Stands.change {c : Change} (h : Stands id schema size p) (hq : p.change c = .ok q) :
    Stands id schema size q := by
  cases c with
  | insert r made =>
    obtain ⟨⟨place, q'⟩, hinsert, rfl⟩ : ∃ e, p.insert r = .ok e ∧ e.2 = q := by
      cases hr : p.insert r with
      | error e => simp [Page.change, hr, Except.map] at hq
      | ok e => exact ⟨e, rfl, by simpa [Page.change, hr, Except.map] using hq⟩
    have hin := inserted_of_insert hinsert
    rw [hin.result]
    refine h.withSlot place.slot ?_
    rintro fields ⟨⟩
    exact hin.fit made.typed
  | delete place =>
    cases place with
    | none => cases hq
    | some place =>
      rw [(deleted_of_delete hq).result]
      exact h.withSlot place.slot (by simp)
  | mark who =>
    cases hq
    exact ⟨h.place, h.columns, h.wide, h.sound.mark who⟩
  | setBefore =>
    obtain ⟨bs, -, rfl⟩ := setBefore_spec hq
    exact ⟨h.place, h.columns, h.wide, h.sound.slots, h.sound.bits, h.sound.rows⟩

theorem Stands.after (h : Stands id schema size p) (c : Change) : Stands id schema size (p.after c) := by
  unfold Page.after
  split
  · rename_i q hq
    exact h.change hq
  · exact h

theorem stands_of_ofBytes {bs : Bytes} (h : ofBytes id schema size bs = .ok p) :
    Stands id schema size p :=
  have hread := read_of_ofBytes h
  ⟨hread.place, hread.columns, hread.wide, hread.sound⟩

theorem Reached.stands (h : Reached id schema size p) : Stands id schema size p := by
  induction h with
  | empty h => exact stands_of_ofBytes h
  | ofBytes h => exact stands_of_ofBytes h
  | after _ c ih => exact ih.after c

/-! ## The law -/

/-- A page has its bytes, as many as a page is long, and reading them gives a page with the same header,
the same slots in use and the same rows at the same places, which has the same bytes again. -/
theorem a_page_is_read_back_from_its_bytes (h : Reached id schema size p) :
    ∃ bs q, p.data = .ok bs ∧ bs.length = size ∧ ofBytes id schema size bs = .ok q ∧
      q.same p = true ∧ q.header = p.header ∧ (∀ slot, q.isUsed slot = p.isUsed slot) ∧
      q.rows = p.rows ∧ q.data = .ok bs := by
  obtain ⟨rfl, rfl, rfl, hsound⟩ := h.stands
  obtain ⟨bs, hdata, hlen, hread⟩ := hsound.data
  refine ⟨bs, _, hdata, hlen, hread, ?_, rfl, fun _ => rfl, rfl, hdata⟩
  simp [same, Schema.agrees, header, layout]

/-- Room for two strings, and six bits of the header that belong to no slot. -/
def twoStrings : Page where
  id := ⟨1, 0⟩
  schema := ⟨[⟨"name", .str⟩]⟩
  size := 266
  slots := [none, none]
  stray := [false, false, false, false, true, true]
  beforeImage := 192 :: Bytes.zeros 265

/-- A row of one string of `n` letters. -/
def oneString (n : Nat) : Row :=
  { schema := twoStrings.schema, fields := [.str (String.ofList (List.replicate n 'x'))] }

theorem made_oneString (n : Nat) : (oneString n).Made := Row.Typed.made rfl

/-- One string that has just room, one that has not, and a mark. -/
def afterThree : Page :=
  ((twoStrings.after (.insert _ (made_oneString 128))).after
    (.insert _ (made_oneString 129))).after (.mark (some 7))

theorem a_string_that_fills_its_room_is_read_back :
    Reached ⟨1, 0⟩ twoStrings.schema 266 afterThree ∧
    afterThree.rows = [{ oneString 128 with place := some ⟨⟨1, 0⟩, 0⟩ }] ∧
    ∃ bs q, afterThree.data = .ok bs ∧ bs.length = 266 ∧
      ofBytes ⟨1, 0⟩ twoStrings.schema 266 bs = .ok q ∧ q.header = afterThree.header ∧
      q.rows = afterThree.rows ∧ q.data = .ok bs := by
  have hopens : (ofBytes ⟨1, 0⟩ twoStrings.schema 266 (192 :: Bytes.zeros 265)).toOption =
      some twoStrings := by decide +kernel
  have hread : ofBytes ⟨1, 0⟩ twoStrings.schema 266 (192 :: Bytes.zeros 265) = .ok twoStrings := by
    cases h : ofBytes ⟨1, 0⟩ twoStrings.schema 266 (192 :: Bytes.zeros 265) with
    | error e => simp [h, Except.toOption] at hopens
    | ok page => simpa [h, Except.toOption] using hopens
  have hreached : Reached ⟨1, 0⟩ twoStrings.schema 266 afterThree :=
    (((Reached.ofBytes hread).after _).after _).after _
  obtain ⟨bs, q, hdata, hlen, hback, -, hheader, -, hrows, hagain⟩ :=
    a_page_is_read_back_from_its_bytes hreached
  exact ⟨hreached, by decide +kernel, bs, q, hdata, hlen, hback, hheader, hrows, hagain⟩

end PageStore.Page
