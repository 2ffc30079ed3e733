-- The stored list of tables and its bytes. A list of definitions that can be written is
-- read back, whatever follows it, and what is read is always what would be written.
-- Each kind of value is settled once, and the kinds made of others are put together.
import PageStore.Catalog.Definition
import PageStore.Proofs.Step

namespace PageStore

namespace TableDefinition

/-- A value that can be written is read back from in front of whatever follows, and what is read is
what would be written. -/
structure Exact {α : Type} (decode : Reader α) (encode : α → Bytes) (Writable : α → Prop) : Prop where
  reads : ∀ {a} rest, Writable a → decode (encode a ++ rest) = .ok (a, rest)
  only : ∀ {bs a rest}, decode bs = .ok (a, rest) → Writable a ∧ bs = encode a ++ rest

/-! ## Numbers and texts -/

theorem exact_number (width : Nat) :
    Exact (decodeNumber width) (Bytes.littleEndian width) fun n => n < Nat.pow 256 width where
  reads {n} rest h := by
    have hlength : (Bytes.littleEndian width n).length = width := Bytes.length_littleEndian width n
    unfold decodeNumber
    rw [if_neg (by rw [List.length_append, hlength]; omega), List.take_left' hlength, List.drop_left' hlength,
      Bytes.ofLittleEndian_littleEndian, Nat.mod_eq_of_lt h]
  only {bs n rest} h := by
    unfold decodeNumber at h
    split at h
    · cases h
    · rename_i hwidth
      cases h
      have hlength : (bs.take width).length = width := List.length_take_of_le (Nat.not_lt.mp hwidth)
      have hlt := Bytes.ofLittleEndian_lt (bs.take width)
      have hsame := Bytes.littleEndian_ofLittleEndian (bs.take width)
      rw [hlength] at hlt hsame
      exact ⟨hlt, by rw [hsame, List.take_append_drop]⟩

/-- A text whose length has room in front of it. -/
def WritableText (s : String) : Prop := (Utf8.encode s).length < Nat.pow 256 8

theorem exact_text : Exact decodeText encodeText WritableText where
  reads {s} rest h := by
    have hlength := (exact_number 8).reads (Utf8.encode s ++ rest) h
    simp only [decodeText, encodeText, encodeLength, List.append_assoc, hlength, bind, Except.bind]
    rw [if_neg (by rw [List.length_append]; omega), List.take_left' rfl, List.drop_left' rfl, Utf8.decode_encode]
  only {bs s rest} h := by
    obtain ⟨⟨n, bs'⟩, hnumber, htext⟩ := Step.exists_of_bind h
    obtain ⟨hn, rfl⟩ := (exact_number 8).only hnumber
    dsimp only at htext
    split at htext
    · cases htext
    · rename_i hle
      split at htext
      · rename_i hdecode
        cases htext
        have hbytes := Utf8.encode_of_decode hdecode
        have hlength : (Utf8.encode s).length = n := by
          rw [hbytes]
          exact List.length_take_of_le (Nat.not_lt.mp hle)
        refine ⟨Nat.lt_of_le_of_lt (Nat.le_of_eq hlength) hn, ?_⟩
        rw [encodeText, encodeLength, hlength, hbytes, List.append_assoc, List.take_append_drop]
      · cases htext

/-! ## Columns, lists and definitions -/

theorem exact_type : Exact decodeType (fun t => encodeNumber (typeIndex t)) fun _ => True where
  reads {t} rest _ := by
    have hlt : typeIndex t < Nat.pow 256 4 := by cases t <;> decide
    have hindex := (exact_number 4).reads rest hlt
    simp only [decodeType, encodeNumber, hindex, bind, Except.bind]
    cases t <;> rfl
  only {bs t rest} h := by
    obtain ⟨⟨n, bs'⟩, hnumber, htype⟩ := Step.exists_of_bind h
    obtain ⟨-, rfl⟩ := (exact_number 4).only hnumber
    dsimp only at htype
    split at htype
    · cases htype
      exact ⟨trivial, rfl⟩
    · cases htype
      exact ⟨trivial, rfl⟩
    · cases htype

theorem exact_column : Exact decodeColumn encodeColumn fun c => WritableText c.name where
  reads {c} rest h := by
    have hname := exact_text.reads (encodeNumber (typeIndex c.type) ++ rest) h
    have htype := exact_type.reads (a := c.type) rest trivial
    simp only [decodeColumn, encodeColumn, List.append_assoc, hname, htype, bind, Except.bind]
  only {bs c rest} h := by
    obtain ⟨⟨name, bs'⟩, hname, hrest⟩ := Step.exists_of_bind h
    obtain ⟨⟨type, bs''⟩, htype, hdone⟩ := Step.exists_of_bind hrest
    obtain ⟨hwritable, rfl⟩ := exact_text.only hname
    obtain ⟨-, rfl⟩ := exact_type.only htype
    cases hdone
    exact ⟨hwritable, by rw [encodeColumn, List.append_assoc]⟩

section Lists

variable {α : Type} {decode : Reader α} {encode : α → Bytes} {Writable : α → Prop}

theorem exact_many (h : Exact decode encode Writable) (n : Nat) :
    Exact (decodeMany decode n) (fun l => l.flatMap encode) fun l => l.length = n ∧ ∀ a ∈ l, Writable a := by
  induction n with
  | zero =>
    constructor
    · rintro l rest ⟨hlength, -⟩
      obtain rfl := List.length_eq_zero_iff.mp hlength
      rfl
    · intro bs l rest hrun
      cases hrun
      exact ⟨⟨rfl, fun a ha => nomatch ha⟩, rfl⟩
  | succ n ih =>
    constructor
    · rintro (_ | ⟨a, l⟩) rest ⟨hlength, hall⟩
      · cases hlength
      · obtain ⟨ha, hl⟩ := List.forall_mem_cons.mp hall
        have hfirst := h.reads (l.flatMap encode ++ rest) ha
        have hrest := ih.reads rest ⟨Nat.succ.inj hlength, hl⟩
        simp only [decodeMany, List.flatMap_cons, List.append_assoc, hfirst, hrest, bind, Except.bind]
    · intro bs l rest hrun
      obtain ⟨⟨a, bs'⟩, hfirst, hothers⟩ := Step.exists_of_bind hrun
      obtain ⟨⟨l', bs''⟩, hrest, hdone⟩ := Step.exists_of_bind hothers
      obtain ⟨ha, rfl⟩ := h.only hfirst
      obtain ⟨⟨rfl, hl⟩, rfl⟩ := ih.only hrest
      cases hdone
      exact ⟨⟨rfl, List.forall_mem_cons.mpr ⟨ha, hl⟩⟩, by rw [List.flatMap_cons, List.append_assoc]⟩

/-- As many values as have room for their number, each of which can be written. -/
def WritableList (Writable : α → Prop) (l : List α) : Prop :=
  l.length < Nat.pow 256 8 ∧ ∀ a ∈ l, Writable a

theorem exact_list (h : Exact decode encode Writable) :
    Exact (decodeList decode) (encodeList encode) (WritableList Writable) where
  reads {l} rest hl := by
    have hlength := (exact_number 8).reads (l.flatMap encode ++ rest) hl.1
    have hmany := (exact_many h l.length).reads rest ⟨rfl, hl.2⟩
    simp only [decodeList, encodeList, encodeLength, List.append_assoc, hlength, hmany, bind, Except.bind]
  only {bs l rest} hrun := by
    obtain ⟨⟨n, bs'⟩, hnumber, hmany⟩ := Step.exists_of_bind hrun
    obtain ⟨hn, rfl⟩ := (exact_number 8).only hnumber
    obtain ⟨⟨rfl, hl⟩, rfl⟩ := (exact_many h n).only hmany
    exact ⟨⟨hn, hl⟩, by rw [encodeList, encodeLength, List.append_assoc]⟩

end Lists

/-- A definition whose numbers and lengths have room. -/
structure Writable (d : TableDefinition) : Prop where
  id : d.id < Nat.pow 256 4
  name : WritableText d.name
  fileName : WritableText d.fileName
  columns : WritableList (fun c : Column => WritableText c.name) d.schema.columns

theorem exact_definition : Exact decode encode Writable where
  reads {d} rest h := by
    have hcolumns := (exact_list exact_column).reads rest h.columns
    have hfile := exact_text.reads (encodeList encodeColumn d.schema.columns ++ rest) h.fileName
    have hname := exact_text.reads (encodeText d.fileName ++
      (encodeList encodeColumn d.schema.columns ++ rest)) h.name
    have hid := (exact_number 4).reads (encodeText d.name ++ (encodeText d.fileName ++
      (encodeList encodeColumn d.schema.columns ++ rest))) h.id
    simp only [decode, encode, encodeNumber, List.append_assoc, hid, hname, hfile, hcolumns, bind, Except.bind]
  only {bs d rest} h := by
    obtain ⟨⟨id, bs₁⟩, hid, h₁⟩ := Step.exists_of_bind h
    obtain ⟨⟨name, bs₂⟩, hname, h₂⟩ := Step.exists_of_bind h₁
    obtain ⟨⟨fileName, bs₃⟩, hfile, h₃⟩ := Step.exists_of_bind h₂
    obtain ⟨⟨columns, bs₄⟩, hcolumns, h₄⟩ := Step.exists_of_bind h₃
    obtain ⟨wid, rfl⟩ := (exact_number 4).only hid
    obtain ⟨wname, rfl⟩ := exact_text.only hname
    obtain ⟨wfile, rfl⟩ := exact_text.only hfile
    obtain ⟨wcolumns, rfl⟩ := (exact_list exact_column).only hcolumns
    cases h₄
    exact ⟨⟨wid, wname, wfile, wcolumns⟩, by simp only [encode, encodeNumber, List.append_assoc]⟩

theorem exact_definitions : Exact (decodeList decode) encodeAll (WritableList Writable) :=
  exact_list exact_definition

/-! ## Where a value ends -/

section Framing

variable {α : Type} {decode : Reader α} {encode : α → Bytes} {Writable : α → Prop}

/-- The bytes of a value say where they end, so what follows them cannot make them another value's. -/
theorem Exact.append_inj (h : Exact decode encode Writable) {a b : α} {rest rest' : Bytes} (ha : Writable a)
    (hb : Writable b) (same : encode a ++ rest = encode b ++ rest') : a = b ∧ rest = rest' := by
  have hread := h.reads rest ha
  rw [same, h.reads rest' hb] at hread
  obtain ⟨rfl, rfl⟩ := Prod.mk.inj (Except.ok.inj hread)
  exact ⟨rfl, rfl⟩

/-- Bytes that end before the value does are refused: a value that they held would be read from all the
bytes too, with less behind it. -/
theorem Exact.refuses_front (h : Exact decode encode Writable) {a : α} {front : Bytes} (ha : Writable a)
    (begins : front <+: encode a) (ends : front ≠ encode a) : ∃ fault, decode front = .error fault := by
  obtain ⟨tail, htail⟩ := begins
  cases hread : decode front with
  | error fault => exact ⟨fault, rfl⟩
  | ok read =>
    obtain ⟨b, rest⟩ := read
    obtain ⟨hb, hfront⟩ := h.only hread
    have hsame : encode b ++ (rest ++ tail) = encode a ++ [] := by
      rw [← List.append_assoc, ← hfront, htail, List.append_nil]
    obtain ⟨-, hnothing⟩ := h.append_inj hb ha hsame
    obtain ⟨-, rfl⟩ := List.append_eq_nil_iff.mp hnothing
    exact absurd (by rw [← htail, List.append_nil]) ends

end Framing

/-! ## The stored list -/

/-- A list is read from its bytes with anything behind them, and from no others. -/
theorem decodeAll_eq_ok_iff {bs : Bytes} {defs : List TableDefinition} :
    decodeAll bs = .ok defs ↔ WritableList Writable defs ∧ ∃ rest, bs = encodeAll defs ++ rest := by
  constructor
  · intro h
    unfold decodeAll at h
    split at h
    · rename_i rest hread
      cases h
      obtain ⟨hwritable, hbytes⟩ := exact_definitions.only hread
      exact ⟨hwritable, rest, hbytes⟩
    · cases h
  · rintro ⟨hwritable, rest, rfl⟩
    rw [decodeAll, exact_definitions.reads rest hwritable]

/-- A list that can be written is read back. -/
theorem decodeAll_encodeAll {defs : List TableDefinition} (h : WritableList Writable defs) :
    decodeAll (encodeAll defs) = .ok defs :=
  decodeAll_eq_ok_iff.mpr ⟨h, [], (List.append_nil _).symm⟩

theorem writable_of_decodeAll {bs : Bytes} {defs : List TableDefinition} (h : decodeAll bs = .ok defs) :
    WritableList Writable defs := (decodeAll_eq_ok_iff.mp h).1

theorem decodeAll_of_error {bs : Bytes} {fault : DefinitionFault} (h : decodeList decode bs = .error fault) :
    decodeAll bs = .error (.catalog (.definitions fault)) := by
  rw [decodeAll, h]

/-- Take any list of definitions whose numbers and lengths have room. It is read from its own bytes, whatever
follows them, and from no other bytes. Bytes that end before its own do hold no list at all, and no other
list has the same bytes. Bytes that do not begin with those of any such list are refused. -/
theorem a_stored_list_is_read_from_exactly_its_bytes {defs : List TableDefinition}
    (writable : WritableList Writable defs) :
    (∀ bs, decodeAll bs = .ok defs ↔ ∃ rest, bs = encodeAll defs ++ rest) ∧
    decodeAll (encodeAll defs) = .ok defs ∧
    (∀ front, front <+: encodeAll defs → front ≠ encodeAll defs →
      ∃ fault, decodeAll front = .error (.catalog (.definitions fault))) ∧
    (∀ others, WritableList Writable others → encodeAll others = encodeAll defs → others = defs) ∧
    ∀ bs, (∃ others rest, WritableList Writable others ∧ bs = encodeAll others ++ rest) ∨
      ∃ fault, decodeAll bs = .error (.catalog (.definitions fault)) := by
  refine ⟨fun bs => ?_, decodeAll_encodeAll writable, fun front begins ends => ?_, fun others hothers hsame => ?_,
    fun bs => ?_⟩
  · rw [decodeAll_eq_ok_iff]
    exact and_iff_right writable
  · obtain ⟨fault, hfault⟩ := exact_definitions.refuses_front writable begins ends
    exact ⟨fault, decodeAll_of_error hfault⟩
  · have happend : encodeAll others ++ [] = encodeAll defs ++ [] := by rw [hsame]
    exact (exact_definitions.append_inj hothers writable happend).1
  · cases hread : decodeList decode bs with
    | ok read =>
      obtain ⟨others, rest⟩ := read
      obtain ⟨hothers, hbytes⟩ := exact_definitions.only hread
      exact .inl ⟨others, rest, hothers, hbytes⟩
    | error fault => exact .inr ⟨fault, decodeAll_of_error hread⟩

/-- A table whose name takes two bytes, with a column that has no name. -/
def accented : TableDefinition := ⟨258, "é", "é.dat", ⟨[⟨"a", .int⟩, ⟨"", .str⟩]⟩⟩

theorem a_name_of_two_bytes_is_read_back :
    WritableList Writable [accented] ∧
    encodeAll [accented] =
      [1, 0, 0, 0, 0, 0, 0, 0] ++ [2, 1, 0, 0] ++ [2, 0, 0, 0, 0, 0, 0, 0, 0xC3, 0xA9] ++
      [6, 0, 0, 0, 0, 0, 0, 0, 0xC3, 0xA9, 46, 100, 97, 116] ++ [2, 0, 0, 0, 0, 0, 0, 0] ++
      [1, 0, 0, 0, 0, 0, 0, 0, 97] ++ [0, 0, 0, 0] ++ [0, 0, 0, 0, 0, 0, 0, 0] ++ [1, 0, 0, 0] ∧
    decodeAll (encodeAll [accented] ++ [0xFF]) = .ok [accented] ∧
    ∃ fault, decodeAll (encodeAll [accented]).dropLast = .error (.catalog (.definitions fault)) := by
  have columns : WritableList (fun c : Column => WritableText c.name) accented.schema.columns := by
    refine ⟨by decide, List.forall_mem_cons.mpr ⟨?_, List.forall_mem_singleton.mpr ?_⟩⟩ <;>
      unfold WritableText <;> decide +kernel
  have writable : WritableList Writable [accented] := by
    refine ⟨by decide, List.forall_mem_singleton.mpr ⟨by decide, ?_, ?_, columns⟩⟩ <;>
      unfold WritableText <;> decide +kernel
  obtain ⟨hreads, -, hcut, -⟩ := a_stored_list_is_read_from_exactly_its_bytes writable
  exact ⟨writable, by decide +kernel, (hreads _).mpr ⟨[0xFF], rfl⟩,
    hcut _ (List.dropLast_prefix _) (by decide +kernel)⟩

end TableDefinition

end PageStore
