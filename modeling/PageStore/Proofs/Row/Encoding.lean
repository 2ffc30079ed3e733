-- Rows and their bytes. Every row that comes about has a value of the right type for each of its
-- columns, so its columns alone say how wide it is and where its bytes end: it is read back from
-- in front of whatever follows, and no other row of its columns has the same bytes.
import PageStore.Proofs.Row

namespace PageStore

theorem Utf8.length_encode (s : String) : (Utf8.encode s).length = s.utf8ByteSize := rfl

namespace Row

/-! ## Which rows have bytes -/

theorem forall_fits_iff (fields : List Field) :
    (∀ f ∈ fields, f.Fits) ↔ ∀ s, Field.str s ∈ fields → s.utf8ByteSize ≤ maxStringBytes := by
  simp only [← Utf8.length_encode]
  constructor
  · intro h s hs
    exact h (.str s) hs
  · rintro h (v | s) hf
    · trivial
    · exact h s hf

theorem encode_ok_iff (r : Row) :
    (∃ bs, r.encode = .ok bs) ↔ ∀ s, Field.str s ∈ r.fields → s.utf8ByteSize ≤ maxStringBytes :=
  (encodeFields_ok_iff r.fields).trans (forall_fits_iff r.fields)

/-! ## Reading back -/

section

variable {r : Row} {bs : Bytes}

theorem Typed.length_of_encode (typed : r.Typed) (h : r.encode = .ok bs) : bs.length = r.schema.byteSize := by
  rw [length_of_encodeFields h, typed, Schema.byteSize]

theorem Typed.decode_append (typed : r.Typed) (h : r.encode = .ok bs) {schema : Schema}
    (agrees : schema.types = r.schema.types) (tail : Bytes) :
    decode schema (bs ++ tail) = .ok ({ schema, fields := r.fields }, tail) := by
  have hfields := decodeFields_append h tail
  rw [typed] at hfields
  rw [decode, agrees, hfields]

/-- Rows of the same columns that have the same bytes have the same values. -/
theorem Typed.fields_eq_of_encode {q : Row} (typed : r.Typed) (typed' : q.Typed)
    (agrees : q.schema.types = r.schema.types) (h : r.encode = .ok bs) (h' : q.encode = .ok bs) :
    q.fields = r.fields := by
  have hread := typed.decode_append h rfl []
  rw [typed'.decode_append h' agrees.symm [], Except.ok.injEq, Prod.mk.injEq, Row.mk.injEq] at hread
  exact hread.1.2.1

theorem same_iff {q : Row} : q.same r = true ↔ q.schema.types = r.schema.types ∧ q.fields = r.fields := by
  rw [same, Bool.and_eq_true, Schema.agrees_iff, decide_eq_true_iff]

end

/-! ## Putting in and putting together -/

/-- The row that is there when a value was to be put into a column: with the value, or as it was. -/
def afterSet (r : Row) (i : Nat) (f : Field) : Row :=
  match r.setField i f with
  | .ok s => s
  | .error _ => r

theorem Made.afterSet {r : Row} (made : r.Made) (i : Nat) (f : Field) : (r.afterSet i f).Made := by
  unfold Row.afterSet
  split
  · exact made.setField ‹_›
  · exact made

/-- A value is only put where one is. -/
theorem Typed.lt_of_setField {r s : Row} {i : Nat} {f : Field} (typed : r.Typed) (h : r.setField i f = .ok s) :
    i < r.fields.length := by
  obtain ⟨htype, -⟩ := setField_eq_ok.mp h
  obtain ⟨hlt, -⟩ := List.getElem?_eq_some_iff.mp htype
  rwa [← typed, List.length_map] at hlt

/-- The bytes of the first values and then those of the others. The first value that is too long decides, wherever
it stands. -/
theorem encodeFields_append (front back : List Field) :
    encodeFields (front ++ back) = do
      let bs ← encodeFields front
      let bs' ← encodeFields back
      return bs ++ bs' := by
  induction front with
  | nil =>
    rw [List.nil_append]
    cases encodeFields back <;> rfl
  | cons f rest ih =>
    rw [List.cons_append, encodeFields, encodeFields, ih]
    cases Field.encode f with
    | error e => rfl
    | ok first =>
      cases encodeFields rest with
      | error e => rfl
      | ok bs =>
        cases encodeFields back with
        | error e => rfl
        | ok bs' => exact congrArg Except.ok (List.append_assoc first bs bs').symm

theorem encode_append {schema : Schema} {left right r : Row} (h : append schema left right = .ok r) :
    r.encode = do
      let bs ← left.encode
      let bs' ← right.encode
      return bs ++ bs' := by
  rw [Row.encode, (typed_of_ofFields h).2]
  exact encodeFields_append left.fields right.fields

/-- The columns of two rows together have room for their values. -/
theorem Typed.exists_append {left right : Row} (typed : left.Typed) (typed' : right.Typed) :
    ∃ r, append (left.schema.append right.schema) left right = .ok r := by
  refine ⟨_, ofFields_of_types ?_⟩
  rw [List.map_append, typed, typed', Schema.types_append]

/-- Take any row that comes about: made of values, read from bytes, put together of two rows, and then changed,
or not, where a change was refused. It has one value of the right type for each column, so a value is only ever
put where one is. It has bytes unless one of its strings takes more than 128, and then exactly as many as its
columns say. In front of whatever else, they are read as the same row under any schema that agrees with its own,
and nothing behind them is touched; no other row of such a schema has the same bytes. Any two rows can be put
together over the columns of both, and whatever schema that is done over, the bytes are those of the first and
then those of the second. -/
theorem a_row_is_told_by_its_bytes {r : Row} (made : r.Made) :
    (r.fields.length = r.schema.numFields ∧ ∀ i, (r.field? i).map Field.type = r.schema.type? i) ∧
    (∀ i f, (r.afterSet i f).Made ∧ ∀ s, r.setField i f = .ok s → i < r.fields.length) ∧
    ((∃ bs, r.encode = .ok bs) ↔ ∀ s, Field.str s ∈ r.fields → s.utf8ByteSize ≤ 128) ∧
    (∀ bs, r.encode = .ok bs →
      bs.length = r.schema.byteSize ∧
      (∀ schema, schema.agrees r.schema = true → ∀ tail,
        ∃ s, decode schema (bs ++ tail) = .ok (s, tail) ∧ s.schema = schema ∧ s.same r = true) ∧
      ∀ q : Row, q.Made → q.schema.agrees r.schema = true → q.encode = .ok bs → q.same r = true) ∧
    ∀ q : Row, q.Made →
      (∃ m, append (r.schema.append q.schema) r q = .ok m) ∧
      ∀ schema m, append schema r q = .ok m → m.encode = do
        let front ← r.encode
        let back ← q.encode
        return front ++ back := by
  have typed := made.typed
  have hover : Over r.schema r := ⟨rfl, typed⟩
  refine ⟨⟨?_, hover.type_field?⟩, fun i f => ⟨made.afterSet i f, fun s h => typed.lt_of_setField h⟩,
    encode_ok_iff r, fun bs h => ⟨typed.length_of_encode h, fun schema hschema tail => ?_, ?_⟩,
    fun q hq => ⟨typed.exists_append hq.typed, fun schema m => encode_append⟩⟩
  · simpa [Schema.types, Schema.numFields] using congrArg List.length typed
  · rw [Schema.agrees_iff] at hschema
    exact ⟨_, typed.decode_append h hschema tail, rfl, same_iff.mpr ⟨hschema, rfl⟩⟩
  · intro q hq hschema h'
    rw [Schema.agrees_iff] at hschema
    exact same_iff.mpr ⟨hschema, typed.fields_eq_of_encode hq.typed hschema h h'⟩

/-- A name of 64 letters, each of two bytes. -/
def longName : String := String.ofList (List.replicate 64 'é')

/-- It is put in place of a name that takes none. -/
def longNamed : Row :=
  afterSet { schema := ⟨[⟨"id", .int⟩, ⟨"name", .str⟩]⟩, fields := [.int (-2), .str ""] } 1 (.str longName)

theorem a_name_of_64_letters_fills_its_room :
    longNamed.Made ∧ longNamed.fields = [.int (-2), .str longName] ∧
    ∃ bs, longNamed.encode = .ok bs ∧ bs.length = 136 ∧
      (∃ s, decode ⟨Schema.numbered [.int, .str]⟩ (bs ++ [0xFF]) = .ok (s, [0xFF]) ∧ s.same longNamed = true) ∧
      ∃ m, append (longNamed.schema.append longNamed.schema) longNamed longNamed = .ok m ∧
        m.encode = .ok (bs ++ bs) := by
  have made : longNamed.Made := Typed.made (by decide +kernel)
  have hfields : longNamed.fields = [.int (-2), .str longName] := by decide +kernel
  obtain ⟨-, -, hencode, hread, htwo⟩ := a_row_is_told_by_its_bytes made
  have hshort : ∀ s, Field.str s ∈ longNamed.fields → s.utf8ByteSize ≤ 128 := by
    intro s hs
    rw [hfields] at hs
    obtain rfl : s = longName := by simpa using hs
    decide +kernel
  obtain ⟨bs, hbs⟩ := hencode.mpr hshort
  obtain ⟨hlength, hback, -⟩ := hread bs hbs
  obtain ⟨⟨m, hm⟩, hbytes⟩ := htwo longNamed made
  obtain ⟨s, hs, -, hsame⟩ := hback ⟨Schema.numbered [.int, .str]⟩ (by decide +kernel) [0xFF]
  refine ⟨made, hfields, bs, hbs, hlength.trans (by decide +kernel), ⟨s, hs, hsame⟩, m, hm, ?_⟩
  rw [hbytes _ m hm, hbs]
  rfl

end Row

end PageStore
