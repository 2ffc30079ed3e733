-- Values and rows as bytes. A value that fits takes exactly the width of its type
-- and is read back from in front of whatever follows; what is read always fits.
import PageStore.Row

namespace PageStore

namespace Field

/-- A string has no more bytes than its room. -/
def Fits : Field → Prop
  | .int _ => True
  | .str s => (Utf8.encode s).length ≤ maxStringBytes

theorem encode_ok_iff (f : Field) : (∃ bs, f.encode = .ok bs) ↔ f.Fits := by
  cases f with
  | int v => simp [encode, Fits]
  | str s =>
    simp only [encode, Fits]
    split
    · rename_i h
      constructor
      · rintro ⟨bs, hbs⟩
        cases hbs
      · intro h'
        exact absurd h (Nat.not_lt.mpr h')
    · rename_i h
      simp only [Except.ok.injEq, exists_eq', true_iff]
      exact Nat.not_lt.mp h

theorem length_of_encode {f : Field} {bs : Bytes} (h : f.encode = .ok bs) :
    bs.length = f.type.width := by
  cases f with
  | int v =>
    simp only [encode, Except.ok.injEq] at h
    subst h
    simp [type, FieldType.width]
  | str s =>
    simp only [encode] at h
    split at h
    · cases h
    · cases h
      simp [type, FieldType.width]

theorem takeExactly_append {n : Nat} {front rest : Bytes} (h : front.length = n) :
    takeExactly n (front ++ rest) = .ok (front, rest) := by
  subst h
  simp [takeExactly]

theorem decode_append {f : Field} {bs : Bytes} (h : f.encode = .ok bs) (rest : Bytes) :
    decode f.type (bs ++ rest) = .ok (f, rest) := by
  cases f with
  | int v =>
    simp only [encode, Except.ok.injEq] at h
    subst h
    have hlt : v.toUInt32.toNat < Nat.pow 256 4 := v.toUInt32.toNat_lt
    simp only [decode, type, takeExactly_append (Bytes.length_bigEndian 4 _)]
    simp [Except.bind, bind, Bytes.ofBigEndian_bigEndian hlt]
  | str s =>
    simp only [encode] at h
    split at h
    · cases h
    · rename_i hfits
      cases h
      have hle : (Utf8.encode s).length ≤ maxStringBytes := Nat.not_lt.mp hfits
      have hlt : (Utf8.encode s).length < Nat.pow 256 4 := by
        unfold maxStringBytes at hle
        exact Nat.lt_of_le_of_lt hle (by decide)
      have htake : (Bytes.fit maxStringBytes (Utf8.encode s)).take (Utf8.encode s).length =
          Utf8.encode s := by
        unfold Bytes.fit
        rw [List.take_of_length_le hle, List.take_left]
      simp only [decode, type, List.append_assoc, takeExactly_append (Bytes.length_bigEndian 4 _)]
      simp only [bind, Except.bind, takeExactly_append (Bytes.length_fit maxStringBytes _),
        Bytes.ofBigEndian_bigEndian hlt, hfits, if_false, htake,
        Utf8.decode_encode]

theorem fits_of_decode {t : FieldType} {bs rest : Bytes} {f : Field}
    (h : decode t bs = .ok (f, rest)) : f.type = t ∧ f.Fits := by
  unfold decode at h
  rcases h₁ : takeExactly 4 bs with e | ⟨head, tail⟩
  · simp [h₁, bind, Except.bind] at h
  · cases t with
    | int =>
      simp only [h₁, bind, Except.bind, Except.ok.injEq, Prod.mk.injEq] at h
      rw [← h.1]
      exact ⟨rfl, trivial⟩
    | str =>
      rcases h₂ : takeExactly maxStringBytes tail with e | ⟨room, left⟩
      · simp [h₁, h₂, bind, Except.bind] at h
      · simp only [h₁, h₂, bind, Except.bind] at h
        split at h
        · cases h
        · rename_i hlen
          split at h
          · rename_i s hs
            simp only [Except.ok.injEq, Prod.mk.injEq] at h
            rw [← h.1]
            refine ⟨rfl, ?_⟩
            show (Utf8.encode s).length ≤ maxStringBytes
            rw [Utf8.encode_of_decode hs, List.length_take]
            omega
          · cases h

end Field

namespace Row

/-- These values are of the types of a schema, in order, and each of them fits. -/
def Fit (schema : Schema) (fields : List Field) : Prop :=
  fields.map Field.type = schema.types ∧ ∀ f ∈ fields, f.Fits

theorem encodeFields_ok_iff (fields : List Field) :
    (∃ bs, encodeFields fields = .ok bs) ↔ ∀ f ∈ fields, f.Fits := by
  induction fields with
  | nil => simp [encodeFields]
  | cons f rest ih =>
    rw [List.forall_mem_cons, ← Field.encode_ok_iff, ← ih]
    simp only [encodeFields]
    cases Field.encode f with
    | error e => simp
    | ok front => cases encodeFields rest <;> simp [Except.map]

theorem length_of_encodeFields {fields : List Field} {bs : Bytes} (h : encodeFields fields = .ok bs) :
    bs.length = Schema.bytesOf (fields.map Field.type) := by
  induction fields generalizing bs with
  | nil =>
    cases h
    rfl
  | cons f rest ih =>
    unfold encodeFields at h
    cases hf : Field.encode f with
    | error e => simp [hf] at h
    | ok front =>
      cases hr : encodeFields rest with
      | error e => simp [hf, hr, Except.map] at h
      | ok back =>
        simp only [hf, hr, Except.map, Except.ok.injEq] at h
        subst h
        simp [Schema.bytesOf, Field.length_of_encode hf, ih hr]

theorem decodeFields_append {fields : List Field} {bs : Bytes} (h : encodeFields fields = .ok bs)
    (rest : Bytes) : decodeFields (fields.map Field.type) (bs ++ rest) = .ok (fields, rest) := by
  induction fields generalizing bs with
  | nil =>
    cases h
    rfl
  | cons f others ih =>
    unfold encodeFields at h
    cases hf : Field.encode f with
    | error e => simp [hf] at h
    | ok front =>
      cases hr : encodeFields others with
      | error e => simp [hf, hr, Except.map] at h
      | ok back =>
        simp only [hf, hr, Except.map, Except.ok.injEq] at h
        subst h
        simp only [List.map_cons, decodeFields, List.append_assoc, Field.decode_append hf, ih hr,
          Except.map]

theorem fit_of_decodeFields {types : List FieldType} {bs rest : Bytes} {fields : List Field}
    (h : decodeFields types bs = .ok (fields, rest)) :
    fields.map Field.type = types ∧ ∀ f ∈ fields, f.Fits := by
  induction types generalizing bs fields with
  | nil =>
    cases h
    exact ⟨rfl, by simp⟩
  | cons t types ih =>
    unfold decodeFields at h
    rcases hf : Field.decode t bs with e | ⟨f, left⟩
    · simp [hf] at h
    · rcases hr : decodeFields types left with e | ⟨others, left'⟩
      · simp [hf, hr, Except.map] at h
      · simp only [hf, hr, Except.map, Except.ok.injEq, Prod.mk.injEq] at h
        obtain ⟨rfl, rfl⟩ := h
        obtain ⟨htype, hfits⟩ := Field.fits_of_decode hf
        obtain ⟨htypes, hothers⟩ := ih hr
        exact ⟨by rw [List.map_cons, htype, htypes], List.forall_mem_cons.mpr ⟨hfits, hothers⟩⟩

/-- Values that went through `misfit?` have the types of their columns. -/
theorem types_of_no_misfit {i : Nat} {fields : List Field} {types : List FieldType}
    (hlen : fields.length = types.length) (h : misfit? i fields types = none) :
    fields.map Field.type = types := by
  induction fields generalizing i types with
  | nil => exact (List.length_eq_zero_iff.mp hlen.symm).symm
  | cons f rest ih =>
    cases types with
    | nil => cases hlen
    | cons t types =>
      unfold misfit? at h
      split at h
      · rename_i ht
        rw [List.map_cons, ht, ih (Nat.succ.inj hlen) h]
      · cases h

/-- A row whose values have the types of its schema. -/
def Typed (r : Row) : Prop := r.fields.map Field.type = r.schema.types

instance : DecidablePred Typed := fun r => inferInstanceAs (Decidable (r.fields.map Field.type = r.schema.types))

theorem misfit?_of_types {i : Nat} {fields : List Field} {types : List FieldType}
    (h : fields.map Field.type = types) : misfit? i fields types = none := by
  subst h
  induction fields generalizing i with
  | nil => rfl
  | cons f rest ih => simp [misfit?, ih]

/-- Values of the right types make a row. -/
theorem ofFields_of_types {schema : Schema} {fields : List Field}
    (h : fields.map Field.type = schema.types) : ofFields schema fields = .ok { schema, fields } := by
  have hlen : fields.length = schema.numFields := by
    simpa [Schema.types, Schema.numFields] using congrArg List.length h
  simp [ofFields, hlen, misfit?_of_types h]

theorem ofFields_eq_ok {schema : Schema} {fields : List Field} {r : Row} :
    ofFields schema fields = .ok r ↔ fields.map Field.type = schema.types ∧ r = { schema, fields } := by
  constructor
  · intro h
    unfold ofFields at h
    split at h
    · cases h
    · rename_i hlen
      split at h
      · cases h
      · rename_i hfit
        cases h
        refine ⟨types_of_no_misfit ?_ hfit, rfl⟩
        simpa [Schema.numFields, Schema.types] using hlen
  · rintro ⟨htypes, rfl⟩
    exact ofFields_of_types htypes

theorem typed_of_ofFields {schema : Schema} {fields : List Field} {r : Row}
    (h : ofFields schema fields = .ok r) : r.Typed ∧ r.fields = fields := by
  obtain ⟨htypes, rfl⟩ := ofFields_eq_ok.mp h
  exact ⟨htypes, rfl⟩

/-! ## Where rows come from -/

/-- The rows that come about: made of values, of bytes or of two rows, then changed. -/
inductive Made : Row → Prop
  | ofFields {schema fields r} (h : Row.ofFields schema fields = .ok r) : Made r
  | append {schema left right r} (h : Row.append schema left right = .ok r) : Made r
  | decode {schema bs r rest} (h : Row.decode schema bs = .ok (r, rest)) : Made r
  | setField {r s i f} (made : Made r) (h : r.setField i f = .ok s) : Made s
  | setPlace {r} (made : Made r) (place : Option RecordId) : Made (r.setPlace place)

theorem typed_of_decode {schema : Schema} {bs rest : Bytes} {r : Row}
    (h : Row.decode schema bs = .ok (r, rest)) : r.Typed := by
  unfold Row.decode at h
  split at h
  · rename_i fields left hfields
    cases h
    exact (fit_of_decodeFields hfields).1
  · cases h

theorem setField_eq_ok {r s : Row} {i : Nat} {f : Field} :
    r.setField i f = .ok s ↔ r.schema.types[i]? = some f.type ∧ s = { r with fields := r.fields.set i f } := by
  unfold Row.setField Schema.type?
  split
  · rename_i htype
    rw [Except.ok.injEq, and_iff_right htype, eq_comm]
  · rename_i htype
    exact ⟨(nomatch ·), fun h => absurd h.1 htype⟩

theorem Typed.setField {r s : Row} {i : Nat} {f : Field} (typed : r.Typed)
    (h : r.setField i f = .ok s) : s.Typed := by
  obtain ⟨htype, rfl⟩ := setField_eq_ok.mp h
  obtain ⟨hlt, hcolumn⟩ := List.getElem?_eq_some_iff.mp htype
  show (r.fields.set i f).map Field.type = r.schema.types
  rw [List.map_set, typed, ← hcolumn, List.set_getElem_self]

theorem Typed.made {r : Row} (typed : r.Typed) : Made r :=
  Made.setPlace (.ofFields (ofFields_of_types typed)) r.place

theorem Made.typed {r : Row} (h : Made r) : r.Typed := by
  induction h with
  | ofFields h => exact (typed_of_ofFields h).1
  | append h => exact (typed_of_ofFields h).1
  | decode h => exact typed_of_decode h
  | setField _ h ih => exact ih.setField h
  | setPlace _ _ ih => exact ih

/-- No row has a value of another type than its column, and every row without such a value comes
about. -/
theorem made_iff_typed (r : Row) : Made r ↔ r.Typed := ⟨Made.typed, Typed.made⟩

/-! ## Rows of one schema -/

/-- A row over a schema: as many values as it has columns, and of their types. -/
structure Over (schema : Schema) (r : Row) : Prop where
  schema : r.schema = schema
  typed : r.Typed

theorem over_of_ofFields {schema : Schema} {fields : List Field} {r : Row}
    (h : ofFields schema fields = .ok r) : Over schema r := by
  obtain ⟨htypes, rfl⟩ := ofFields_eq_ok.mp h
  exact ⟨rfl, htypes⟩

variable {schema : Schema} {r : Row}

theorem Over.types (h : Over schema r) : r.fields.map Field.type = schema.types := h.schema ▸ h.typed

/-- A value is there if its column is, and has the type of it. -/
theorem Over.type_field? (h : Over schema r) (i : Nat) : (r.field? i).map Field.type = schema.type? i := by
  rw [field?, Schema.type?, ← h.types, List.getElem?_map]

end Row

end PageStore
