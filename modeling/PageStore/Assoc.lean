-- Finite maps as lists of pairs. A key stands where it was first put, so the
-- order of the entries is the order of arrival and no answer hangs on hashing.

namespace PageStore

/-- A finite map from `κ` to `α`. -/
structure Assoc (κ α : Type) where
  entries : List (κ × α) := []
  /-- No key has two entries. -/
  nodup : (entries.map Prod.fst).Nodup := by simp
  deriving Repr, DecidableEq

namespace Assoc

variable {κ α β : Type} [DecidableEq κ]

def empty : Assoc κ α := {}

instance : Inhabited (Assoc κ α) := ⟨empty⟩

/-- The value at the first entry for `k`. -/
def find (k : κ) : List (κ × α) → Option α
  | [] => none
  | (j, v) :: rest => if j = k then some v else find k rest

/-- Puts `v` at `k`: in place if `k` is there, else behind all entries. -/
def put (k : κ) (v : α) : List (κ × α) → List (κ × α)
  | [] => [(k, v)]
  | (j, w) :: rest => if j = k then (k, v) :: rest else (j, w) :: put k v rest

/-- The keys after a `put`: the same ones, or one more behind them. -/
theorem keys_put (k : κ) (v : α) (l : List (κ × α)) :
    (put k v l).map Prod.fst =
      if k ∈ l.map Prod.fst then l.map Prod.fst else l.map Prod.fst ++ [k] := by
  induction l with
  | nil => simp [put]
  | cons e rest ih =>
    obtain ⟨j, w⟩ := e
    by_cases hjk : j = k
    · simp [put, hjk]
    · have hkj : ¬ k = j := fun h => hjk h.symm
      simp only [put, hjk, if_false, List.map_cons, ih, List.mem_cons, hkj, false_or]
      split <;> simp

/-- A new key stands behind all others. -/
theorem put_of_new {k : κ} {l : List (κ × α)} (h : k ∉ l.map Prod.fst) (v : α) : put k v l = l ++ [(k, v)] := by
  induction l with
  | nil => rfl
  | cons e rest ih =>
    obtain ⟨j, w⟩ := e
    rw [List.map_cons, List.mem_cons, not_or] at h
    have hjk : ¬ j = k := fun heq => h.1 heq.symm
    rw [put, if_neg hjk, ih h.2, List.cons_append]

theorem nodup_put (k : κ) (v : α) {l : List (κ × α)} (h : (l.map Prod.fst).Nodup) :
    ((put k v l).map Prod.fst).Nodup := by
  rw [keys_put]
  split
  · exact h
  · rename_i hk
    rw [List.nodup_append]
    refine ⟨h, by simp, ?_⟩
    intro a ha b hb hab
    rw [List.mem_singleton.mp hb] at hab
    exact hk (hab ▸ ha)

def get? (m : Assoc κ α) (k : κ) : Option α := find k m.entries

def insert (m : Assoc κ α) (k : κ) (v : α) : Assoc κ α := ⟨put k v m.entries, nodup_put k v m.nodup⟩

def erase (m : Assoc κ α) (k : κ) : Assoc κ α :=
  ⟨m.entries.filter (fun e => e.1 ≠ k), m.nodup.sublist (List.filter_sublist.map Prod.fst)⟩

def contains (m : Assoc κ α) (k : κ) : Bool := (m.get? k).isSome

def keys (m : Assoc κ α) : List κ := m.entries.map Prod.fst

def values (m : Assoc κ α) : List α := m.entries.map Prod.snd

def size (m : Assoc κ α) : Nat := m.entries.length

/-- Changes the value at `k`, if there is one. -/
def modify (m : Assoc κ α) (k : κ) (f : α → α) : Assoc κ α :=
  match m.get? k with
  | some v => m.insert k (f v)
  | none => m

/-- Changes every value. -/
def mapValues (m : Assoc κ α) (f : α → α) : Assoc κ α :=
  ⟨m.entries.map fun e => (e.1, f e.2), by simpa [Function.comp_def] using m.nodup⟩

/-! ## Reading back -/

theorem find_put (k j : κ) (v : α) (l : List (κ × α)) :
    find j (put k v l) = if k = j then some v else find j l := by
  induction l with
  | nil => simp [put, find]
  | cons e rest ih =>
    obtain ⟨i, w⟩ := e
    by_cases hik : i = k
    · subst hik
      by_cases hij : i = j <;> simp [put, find, hij]
    · by_cases hij : i = j
      · subst hij
        have hki : ¬ k = i := fun h => hik h.symm
        simp [put, find, hik, hki]
      · simp [put, find, hik, hij, ih]

theorem get?_insert (m : Assoc κ α) (k j : κ) (v : α) :
    (m.insert k v).get? j = if k = j then some v else m.get? j := find_put k j v m.entries

theorem get?_erase (m : Assoc κ α) (k j : κ) :
    (m.erase k).get? j = if k = j then none else m.get? j := by
  obtain ⟨l, nodup⟩ := m
  simp only [erase, get?]
  clear nodup
  induction l with
  | nil => simp [find]
  | cons e rest ih =>
    obtain ⟨i, w⟩ := e
    by_cases hik : i = k
    · subst hik
      by_cases hij : i = j <;> simp_all [find]
    · by_cases hij : i = j
      · subst hij
        have hki : ¬ k = i := fun h => hik h.symm
        simp [find, hik, hki]
      · simp_all [find]

@[simp] theorem get?_empty (k : κ) : (empty : Assoc κ α).get? k = none := rfl

theorem get?_modify (m : Assoc κ α) (k j : κ) (f : α → α) :
    (m.modify k f).get? j = if k = j then (m.get? j).map f else m.get? j := by
  unfold modify
  by_cases hkj : k = j
  · subst hkj
    cases h : m.get? k with
    | none => simp [h]
    | some v => simp [get?_insert]
  · cases h : m.get? k with
    | none => simp [hkj]
    | some v => simp [get?_insert, hkj]

theorem put_put (k : κ) (v w : α) (l : List (κ × α)) : put k w (put k v l) = put k w l := by
  induction l with
  | nil => simp [put]
  | cons e rest ih =>
    obtain ⟨j, u⟩ := e
    by_cases hjk : j = k <;> simp [put, hjk, ih]

theorem insert_insert (m : Assoc κ α) (k : κ) (v w : α) :
    (m.insert k v).insert k w = m.insert k w := by
  simp [insert, put_put]

/-- Two changes of one value are one change. -/
theorem modify_modify (m : Assoc κ α) (k : κ) (f g : α → α) :
    (m.modify k f).modify k g = m.modify k (g ∘ f) := by
  cases h : m.get? k with
  | none => simp [modify, h]
  | some v => simp [modify, h, get?_insert, insert_insert]

/-! ## Entries -/

theorem find_eq_none_iff {k : κ} {l : List (κ × α)} : find k l = none ↔ k ∉ l.map Prod.fst := by
  induction l with
  | nil => simp [find]
  | cons e rest ih =>
    obtain ⟨j, w⟩ := e
    by_cases hjk : j = k
    · simp [find, hjk]
    · have hkj : ¬ k = j := fun h => hjk h.symm
      simp [find, hjk, hkj, ih]

theorem find_eq_some_iff {k : κ} {v : α} {l : List (κ × α)} (h : (l.map Prod.fst).Nodup) :
    find k l = some v ↔ (k, v) ∈ l := by
  induction l with
  | nil => simp [find]
  | cons e rest ih =>
    obtain ⟨j, w⟩ := e
    rw [List.map_cons, List.nodup_cons] at h
    by_cases hjk : j = k
    · subst hjk
      simp only [find, if_true, Option.some.injEq, List.mem_cons, Prod.mk.injEq, true_and]
      constructor
      · exact fun hw => .inl hw.symm
      · rintro (hv | hv)
        · exact hv.symm
        · exact absurd (List.mem_map_of_mem hv) h.1
    · have hkj : ¬ k = j := fun h => hjk h.symm
      simp [find, hjk, hkj, ih h.2]

/-- What a key has is what its entry holds. -/
theorem mem_entries {m : Assoc κ α} {k : κ} {v : α} : (k, v) ∈ m.entries ↔ m.get? k = some v :=
  (find_eq_some_iff m.nodup).symm

theorem mem_keys {m : Assoc κ α} {k : κ} : k ∈ m.keys ↔ (m.get? k).isSome := by
  rw [Option.isSome_iff_ne_none, ne_eq, get?, find_eq_none_iff, Classical.not_not]
  rfl

theorem entries_insert_of_new {m : Assoc κ α} {k : κ} (h : m.get? k = none) (v : α) :
    (m.insert k v).entries = m.entries ++ [(k, v)] := put_of_new (find_eq_none_iff.mp h) v

/-! ## Sizes -/

omit [DecidableEq κ] in
theorem size_eq (m : Assoc κ α) : m.size = m.keys.length := by rw [size, keys, List.length_map]

theorem size_insert (m : Assoc κ α) (k : κ) (v : α) :
    (m.insert k v).size = if (m.get? k).isSome then m.size else m.size + 1 := by
  have hkeys : (m.insert k v).keys = if k ∈ m.keys then m.keys else m.keys ++ [k] :=
    keys_put k v m.entries
  simp only [size_eq, hkeys, mem_keys]
  split <;> simp

/-- Without the entry of a key the others have all other keys. -/
theorem keys_filter_ne {k : κ} {l : List (κ × α)} (h : (l.map Prod.fst).Nodup) :
    (l.filter fun e => e.1 ≠ k).map Prod.fst = (l.map Prod.fst).erase k := by
  rw [h.erase_eq_filter, List.filter_map]
  refine congrArg (List.map Prod.fst) (List.filter_congr fun e _ => ?_)
  by_cases he : e.1 = k <;> simp [he]

theorem keys_erase (m : Assoc κ α) (k : κ) : (m.erase k).keys = m.keys.erase k := keys_filter_ne m.nodup

theorem size_erase {m : Assoc κ α} {k : κ} (h : (m.get? k).isSome) : (m.erase k).size + 1 = m.size := by
  have hmem : k ∈ m.keys := mem_keys.mpr h
  have hpos := List.length_pos_of_mem hmem
  rw [size_eq, size_eq, keys_erase, List.length_erase_of_mem hmem]
  omega

theorem keys_modify (m : Assoc κ α) (k : κ) (f : α → α) : (m.modify k f).keys = m.keys := by
  unfold modify
  split
  · rename_i v hv
    have hmem : k ∈ m.keys := mem_keys.mpr (Option.isSome_of_eq_some hv)
    exact (keys_put k (f v) m.entries).trans (if_pos hmem)
  · rfl

theorem size_modify (m : Assoc κ α) (k : κ) (f : α → α) : (m.modify k f).size = m.size := by
  rw [size_eq, size_eq, keys_modify]

/-! ## Order -/

/-- Putting a value at a key is taking the key out and putting it behind all others, but for the order. -/
theorem perm_put {k : κ} {v : α} {l : List (κ × α)} (nodup : (l.map Prod.fst).Nodup) :
    (put k v l).Perm (l.filter (fun e => e.1 ≠ k) ++ [(k, v)]) := by
  induction l with
  | nil => exact .refl _
  | cons e rest ih =>
    obtain ⟨j, w⟩ := e
    obtain ⟨hnew, hrest⟩ := List.nodup_cons.mp nodup
    by_cases hjk : j = k
    · subst hjk
      have hothers : rest.filter (fun e => e.1 ≠ j) = rest := by
        refine List.filter_eq_self.mpr fun e he => decide_eq_true fun heq => hnew ?_
        exact List.mem_map.mpr ⟨e, he, heq⟩
      simp only [put, if_true, List.filter_cons, ne_eq, not_true_eq_false, decide_false, Bool.false_eq_true,
        if_false]
      rw [hothers]
      exact (List.perm_append_singleton _ _).symm
    · simp only [put, hjk, if_false, List.filter_cons, ne_eq, not_false_eq_true, decide_true, if_true,
        List.cons_append]
      exact (ih hrest).cons _

theorem perm_insert (m : Assoc κ α) (k : κ) (v : α) :
    (m.insert k v).entries.Perm ((m.erase k).entries ++ [(k, v)]) := perm_put m.nodup

/-! ## Equality -/

/-- Where the keys stand in the same order and have the same values, the entries are the same. -/
theorem entries_ext {l l' : List (κ × α)} (nodup : (l.map Prod.fst).Nodup)
    (keys : l.map Prod.fst = l'.map Prod.fst) (values : ∀ k, find k l = find k l') : l = l' := by
  induction l generalizing l' with
  | nil => exact (List.map_eq_nil_iff.mp keys.symm).symm
  | cons e rest ih =>
    obtain ⟨k, v⟩ := e
    obtain ⟨⟨k', v'⟩, rest', rfl, hk, hrest⟩ := List.map_eq_cons_iff.mp keys.symm
    obtain rfl : k' = k := hk
    have hv : some v = some v' := by simpa [find] using values k'
    obtain rfl := Option.some.inj hv
    have hnot : k' ∉ rest.map Prod.fst := (List.nodup_cons.mp nodup).1
    refine congrArg _ (ih (List.nodup_cons.mp nodup).2 hrest.symm fun j => ?_)
    by_cases hj : k' = j
    · subst hj
      rw [find_eq_none_iff.mpr hnot, find_eq_none_iff.mpr (hrest ▸ hnot)]
    · simpa [find, hj] using values j

theorem ext_keys {m m' : Assoc κ α} (keys : m.keys = m'.keys) (values : ∀ k, m.get? k = m'.get? k) :
    m = m' := by
  obtain ⟨l, nodup⟩ := m
  obtain ⟨l', nodup'⟩ := m'
  obtain rfl : l = l' := entries_ext nodup keys values
  rfl

/-- A map that gives nothing for any key is empty. -/
theorem eq_empty_of_get? {m : Assoc κ α} (h : ∀ k, m.get? k = none) : m = empty := by
  obtain ⟨l, nodup⟩ := m
  cases l with
  | nil => rfl
  | cons e rest =>
    have := h e.1
    simp [get?, find] at this

end Assoc

end PageStore
