-- What an aggregate makes of its rows. The groups are the values of the column that
-- tells them apart, each once and in ascending order, and a group has the value of the
-- function for all of its values at once. Running tallies, kept in order while the rows
-- come in one by one, are the same: the induction is on the rows, the last one first.
import PageStore.Proofs.FieldOrder
import PageStore.Proofs.Row
import PageStore.Proofs.Step
import Mathlib.Algebra.Ring.Int.Defs
import Mathlib.Data.List.Dedup
import Mathlib.Data.List.Induction
import Mathlib.Data.List.Sort

namespace PageStore

open Std

/-! ## The value of a group -/

/-- The number that a value is. A string is none. -/
def Field.number? : Field → Option Int
  | .int v => some v.toInt
  | .str _ => none

/-- The value of a function for some values. Strings are only counted. -/
def AggregateFunction.of (f : AggregateFunction) (values : List Field) : Int :=
  let numbers := values.filterMap Field.number?
  match f with
  | .count => values.length
  | .sum => numbers.sum
  | .average => numbers.sum.tdiv values.length
  | .least => numbers.min?.getD 0
  | .greatest => numbers.max?.getD 0

namespace Tally

/-- The tally of some values, taken in one by one. -/
def ofValues (values : List Field) : Tally := values.foldl Tally.add {}

theorem ofValues_concat (values : List Field) (v : Field) : ofValues (values ++ [v]) = (ofValues values).add v :=
  List.foldl_concat ..

theorem min?_concat (l : List Int) (x : Int) : (l ++ [x]).min? = some (l.min?.elim x (min x)) := by
  cases l with
  | nil => rfl
  | cons a l =>
    simp only [List.cons_append, List.min?_cons', List.foldl_concat, Option.elim_some]
    rw [Int.min_comm]

theorem max?_concat (l : List Int) (x : Int) : (l ++ [x]).max? = some (l.max?.elim x (max x)) := by
  cases l with
  | nil => rfl
  | cons a l =>
    simp only [List.cons_append, List.max?_cons', List.foldl_concat, Option.elim_some]
    rw [Int.max_comm]

/-- What is known of values that came in one by one. -/
theorem ofValues_eq (values : List Field) :
    ofValues values =
      { count := values.length
        sum := (values.filterMap Field.number?).sum
        least := (values.filterMap Field.number?).min?
        greatest := (values.filterMap Field.number?).max? } := by
  induction values using List.reverseRecOn with
  | nil => rfl
  | append_singleton values v ih =>
    rw [ofValues_concat, ih, List.filterMap_append]
    cases v with
    | int v =>
      have hnumbers : [Field.int v].filterMap Field.number? = [v.toInt] := rfl
      simp only [add, hnumbers, List.sum_append, List.sum_singleton, min?_concat, max?_concat,
        List.length_append, List.length_singleton, Int.natCast_add, Int.natCast_one]
    | str s =>
      have hnumbers : [Field.str s].filterMap Field.number? = [] := rfl
      simp only [add, hnumbers, List.append_nil, List.length_append, List.length_singleton, Int.natCast_add,
        Int.natCast_one]

theorem value_ofValues (f : AggregateFunction) (values : List Field) :
    (ofValues values).value f = f.of values := by
  rw [ofValues_eq]
  cases f with
  | count => rfl
  | sum => rfl
  | average =>
    -- An average is never taken of no values; if it were, it would be zero on both sides.
    cases values with
    | nil => rfl
    | cons v values =>
      have hcount : max ((v :: values).length : Int) 1 = (v :: values).length := by
        simp only [List.length_cons, Int.natCast_add, Int.natCast_one]
        omega
      simp only [value, AggregateFunction.of, hcount]
  | least => rfl
  | greatest => rfl

end Tally

/-! ## Groups in order -/

namespace Groups

/-- The keys are in ascending order, and none stands twice. -/
def Ascending (keys : List GroupKey) : Prop := keys.Pairwise fun j k => GroupKey.order j k = .lt

theorem Ascending.nodup {keys : List GroupKey} (h : Ascending keys) : keys.Nodup :=
  List.Pairwise.imp (fun hlt : GroupKey.order _ _ = .lt => GroupKey.ne_of_order hlt (by decide)) h

/-- A key below the first one is below all of them. -/
theorem Ascending.below {key j : GroupKey} {keys : List GroupKey} (h : Ascending (j :: keys))
    (hlt : GroupKey.order key j = .lt) : ∀ k ∈ j :: keys, GroupKey.order key k = .lt := by
  intro k hk
  rcases List.mem_cons.mp hk with rfl | hk
  · exact hlt
  · exact TransCmp.lt_trans hlt ((List.pairwise_cons.mp h).1 k hk)

/-- Only one list of keys has these members. -/
theorem Ascending.ext {keys keys' : List GroupKey} (h : Ascending keys) (h' : Ascending keys')
    (members : ∀ k, k ∈ keys ↔ k ∈ keys') : keys = keys' := by
  refine List.Perm.eq_of_pairwise ?_ h h' ((List.perm_ext_iff_of_nodup h.nodup h'.nodup).mpr members)
  intro j k _ _ hjk hkj
  rw [GroupKey.order_swap, hkj] at hjk
  cases hjk

/-- The keys of some rows, each once, in ascending order. -/
def sortedKeys (keys : List GroupKey) : List GroupKey := keys.dedup.insertionSort GroupKey.AtMost

theorem mem_sortedKeys {keys : List GroupKey} {k : GroupKey} : k ∈ sortedKeys keys ↔ k ∈ keys := by
  rw [sortedKeys, List.mem_insertionSort, List.mem_dedup]

theorem ascending_sortedKeys (keys : List GroupKey) : Ascending (sortedKeys keys) := by
  have hnodup : (sortedKeys keys).Nodup :=
    (List.perm_insertionSort _ _).nodup_iff.mpr (List.nodup_dedup keys)
  refine ((List.pairwise_insertionSort GroupKey.AtMost keys.dedup).and hnodup).imp fun h => ?_
  rcases Ordering.isLE_iff_eq_lt_or_eq_eq.mp h.1 with hlt | heq
  · exact hlt
  · exact absurd (LawfulEqCmp.eq_of_compare heq) h.2

theorem length_sortedKeys_le (keys : List GroupKey) : (sortedKeys keys).length ≤ keys.length := by
  rw [sortedKeys, List.length_insertionSort]
  exact (List.dedup_sublist keys).length_le

variable {g : Groups} {key k : GroupKey} {value : Field}

theorem mem_add : k ∈ (add key value g).map Prod.fst ↔ k = key ∨ k ∈ g.map Prod.fst := by
  induction g with
  | nil => simp [add]
  | cons e rest ih =>
    obtain ⟨j, t⟩ := e
    unfold add
    cases hord : GroupKey.order key j with
    | lt => simp
    | eq => simp [LawfulEqCmp.eq_of_compare hord]
    | gt =>
      simp only [List.map_cons, List.mem_cons, ih]
      tauto

theorem ascending_add (h : Ascending (g.map Prod.fst)) : Ascending ((add key value g).map Prod.fst) := by
  induction g with
  | nil => exact List.pairwise_singleton ..
  | cons e rest ih =>
    obtain ⟨j, t⟩ := e
    obtain ⟨hfirst, hrest⟩ := List.pairwise_cons.mp h
    unfold add
    cases hord : GroupKey.order key j with
    | lt => exact List.pairwise_cons.mpr ⟨h.below hord, h⟩
    | eq => exact h
    | gt =>
      refine List.pairwise_cons.mpr ⟨fun k hk => ?_, ih hrest⟩
      rcases mem_add.mp hk with rfl | hk
      · exact OrientedCmp.gt_iff_lt.mp hord
      · exact hfirst k hk

/-- A value comes to what its group had before, and to no other. -/
theorem find_add (h : Ascending (g.map Prod.fst)) :
    (Assoc.find k (add key value g)).getD {} =
      if key = k then ((Assoc.find k g).getD {}).add value else (Assoc.find k g).getD {} := by
  induction g with
  | nil =>
    simp only [add, Assoc.find]
    split <;> rfl
  | cons e rest ih =>
    obtain ⟨j, t⟩ := e
    unfold add
    cases hord : GroupKey.order key j with
    | lt =>
      -- The key stands before all others, so its group is a new one.
      have hnew : Assoc.find key ((j, t) :: rest) = none :=
        Assoc.find_eq_none_iff.mpr fun hmem => GroupKey.ne_of_order (h.below hord key hmem) (by decide) rfl
      by_cases hk : key = k
      · subst hk
        rw [if_pos rfl, hnew]
        simp [Assoc.find]
      · simp [Assoc.find, hk]
    | eq =>
      obtain rfl := LawfulEqCmp.eq_of_compare hord
      by_cases hk : key = k <;> simp [Assoc.find, hk]
    | gt =>
      have hne : key ≠ j := GroupKey.ne_of_order hord (by decide)
      by_cases hj : j = k
      · have hk : key ≠ k := fun heq => hne (heq.trans hj.symm)
        simp [Assoc.find, hj, hk]
      · simp only [Assoc.find, hj, if_false]
        exact ih (List.pairwise_cons.mp h).2

end Groups

/-! ## The rows that come out -/

namespace Aggregate

variable {a : Aggregate} {rows : List Row}

/-- The value that tells the group of a row apart. -/
def keyOf (a : Aggregate) (row : Row) : GroupKey := a.groupBy.bind row.field?

/-- The values of a group, in the order of the rows. -/
def valuesOf (a : Aggregate) (rows : List Row) (key : GroupKey) : List Field :=
  (rows.filter fun row => a.keyOf row = key).filterMap fun row => row.field? a.field

/-- The groups of some rows, in ascending order. -/
def keys (a : Aggregate) (rows : List Row) : List GroupKey := Groups.sortedKeys (rows.map a.keyOf)

/-- The value of the function for a group. -/
def valueOf (a : Aggregate) (rows : List Row) (key : GroupKey) : Int := a.function.of (a.valuesOf rows key)

/-- One row for each group: what tells it apart, and the value of the function. -/
def summary (a : Aggregate) (rows : List Row) : List Row :=
  (a.keys rows).map fun key =>
    { schema := a.output, fields := key.toList ++ [.int (Int32.ofInt (a.valueOf rows key))] }

/-- The row of a group, if there is room for its value. -/
def answer (a : Aggregate) (rows : List Row) (key : GroupKey) : Except Error Row :=
  if -0x80000000 ≤ a.valueOf rows key ∧ a.valueOf rows key < 0x80000000 then
    .ok { schema := a.output, fields := key.toList ++ [.int (Int32.ofInt (a.valueOf rows key))] }
  else .error (.operator (.overflow a.function (a.valueOf rows key)))

/-- There is room for the value of every group. -/
def InRange (a : Aggregate) (rows : List Row) : Prop :=
  ∀ key ∈ a.keys rows, -0x80000000 ≤ a.valueOf rows key ∧ a.valueOf rows key < 0x80000000

instance (a : Aggregate) (rows : List Row) : Decidable (a.InRange rows) := by
  unfold InRange
  infer_instance

theorem length_summary_le (a : Aggregate) (rows : List Row) : (a.summary rows).length ≤ rows.length := by
  rw [summary, List.length_map]
  exact Nat.le_trans (Groups.length_sortedKeys_le _) (Nat.le_of_eq (List.length_map _))

/-- Every row has a value to sum up. -/
def Covers (a : Aggregate) (rows : List Row) : Prop := ∀ row ∈ rows, ∃ value, row.field? a.field = some value

theorem groups_concat (a : Aggregate) (rows : List Row) (row : Row) :
    a.groups (rows ++ [row]) = a.addRow (a.groups rows) row := List.foldl_concat ..

theorem addRow_eq {row : Row} {value : Field} (h : row.field? a.field = some value) (g : Groups) :
    a.addRow g row = g.add (a.keyOf row) value := by
  rw [addRow, h]
  rfl

/-- The groups that were found while the rows came in. -/
theorem groups_invariant (h : a.Covers rows) :
    Groups.Ascending ((a.groups rows).map Prod.fst) ∧
      (∀ k, k ∈ (a.groups rows).map Prod.fst ↔ k ∈ rows.map a.keyOf) ∧
      ∀ k, (Assoc.find k (a.groups rows)).getD {} = Tally.ofValues (a.valuesOf rows k) := by
  induction rows using List.reverseRecOn with
  | nil => exact ⟨List.Pairwise.nil, fun _ => Iff.rfl, fun _ => rfl⟩
  | append_singleton rows row ih =>
    obtain ⟨value, hvalue⟩ := h row (by simp)
    obtain ⟨hascending, hmem, hfind⟩ := ih fun r hr => h r (List.mem_append_left _ hr)
    rw [groups_concat, addRow_eq hvalue]
    refine ⟨Groups.ascending_add hascending, fun k => ?_, fun k => ?_⟩
    · rw [Groups.mem_add, hmem, List.map_append, List.mem_append, List.map_singleton, List.mem_singleton]
      exact or_comm
    · rw [Groups.find_add hascending, hfind]
      by_cases hk : a.keyOf row = k
      · simp [valuesOf, hk, hvalue, ← Tally.ofValues_concat]
      · simp [valuesOf, hk]

/-- What one pass over the rows finds: each group in its place, with all of its values. -/
theorem groups_eq (h : a.Covers rows) :
    a.groups rows = (a.keys rows).map fun k => (k, Tally.ofValues (a.valuesOf rows k)) := by
  obtain ⟨hascending, hmem, hfind⟩ := groups_invariant h
  have hkeys : a.keys rows = (a.groups rows).map Prod.fst :=
    (Groups.ascending_sortedKeys _).ext hascending fun k => by rw [hmem, Groups.mem_sortedKeys]
  rw [hkeys, List.map_map]
  conv_lhs => rw [← List.map_id (a.groups rows)]
  refine List.map_congr_left fun e he => ?_
  have hvalue := (Assoc.find_eq_some_iff hascending.nodup).mpr he
  have htally := hfind e.1
  rw [hvalue] at htally
  exact Prod.ext rfl htally

/-- The columns that an aggregate names are there, and its own ones have the types of its values. -/
structure Fits (a : Aggregate) (input : Schema) : Prop where
  field : (input.type? a.field).isSome
  output : a.output.types = (a.groupBy.bind input.type?).toList ++ [.int]

theorem fits_of_ofFields {input : Schema} {function : AggregateFunction} {field : Nat} {groupBy : Option Nat}
    (h : ofFields input function field groupBy = .ok a) : a.Fits input := by
  unfold ofFields at h
  split at h
  · cases h
  · rename_i column hcolumn
    have hfield : (input.type? field).isSome := by simp [Schema.type?, Schema.types, hcolumn]
    split at h
    · cases h
    · cases groupBy with
      | none =>
        cases h
        exact ⟨hfield, rfl⟩
      | some index =>
        dsimp only at h
        split at h
        · cases h
        · rename_i group hgroup
          cases h
          refine ⟨hfield, ?_⟩
          simp [Schema.type?, Schema.types, hgroup]

/-- What tells a group apart has the type of its column. -/
theorem type_keyOf (a : Aggregate) {input : Schema} {row : Row} (h : row.Over input) :
    (a.keyOf row).map Field.type = a.groupBy.bind input.type? := by
  unfold keyOf
  cases a.groupBy with
  | none => rfl
  | some index => exact h.type_field? index

section Rows

variable {input : Schema} (fits : a.Fits input) (rowsOver : ∀ row ∈ rows, row.Over input)

include fits rowsOver

theorem Fits.covers : a.Covers rows := by
  intro row hrow
  have htype := (rowsOver row hrow).type_field? a.field
  have hsome := fits.field
  rw [← htype, Option.isSome_map] at hsome
  exact Option.isSome_iff_exists.mp hsome

/-- The row of a group has the types of the aggregate's own columns. -/
theorem Fits.types {key : GroupKey} (hkey : key ∈ a.keys rows) (value : Int32) :
    (key.toList ++ [Field.int value]).map Field.type = a.output.types := by
  obtain ⟨row, hrow, rfl⟩ := List.mem_map.mp (Groups.mem_sortedKeys.mp hkey)
  rw [fits.output, ← type_keyOf a (rowsOver row hrow)]
  cases a.keyOf row <;> rfl

theorem Fits.over_summary : ∀ row ∈ a.summary rows, row.Over a.output := by
  intro row hrow
  obtain ⟨key, hkey, rfl⟩ := List.mem_map.mp hrow
  exact ⟨rfl, fits.types rowsOver hkey _⟩

/-- What comes out is asked of one group after the other. -/
theorem rows_eq_mapM : a.rows rows = (a.keys rows).mapM (a.answer rows) := by
  rw [Aggregate.rows, groups_eq (fits.covers rowsOver), List.mapM_map]
  refine Step.mapM_congr fun key hkey => ?_
  have hvalue : (Tally.ofValues (a.valuesOf rows key)).value a.function = a.valueOf rows key :=
    Tally.value_ofValues ..
  unfold answer
  change (Tally.result _ _ >>= fun value => Row.ofFields a.output (key.toList ++ [value])) = _
  unfold Tally.result
  rw [hvalue]
  by_cases hroom : -0x80000000 ≤ a.valueOf rows key ∧ a.valueOf rows key < 0x80000000
  · simp only [if_pos hroom]
    exact Row.ofFields_of_types (fits.types rowsOver hkey _)
  · simp only [if_neg hroom]
    rfl

/-- Where there is room for every value, the rows that come out are those of the groups. -/
theorem rows_eq (range : a.InRange rows) : a.rows rows = .ok (a.summary rows) := by
  rw [rows_eq_mapM fits rowsOver]
  exact Step.mapM_eq_ok fun key hkey => if_pos (range key hkey)

end Rows

end Aggregate

end PageStore
