-- What an aggregate comes to, whatever its input is, once it gave all of its rows: one row for
-- each group, in order, with the exact value of the function. A tally of fewer than 2^32 values
-- stays within 64 bits all along, so that nothing is lost on the way; only a count or a sum may
-- find no room in the end. The order of the rows does not matter: what is asked of a group can
-- be answered by its values in any order.
import PageStore.Proofs.Operator.Gives
import Mathlib.Algebra.Order.BigOperators.Group.List

namespace PageStore

open Std

/-! ## Exact values -/

/-- The numbers among some values. -/
def Field.numbers (values : List Field) : List Int := values.filterMap Field.number?

namespace AggregateFunction

/-- This is the value of the function for these values. -/
def Exact (values : List Field) (v : Int) : AggregateFunction → Prop
  | .count => v = values.length
  | .sum => v = (Field.numbers values).sum
  | .average => v = (Field.numbers values).sum.tdiv values.length
  | .least => v ∈ Field.numbers values ∧ ∀ n ∈ Field.numbers values, v ≤ n
  | .greatest => v ∈ Field.numbers values ∧ ∀ n ∈ Field.numbers values, n ≤ v

variable {values values' : List Field} {f : AggregateFunction}

/-- The least and the greatest of some values are among them. -/
theorem exact_of (h : f = .count ∨ Field.numbers values ≠ []) : f.Exact values (f.of values) := by
  cases f with
  | count => rfl
  | sum => rfl
  | average => rfl
  | least =>
    have hne : Field.numbers values ≠ [] := h.resolve_left (by decide)
    obtain ⟨v, hv⟩ := Option.isSome_iff_exists.mp (List.isSome_min?_iff.mpr hne)
    have hof : least.of values = v := by rw [of, ← Field.numbers, hv, Option.getD_some]
    rw [hof]
    exact List.min?_eq_some_iff.mp hv
  | greatest =>
    have hne : Field.numbers values ≠ [] := h.resolve_left (by decide)
    obtain ⟨v, hv⟩ := Option.isSome_iff_exists.mp (List.isSome_max?_iff.mpr hne)
    have hof : greatest.of values = v := by rw [of, ← Field.numbers, hv, Option.getD_some]
    rw [hof]
    exact List.max?_eq_some_iff.mp hv

/-- Values in another order have the same value of a function. -/
theorem of_perm (perm : values.Perm values') : f.of values = f.of values' := by
  have hnumbers : (Field.numbers values).Perm (Field.numbers values') := perm.filterMap _
  cases f with
  | count => exact congrArg Int.ofNat perm.length_eq
  | sum => exact hnumbers.sum_eq
  | average =>
    change (Field.numbers values).sum.tdiv values.length = (Field.numbers values').sum.tdiv values'.length
    rw [hnumbers.sum_eq, perm.length_eq]
  | least =>
    have hleast : (Field.numbers values).min? = (Field.numbers values').min? := by
      ext v
      simp only [List.min?_eq_some_iff, hnumbers.mem_iff]
    exact congrArg (Option.getD · 0) hleast
  | greatest =>
    have hgreatest : (Field.numbers values).max? = (Field.numbers values').max? := by
      ext v
      simp only [List.max?_eq_some_iff, hnumbers.mem_iff]
    exact congrArg (Option.getD · 0) hgreatest

end AggregateFunction

/-! ## Bounds -/

theorem sum_bounds {l : List Int} {low high : Int} (h : ∀ n ∈ l, low ≤ n ∧ n ≤ high) :
    l.length * low ≤ l.sum ∧ l.sum ≤ l.length * high := by
  have hlow := List.card_nsmul_le_sum l low fun n hn => (h n hn).1
  have hhigh := List.sum_le_card_nsmul l high fun n hn => (h n hn).2
  rw [nsmul_eq_mul] at hlow hhigh
  exact ⟨hlow, hhigh⟩

namespace Field

variable {values : List Field}

theorem bounds_of_mem_numbers {n : Int} (h : n ∈ numbers values) : -0x80000000 ≤ n ∧ n ≤ 0x7fffffff := by
  obtain ⟨value, -, hvalue⟩ := List.mem_filterMap.mp h
  cases value with
  | int v =>
    obtain rfl : v.toInt = n := Option.some.inj hvalue
    exact ⟨v.le_toInt, Int.le_of_lt_add_one v.toInt_lt⟩
  | str s => cases hvalue

/-- In a column of numbers every value is one. -/
theorem length_numbers (ints : ∀ v ∈ values, v.type = .int) : (numbers values).length = values.length := by
  induction values with
  | nil => rfl
  | cons v values ih =>
    obtain ⟨hv, hvalues⟩ := List.forall_mem_cons.mp ints
    cases v with
    | int v => exact congrArg (· + 1) (ih hvalues)
    | str s => cases hv

theorem numbers_ne_nil (ints : ∀ v ∈ values, v.type = .int) (some : values ≠ []) : numbers values ≠ [] := by
  rw [← List.length_pos_iff, length_numbers ints]
  exact List.length_pos_iff.mpr some

end Field

theorem Tally.in64_ofValues {values : List Field} (few : values.length < 0x100000000) :
    (ofValues values).In64 := by
  have hlength : (Field.numbers values).length ≤ values.length := List.length_filterMap_le ..
  have hsum := sum_bounds (l := Field.numbers values) fun n => Field.bounds_of_mem_numbers
  rw [ofValues_eq]
  refine ⟨⟨Int.natCast_nonneg _, ?_⟩, ?_⟩
  · change (values.length : Int) < _
    omega
  · change _ ≤ (Field.numbers values).sum ∧ (Field.numbers values).sum < _
    omega

namespace AggregateFunction

variable {values : List Field} (ints : ∀ v ∈ values, v.type = .int) (some : values ≠ [])

include ints some

/-- Cut off towards zero, an average is still between the least and the greatest of its values. -/
theorem average_between : least.of values ≤ average.of values ∧ average.of values ≤ greatest.of values := by
  have hne := Field.numbers_ne_nil ints some
  obtain ⟨-, hleast⟩ : least.Exact values _ := exact_of (.inr hne)
  obtain ⟨-, hgreatest⟩ : greatest.Exact values _ := exact_of (.inr hne)
  have hsum := sum_bounds fun n hn => ⟨hleast n hn, hgreatest n hn⟩
  have hpos : (0 : Int) < values.length := Int.natCast_pos.mpr (List.length_pos_iff.mpr some)
  rw [Field.length_numbers ints] at hsum
  constructor
  · calc least.of values = (values.length * least.of values).tdiv values.length :=
          (Int.mul_tdiv_cancel_left _ hpos.ne').symm
      _ ≤ average.of values := Int.tdiv_le_tdiv hpos hsum.1
  · calc average.of values ≤ (values.length * greatest.of values).tdiv values.length :=
          Int.tdiv_le_tdiv hpos hsum.2
      _ = greatest.of values := Int.mul_tdiv_cancel_left _ hpos.ne'

/-- There is always room for them. -/
theorem bounds_of {f : AggregateFunction} (count : f ≠ .count) (sum : f ≠ .sum) :
    -0x80000000 ≤ f.of values ∧ f.of values < 0x80000000 := by
  have hne := Field.numbers_ne_nil ints some
  obtain ⟨hmem, -⟩ : least.Exact values _ := exact_of (.inr hne)
  obtain ⟨hmem', -⟩ : greatest.Exact values _ := exact_of (.inr hne)
  have hleast := Field.bounds_of_mem_numbers hmem
  have hgreatest := Field.bounds_of_mem_numbers hmem'
  have hbetween := average_between ints some
  cases f with
  | count => exact absurd rfl count
  | sum => exact absurd rfl sum
  | average => omega
  | least => omega
  | greatest => omega

end AggregateFunction

/-! ## Keys in order -/

/-- One key stands before another one: a lower number, or a string of lower bytes. -/
def GroupKey.Before : GroupKey → GroupKey → Prop
  | some (.int a), some (.int b) => a.toInt < b.toInt
  | some (.str s), some (.str t) => Utf8.encode s < Utf8.encode t
  | _, _ => False

theorem Field.lt_of_orderBytes {as bs : Bytes} (h : Field.orderBytes as bs = .lt) : as < bs := by
  induction as generalizing bs with
  | nil =>
    cases bs with
    | nil => cases h
    | cons b bs => exact List.nil_lt_cons ..
  | cons a as ih =>
    cases bs with
    | nil => cases h
    | cons b bs =>
      rw [List.cons_lt_cons_iff]
      rcases Ordering.then_eq_lt.mp h with hlt | ⟨heq, hrest⟩
      · exact .inl (UInt8.lt_iff_toNat_lt.mpr (Nat.compare_eq_lt.mp hlt))
      · exact .inr ⟨UInt8.toNat_inj.mp (Nat.compare_eq_eq.mp heq), ih hrest⟩

/-- Keys of one column are numbers, or they are strings. -/
theorem GroupKey.before_of_order {j k : GroupKey} (types : j.map Field.type = k.map Field.type)
    (h : GroupKey.order j k = .lt) : j.Before k := by
  rcases j with _ | (a | s) <;> rcases k with _ | (b | t)
  · cases h
  · cases types
  · cases types
  · cases types
  · exact compare_eq_lt.mp h
  · cases types
  · cases types
  · cases types
  · exact Field.lt_of_orderBytes h

/-! ## The groups of some rows -/

namespace Aggregate

variable {a : Aggregate} {input : Schema} {rows rows' : List Row} {key : GroupKey}
  {function : AggregateFunction} {field : Nat} {groupBy : Option Nat}

/-- What an aggregate was made of. -/
structure MadeOf (a : Aggregate) (input : Schema) (function : AggregateFunction) (field : Nat)
    (groupBy : Option Nat) : Prop where
  supported : ∃ type, input.type? field = some type ∧ function.supports type = true
  function : a.function = function
  field : a.field = field
  groupBy : a.groupBy = groupBy

theorem madeOf_of_ofFields (h : ofFields input function field groupBy = .ok a) :
    a.MadeOf input function field groupBy := by
  unfold ofFields at h
  split at h
  · cases h
  · rename_i column hcolumn
    have htype : input.type? field = some column.type := by simp [Schema.type?, Schema.types, hcolumn]
    split at h
    · cases h
    · rename_i hsupports
      have hsupported : ∃ type, input.type? field = some type ∧ function.supports type = true :=
        ⟨_, htype, by simpa using hsupports⟩
      cases groupBy with
      | none =>
        cases h
        exact ⟨hsupported, rfl, rfl, rfl⟩
      | some index =>
        dsimp only at h
        split at h
        · cases h
        · cases h
          exact ⟨hsupported, rfl, rfl, rfl⟩

theorem mem_keys : key ∈ a.keys rows ↔ ∃ row ∈ rows, a.keyOf row = key := by
  rw [keys, Groups.mem_sortedKeys, List.mem_map]

/-- The groups of some rows: their keys, each once and in order. -/
structure Grouped (a : Aggregate) (rows : List Row) : Prop where
  ordered : (a.keys rows).Pairwise GroupKey.Before
  members : ∀ key, key ∈ a.keys rows ↔ ∃ row ∈ rows, a.keyOf row = key
  alone : a.groupBy = none → a.keys rows = if rows = [] then [] else [none]

theorem grouped (rowsOver : ∀ row ∈ rows, row.Over input) : a.Grouped rows := by
  have hascending := Groups.ascending_sortedKeys (rows.map a.keyOf)
  refine ⟨hascending.imp_of_mem fun hj hk hlt => ?_, fun key => mem_keys, fun hnone => ?_⟩
  · obtain ⟨row, hrow, rfl⟩ := mem_keys.mp hj
    obtain ⟨row', hrow', rfl⟩ := mem_keys.mp hk
    refine GroupKey.before_of_order ?_ hlt
    rw [type_keyOf a (rowsOver row hrow), type_keyOf a (rowsOver row' hrow')]
  · refine hascending.ext ?_ fun key => ?_
    · split
      · exact List.Pairwise.nil
      · exact List.pairwise_singleton ..
    · have hkey : ∀ row, a.keyOf row = none := fun row => by rw [keyOf, hnone, Option.bind_none]
      change key ∈ a.keys rows ↔ _
      rw [mem_keys]
      cases rows <;> simp [hkey, eq_comm]

theorem mem_valuesOf {value : Field} : value ∈ a.valuesOf rows key ↔
    ∃ row ∈ rows, a.keyOf row = key ∧ row.field? a.field = some value := by
  simp only [valuesOf, List.mem_filterMap, List.mem_filter, decide_eq_true_eq, and_assoc]

theorem length_valuesOf_le (a : Aggregate) (rows : List Row) (key : GroupKey) :
    (a.valuesOf rows key).length ≤ rows.length :=
  Nat.le_trans (List.length_filterMap_le ..) (List.length_filter_le ..)

/-- No tally on the way leaves the whole numbers of 64 bits. -/
theorem in64_of_groups (h : a.Covers rows) (few : rows.length < 0x100000000) {group : GroupKey × Tally}
    (hgroup : group ∈ a.groups rows) : group.2.In64 := by
  rw [groups_eq h] at hgroup
  obtain ⟨key, -, rfl⟩ := List.mem_map.mp hgroup
  exact Tally.in64_ofValues (Nat.lt_of_le_of_lt (length_valuesOf_le a rows key) few)

/-- A machine finds the same groups if it never has to put down a number of more than 64 bits. -/
theorem groupsWord_eq (h : ∀ front, front <+: rows → ∀ group ∈ a.groups front, group.2.In64) :
    a.groupsWord rows = a.groups rows := by
  induction rows using List.reverseRecOn with
  | nil => rfl
  | append_singleton front row ih =>
    have hall := h (front ++ [row]) (List.prefix_refl _)
    have hfront := ih fun shorter hshorter => h shorter (hshorter.trans (List.prefix_append front [row]))
    unfold groups at hall
    unfold groupsWord groups at hfront ⊢
    rw [List.foldl_concat] at hall
    rw [List.foldl_concat, List.foldl_concat, hfront]
    unfold addRow at hall
    unfold addRow addRowWord
    split <;> rename_i hvalue
    · rw [hvalue] at hall
      exact Groups.addWord_eq hall
    · rfl

section Values

variable (made : a.MadeOf input function field groupBy) (fits : a.Fits input)
  (rowsOver : ∀ row ∈ rows, row.Over input)

include rowsOver

theorem type_of_mem_valuesOf {value : Field} (h : value ∈ a.valuesOf rows key) :
    input.type? a.field = some value.type := by
  obtain ⟨row, hrow, -, hvalue⟩ := mem_valuesOf.mp h
  rw [← (rowsOver row hrow).type_field? a.field, hvalue]
  rfl

include fits

theorem valuesOf_ne_nil (hkey : key ∈ a.keys rows) : a.valuesOf rows key ≠ [] := by
  obtain ⟨row, hrow, hkey⟩ := mem_keys.mp hkey
  obtain ⟨value, hvalue⟩ := fits.covers rowsOver row hrow
  exact List.ne_nil_of_mem (mem_valuesOf.mpr ⟨row, hrow, hkey, hvalue⟩)

omit fits

include made

/-- The values are numbers, or they are strings that are counted. -/
theorem count_or_ints (key : GroupKey) :
    function = .count ∨ ∀ value ∈ a.valuesOf rows key, value.type = .int := by
  obtain ⟨type, htype, hsupports⟩ := made.supported
  cases type with
  | int =>
    refine .inr fun value hvalue => ?_
    have hof := type_of_mem_valuesOf rowsOver hvalue
    rw [made.field, htype] at hof
    exact (Option.some.inj hof).symm
  | str => exact .inl (by simpa [AggregateFunction.supports] using hsupports)

include fits

/-- Every group has the exact value of the function. -/
theorem exact_valueOf (hkey : key ∈ a.keys rows) :
    function.Exact (a.valuesOf rows key) (a.valueOf rows key) := by
  rw [valueOf, made.function]
  apply AggregateFunction.exact_of
  rcases count_or_ints made rowsOver key with hcount | hints
  · exact .inl hcount
  · exact .inr (Field.numbers_ne_nil hints (valuesOf_ne_nil fits rowsOver hkey))

/-- Only a count or a sum may find no room. -/
theorem inRange_of_bounded (count : function ≠ .count) (sum : function ≠ .sum) : a.InRange rows := by
  intro key hkey
  have hints := (count_or_ints made rowsOver key).resolve_left count
  rw [valueOf, made.function]
  exact AggregateFunction.bounds_of hints (valuesOf_ne_nil fits rowsOver hkey) count sum

end Values

/-! ## Rows in another order -/

theorem keys_perm (perm : rows.Perm rows') : a.keys rows = a.keys rows' := by
  apply (Groups.ascending_sortedKeys _).ext (Groups.ascending_sortedKeys _)
  intro key
  rw [Groups.mem_sortedKeys, Groups.mem_sortedKeys]
  exact (perm.map a.keyOf).mem_iff

theorem valueOf_perm (perm : rows.Perm rows') (key : GroupKey) : a.valueOf rows key = a.valueOf rows' key :=
  AggregateFunction.of_perm ((perm.filter _).filterMap _)

theorem rows_perm (fits : a.Fits input) (rowsOver : ∀ row ∈ rows, row.Over input) (perm : rows.Perm rows') :
    a.rows rows' = a.rows rows := by
  have rowsOver' : ∀ row ∈ rows', row.Over input := fun row hrow => rowsOver row (perm.mem_iff.mpr hrow)
  rw [rows_eq_mapM fits rowsOver, rows_eq_mapM fits rowsOver', keys_perm perm]
  apply Step.mapM_congr
  intro key _
  unfold answer
  rw [valueOf_perm perm]

/-! ## What comes out -/

/-- A column has room for the value of a group. -/
def HasRoom (a : Aggregate) (rows : List Row) (key : GroupKey) : Prop :=
  -0x80000000 ≤ a.valueOf rows key ∧ a.valueOf rows key < 0x80000000

instance (a : Aggregate) (rows : List Row) : DecidablePred (a.HasRoom rows) := fun _ =>
  inferInstanceAs (Decidable (_ ∧ _))

/-- Where there is no room, the first group without it is the error. -/
theorem rows_overflow (fits : a.Fits input) (rowsOver : ∀ row ∈ rows, row.Over input) (h : ¬ a.InRange rows) :
    ∃ front key rest, a.keys rows = front ++ key :: rest ∧ (∀ k ∈ front, a.HasRoom rows k) ∧
      ¬ a.HasRoom rows key ∧ a.rows rows = .error (.operator (.overflow a.function (a.valueOf rows key))) := by
  have h : ¬ ∀ key ∈ a.keys rows, a.HasRoom rows key := h
  have hfound : ((a.keys rows).find? fun key => ¬ a.HasRoom rows key).isSome := by
    simpa [List.find?_isSome] using h
  obtain ⟨key, hkey⟩ := Option.isSome_iff_exists.mp hfound
  obtain ⟨hnone, front, rest, hkeys, hfront⟩ := List.find?_eq_some_iff_append.mp hkey
  have hnone : ¬ a.HasRoom rows key := of_decide_eq_true hnone
  have hfront : ∀ k ∈ front, a.HasRoom rows k := fun k hk => by simpa using hfront k hk
  refine ⟨front, key, rest, hkeys, hfront, hnone, ?_⟩
  rw [rows_eq_mapM fits rowsOver, hkeys]
  exact Step.mapM_eq_error (fun k hk => if_pos (hfront k hk)) (if_neg hnone)

section Runs

variable {σ : Type} {child : Source σ} {s : AggregateCursor σ × Pool} {c : σ} {p : Pool}

theorem init_eq (a : Aggregate) (child : Source σ) :
    a.init child = (do
      let input ← onChild child.collect
      let results ← Step.ofExcept (a.rows input)
      Source.change fun c => { c with results, started := true }) := by
  funext s
  unfold init onChild Source.collect Source.onPart
  rw [Step.bind_run, Step.bind_run]
  unfold Step.focus
  rw [Step.bind_run]
  cases child.init (s.1.child, s.2) with
  | mk r m => cases r <;> rfl

/-- A start over an input that gives all of its rows. -/
theorem init_run (drained : child.collect (s.1.child, s.2) = (.ok rows, (c, p))) :
    a.init child s = match a.rows rows with
      | .ok results => (.ok (), ({ child := c, results, started := true }, p))
      | .error e => (.error e, ({ s.1 with child := c }, p)) := by
  have hchild : onChild child.collect s = (.ok rows, ({ s.1 with child := c }, p)) := by
    simp only [onChild, Source.onPart, Step.focus, drained]
  rw [init_eq]
  refine Eq.trans (Step.bind_of_ok hchild _) ?_
  cases hrows : a.rows rows with
  | ok results => simp only [Step.bind_run, Step.ofExcept_run]; rfl
  | error e => simp only [Step.bind_run, Step.ofExcept_run]

theorem next_run (started : s.1.started = true) :
    next s = (.ok s.1.results.head?, ({ s.1 with results := s.1.results.tail }, s.2)) := by
  have hcursor : Source.cursor s = (.ok s.1, s) := Step.read_run ..
  unfold next
  refine Eq.trans (Step.bind_of_ok hcursor _) ?_
  rw [started]
  rfl

/-- The rows that are left come out one by one. -/
theorem collect_next {calls : Nat} (started : s.1.started = true) (hcalls : s.1.results.length < calls) :
    Step.collect next calls s = (.ok s.1.results, ({ s.1 with results := [] }, s.2)) := by
  induction calls generalizing s with
  | zero => exact absurd hcalls (Nat.not_lt_zero _)
  | succ calls ih =>
    have hnext := next_run started
    cases hresults : s.1.results with
    | nil =>
      rw [hresults] at hnext
      exact Step.bind_of_ok hnext _
    | cons row rest =>
      rw [hresults] at hnext hcalls
      have hrest := ih (s := ({ s.1 with results := rest }, s.2)) started (Nat.lt_of_succ_lt_succ hcalls)
      exact (Step.bind_of_ok hnext _).trans (Step.bind_of_ok hrest _)

theorem drain_run (started : s.1.started = true) :
    (a.source child).drain s = (.ok s.1.results, ({ s.1 with results := [] }, s.2)) :=
  (Step.bind_of_ok (Step.state_run _) _).trans
    (collect_next started (Nat.lt_succ_of_le (Nat.le_add_right ..)))

/-- A start and the rows that come after it: what comes out, or the error. -/
theorem collect_run (drained : child.collect (s.1.child, s.2) = (.ok rows, (c, p))) :
    (a.source child).collect s = match a.rows rows with
      | .ok results => (.ok results, ({ child := c, results := [], started := true }, p))
      | .error e => (.error e, ({ s.1 with child := c }, p)) := by
  have hinit := init_run (a := a) drained
  cases hrows : a.rows rows with
  | ok results =>
    rw [hrows] at hinit
    exact (Step.bind_of_ok hinit _).trans (drain_run rfl)
  | error e =>
    rw [hrows] at hinit
    exact Step.bind_of_error hinit _

end Runs

/-! ## The law -/

/-- The values of the groups, and of what they are made up. -/
structure Tallied (a : Aggregate) (input : Schema) (function : AggregateFunction) (field : Nat)
    (rows : List Row) : Prop where
  exact : ∀ key ∈ a.keys rows, function.Exact (a.valuesOf rows key) (a.valueOf rows key)
  /-- However many rows came in, each tally has two numbers of 64 bits. -/
  within : ∀ front, front <+: rows → ∀ group ∈ a.groups front, group.2.In64
  between : input.type? field = some .int → ∀ key ∈ a.keys rows,
    AggregateFunction.least.of (a.valuesOf rows key) ≤ AggregateFunction.average.of (a.valuesOf rows key) ∧
      AggregateFunction.average.of (a.valuesOf rows key) ≤ AggregateFunction.greatest.of (a.valuesOf rows key)
  bounded : function ≠ .count → function ≠ .sum → a.InRange rows

theorem tallied (made : a.MadeOf input function field groupBy) (fits : a.Fits input)
    (rowsOver : ∀ row ∈ rows, row.Over input) (few : rows.length < 0x100000000) :
    a.Tallied input function field rows where
  exact _ hkey := exact_valueOf made fits rowsOver hkey
  within front hfront group hgroup := by
    have hcovers : a.Covers front := fun row hrow => fits.covers rowsOver row (hfront.subset hrow)
    exact in64_of_groups hcovers (Nat.lt_of_le_of_lt hfront.length_le few) hgroup
  between hint key hkey := by
    apply AggregateFunction.average_between ?_ (valuesOf_ne_nil fits rowsOver hkey)
    intro value hvalue
    have htype := type_of_mem_valuesOf rowsOver hvalue
    rw [made.field, hint] at htype
    exact (Option.some.inj htype).symm
  bounded count sum := inRange_of_bounded made fits rowsOver count sum

/-- Once its input gave fewer than 2^32 rows, an aggregate gives one row for each group, in order, with the
exact value of the function, and nothing on the way needs more than 64 bits. It fails if the value of some
group finds no room, which only a count or a sum can do. The order in which the rows come makes no
difference to what comes out. -/
theorem an_aggregate_gives_the_exact_totals {σ : Type} {child : Source σ}
    (built : ofFields child.schema function field groupBy = .ok a)
    (rowsOver : ∀ row ∈ rows, row.Over child.schema) (few : rows.length < 0x100000000)
    {s : AggregateCursor σ × Pool} {c : σ} {p : Pool}
    (drained : child.collect (s.1.child, s.2) = (.ok rows, (c, p))) :
    a.MadeOf child.schema function field groupBy ∧ a.Grouped rows ∧
    a.Tallied child.schema function field rows ∧
    (a.InRange rows → ∃ m, (a.source child).init s = (.ok (), m) ∧
      (a.source child).drain m = (.ok (a.summary rows), ({ child := c, results := [], started := true }, p)) ∧
      ∀ key ∈ a.keys rows, (Int32.ofInt (a.valueOf rows key)).toInt = a.valueOf rows key) ∧
    (¬ a.InRange rows → ∃ front key rest, a.keys rows = front ++ key :: rest ∧
      (∀ k ∈ front, a.HasRoom rows k) ∧ ¬ a.HasRoom rows key ∧
      (a.source child).init s =
        (.error (.operator (.overflow function (a.valueOf rows key))), ({ s.1 with child := c }, p))) ∧
    ∀ {τ : Type} {child' : Source τ} {s' : AggregateCursor τ × Pool} {rows' : List Row} {c' : τ} {p' : Pool},
      child'.collect (s'.1.child, s'.2) = (.ok rows', (c', p')) → rows.Perm rows' →
      ((a.source child').collect s').1 = ((a.source child).collect s).1 := by
  have made := madeOf_of_ofFields built
  have fits := fits_of_ofFields built
  have hinit := init_run (a := a) drained
  refine ⟨made, grouped rowsOver, tallied made fits rowsOver few, fun range => ?gives, fun out => ?fails, ?perm⟩
  case gives =>
    rw [rows_eq fits rowsOver range] at hinit
    refine ⟨_, hinit, drain_run rfl, fun key hkey => ?_⟩
    exact Int32.toInt_ofInt_of_le (range key hkey).1 (range key hkey).2
  case fails =>
    obtain ⟨front, key, rest, hkeys, hfront, hkey, hrows⟩ := rows_overflow fits rowsOver out
    rw [hrows, made.function] at hinit
    exact ⟨front, key, rest, hkeys, hfront, hkey, hinit⟩
  case perm =>
    intro τ child' s' rows' c' p' drained' perm
    rw [collect_run drained, collect_run drained', rows_perm fits rowsOver perm]
    cases a.rows rows <;> rfl

/-- What each of two people was paid, as it was written down. -/
def payments : Replay where
  schema := ⟨[⟨"name", .str⟩, ⟨"paid", .int⟩]⟩
  rows := [("bo", 2147483647), ("ann", -7), ("bo", 1), ("ann", 0)].map fun e =>
    { schema := ⟨[⟨"name", .str⟩, ⟨"paid", .int⟩]⟩, fields := [.str e.1, .int e.2] }

/-- The average, or the sum, for each name. -/
def perName (function : AggregateFunction) : Aggregate where
  function
  field := 1
  groupBy := some 0
  output := ⟨[⟨"name", .str⟩, ⟨s!"{function.name}(paid)", .int⟩]⟩

/-- No average was started yet. -/
def atFirst : AggregateCursor ReplayCursor × Pool :=
  ({ child := {} }, { config := { capacity := 1, pageSize := 64 }, storage := Storage.oneTable })

theorem an_average_finds_room_where_a_sum_does_not :
    (∃ m n, ((perName .average).source payments.source).init atFirst = (.ok (), m) ∧
      ((perName .average).source payments.source).drain m = (.ok ((perName .average).summary payments.rows), n)) ∧
    ((perName .average).summary payments.rows).map Row.fields =
      [[.str "ann", .int (-3)], [.str "bo", .int 1073741824]] ∧
    (∃ m, ((perName .sum).source payments.source).init atFirst =
      (.error (.operator (.overflow .sum 2147483648)), m)) ∧
    let reversed : Replay := { payments with rows := payments.rows.reverse }
    (((perName .average).source reversed.source).collect atFirst).1 =
      (((perName .average).source payments.source).collect atFirst).1 := by
  have rowsOver : ∀ row ∈ payments.rows, row.Over payments.source.schema := by
    intro row hrow
    obtain ⟨e, -, rfl⟩ := List.mem_map.mp hrow
    exact ⟨rfl, rfl⟩
  have few : payments.rows.length < 0x100000000 := by decide
  have drained : payments.source.collect (atFirst.1.child, atFirst.2) =
      (.ok payments.rows, ({ starts := 1, position := 5 }, atFirst.2)) := rfl
  have average : ofFields payments.source.schema .average 1 (some 0) = .ok (perName .average) := rfl
  have sum : ofFields payments.source.schema .sum 1 (some 0) = .ok (perName .sum) := rfl
  obtain ⟨-, -, -, gives, -, perm⟩ := an_aggregate_gives_the_exact_totals average rowsOver few (s := atFirst) drained
  obtain ⟨-, -, -, -, fails, -⟩ := an_aggregate_gives_the_exact_totals sum rowsOver few (s := atFirst) drained
  obtain ⟨m, hinit, hdrain, -⟩ := gives (by decide +kernel)
  obtain ⟨front, key, rest, hkeys, -, hkey, herror⟩ := fails (by decide +kernel)
  have hmem : key ∈ (perName .sum).keys payments.rows := hkeys ▸ by simp
  have hthese : (perName .sum).keys payments.rows = [some (.str "ann"), some (.str "bo")] := by decide +kernel
  rw [hthese, List.mem_pair] at hmem
  refine ⟨⟨m, _, hinit, hdrain⟩, by decide +kernel, ?_, perm rfl (List.reverse_perm _).symm⟩
  rcases hmem with rfl | rfl
  · exact absurd (by decide +kernel) hkey
  · have hvalue : (perName .sum).valueOf payments.rows (some (.str "bo")) = 2147483648 := by decide +kernel
    rw [hvalue] at herror
    exact ⟨_, herror⟩

end Aggregate

end PageStore
