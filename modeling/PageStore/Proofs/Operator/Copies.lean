-- A table that is copied by an insert over a scan, into another table or into itself. The
-- scan reads a page only when it comes to it, so that copies that were put on pages in
-- front of it are read, and copied, too. Each row that was there at first and each of
-- these copies is copied once; into another table only the rows that were there.
import PageStore.Proofs.Operator.Inserts
import PageStore.Proofs.Pool.Drained

namespace PageStore

/-! ## The page that was read last -/

namespace Scan

open Pool

/-- The row is on the page that was read last. -/
def OnLast (s : Scan) (row : Row) : Prop :=
  ∃ number slot, s.nextPage = number + 1 ∧ row.place = some ⟨⟨s.table, number⟩, slot⟩

/-- All rows that were read and not given are. -/
def QueueOnLast (s : Scan) : Prop := ∀ row ∈ s.queue, s.OnLast row

variable {s : Scan × Pool}

theorem readUntilRow_onLast (numbers : List Nat) (keyed : Keyed s.2) :
    (readUntilRow numbers).Ends s fun r t => r = .ok true → t.1.QueueOnLast := by
  induction numbers generalizing s with
  | nil => rintro ⟨⟩
  | cons number rest ih =>
    unfold readUntilRow
    refine Step.Ends.of_ok (Step.update_run _ s) (Step.Ends.of_ok (Step.read_run _ _) ?_)
    rcases hrun : Pool.fetch s.1.tx ⟨s.1.table, number⟩ .shared s.2 with ⟨r, q⟩
    have hfetch : onPool (Pool.fetch s.1.tx ⟨s.1.table, number⟩ .shared)
        ({ s.1 with nextPage := number + 1 }, s.2) = (r, { s.1 with nextPage := number + 1 }, q) :=
      Step.focus_run hrun
    cases r with
    | error e =>
      refine Step.Ends.of_error hfetch ?_
      rintro ⟨⟩
    | ok page =>
      have hkeyed : Keyed q := Quiets.keyed (Quiets.of_looks (looks_of_fetch hrun) : Quiets s.2.locks _ _ _) keyed
      have hid : page.id = ⟨s.1.table, number⟩ := hkeyed _ _ (got_of_fetch hrun).1
      refine Step.Ends.of_ok hfetch (Step.Ends.of_ok (Step.update_run _ _) ?_)
      split
      · exact ih hkeyed
      · intro _ row hrow
        obtain ⟨slot, hplace⟩ := Page.place_of_mem_rows hrow
        exact ⟨number, slot, rfl, hid ▸ hplace⟩

theorem refill_onLast (keyed : Keyed s.2) : refill.Ends s fun r t => r = .ok true → t.1.QueueOnLast := by
  unfold refill
  refine Step.Ends.of_ok (Step.read_run _ s) ?_
  refine Step.Ends.bind (P := fun _ t => t = s) rfl ?_ (fun _ _ _ h => nomatch h)
  rintro file t rfl
  refine Step.Ends.bind (P := fun _ s => s = t) rfl ?_ (fun _ _ _ h => nomatch h)
  rintro numPages s rfl
  exact readUntilRow_onLast _ keyed

theorem pop_onLast (h : s.1.QueueOnLast) :
    pop.Ends s fun r t => ∀ row, r = .ok (some row) → t.1.OnLast row ∧ t.1.QueueOnLast := by
  unfold pop
  refine Step.Ends.of_ok (Step.read_run _ s) ?_
  split
  · exact fun _ h => nomatch h
  · rename_i row rest hqueue
    rintro _ ⟨⟩
    have hall : ∀ other ∈ row :: rest, s.1.OnLast other := hqueue ▸ h
    exact ⟨hall row List.mem_cons_self, fun other hother => hall other (List.mem_cons_of_mem row hother)⟩

theorem next_onLast (h : s.1.QueueOnLast) (keyed : Keyed s.2) :
    next.Ends s fun r t => ∀ row, r = .ok (some row) → t.1.OnLast row ∧ t.1.QueueOnLast := by
  unfold next
  refine Step.Ends.of_ok (Step.read_run _ s) ?_
  split
  · split
    · exact fun _ h => nomatch h
    · refine Step.Ends.bind_attempt (refill_onLast keyed) ?_
      rintro (e | _ | _) t ht
      · exact fun _ h => nomatch h
      · exact fun _ h => nomatch h
      · exact pop_onLast (ht rfl)
  · exact pop_onLast h

end Scan

/-! ## One row more -/

namespace Pool

variable {p q first : Pool} {table : TableId} {file : TableFile} {row : Row} {rows : List (RecordId × Row)}
  {place : RecordId}

/-- The places that are left without a row come behind those that were filled. -/
def AllBehind (table : TableId) (file : TableFile) (rows : List (RecordId × Row)) (p : Pool) : Prop :=
  ∀ e ∈ rows, ∀ other, Empty table file p other → e.1.order other = .lt

theorem LooksSame.empty_iff (h : LooksSame p q) : Empty table file q place ↔ Empty table file p place := by
  constructor
  · exact fun hempty => ⟨hempty.table, hempty.slot, (h.rowAt? place).symm.trans hempty.row⟩
  · exact fun hempty => ⟨hempty.table, hempty.slot, (h.rowAt? place).trans hempty.row⟩

theorem LooksSame.fills (h : LooksSame p q) (fills : Fills table file rows first p) :
    Fills table file rows first q where
  ascending := fills.ascending
  empty := fills.empty
  there e he := (h.rowAt? e.1).trans (fills.there e he)
  others place hplace := (h.rowAt? place).trans (fills.others place hplace)

/-- A row that is taken comes behind all that were taken before it. -/
theorem Fills.snoc (h : Fills table file rows first p) (behind : AllBehind table file rows p)
    (puts : Puts table file row p (.ok place) q) : Fills table file (rows ++ [(place, row)]) first q := by
  have hempty := puts.empty place rfl
  have hbefore : ∀ e ∈ rows, e.1.order place = .lt := fun e he => behind e he place hempty
  have hne : ∀ e ∈ rows, e.1 ≠ place := fun e he => ne_of_order (hbefore e he)
  have hothers : ∀ other, other ≠ place → q.rowAt? other = p.rowAt? other :=
    fun other hother => puts.others other fun heq => hother (Except.ok.inj heq).symm
  constructor
  case ascending =>
    refine List.pairwise_append.mpr ⟨h.ascending, List.pairwise_singleton .., fun e he e' he' => ?_⟩
    rw [List.mem_singleton.mp he']
    exact hbefore e he
  case empty =>
    refine List.forall_mem_append.mpr ⟨h.empty, List.forall_mem_singleton.mpr ?_⟩
    exact ⟨hempty.table, hempty.slot, (h.others place hne).symm.trans hempty.row⟩
  case there =>
    refine List.forall_mem_append.mpr ⟨fun e he => ?_, List.forall_mem_singleton.mpr (puts.there place rfl)⟩
    exact (hothers e.1 (hne e he)).trans (h.there e he)
  case others =>
    intro other hother
    obtain ⟨hrows, hlast⟩ := List.forall_mem_append.mp hother
    have hlast : place ≠ other := hlast _ (List.mem_singleton_self _)
    exact (hothers other hlast.symm).trans (h.others other hrows)

theorem AllBehind.snoc (behind : AllBehind table file rows p) (puts : Puts table file row p (.ok place) q) :
    AllBehind table file (rows ++ [(place, row)]) q := by
  refine List.forall_mem_append.mpr ⟨fun e he other hempty => ?_, List.forall_mem_singleton.mpr (puts.first place rfl)⟩
  have hne : (.ok place : Except Error RecordId) ≠ .ok other := by
    rintro ⟨⟩
    have hrow := hempty.row
    rw [puts.there place rfl] at hrow
    cases hrow
  exact behind e he other ⟨hempty.table, hempty.slot, (puts.others other hne).symm.trans hempty.row⟩

end Pool

/-! ## Copies -/

/-- A row that was read, and the place to which its values were copied. -/
structure Copied where
  row : Row
  place : RecordId
  deriving Repr, DecidableEq

namespace Copied

/-- The copy is on a page of the table behind the page of the row. -/
def Ahead (source : TableId) (e : Copied) : Prop :=
  e.place.page.table = source ∧ ∃ place ∈ e.row.place, place.page.number < e.place.page.number

instance (source : TableId) : DecidablePred (Ahead source) := fun e =>
  inferInstanceAs (Decidable (_ ∧ ∃ place ∈ e.row.place, place.page.number < e.place.page.number))

/-- The copy as a row of a table with these columns. -/
def asRow (schema : Schema) (e : Copied) : Row := { schema, fields := e.row.fields, place := some e.place }

end Copied

/-- An insert over the scan of a table, and the pool with which it begins, which came about from the first one. -/
structure Transfer where
  first : Pool
  sure : Pool.Sure first
  start : Pool
  reached : Pool.Undisturbed first start
  source : TableId
  sourceFile : TableFile
  sourceKnown : start.catalog.tableFile? source = some sourceFile
  target : InsertTarget
  targetFile : TableFile
  targetKnown : start.catalog.tableFile? target.table = some targetFile

namespace Transfer

open Pool Source

variable (T : Transfer)

/-- The row is to be read: it was there at first, or it is a copy that was put in front of the scan. -/
def ToRead (copies : List Copied) (row : Row) : Prop :=
  RowOf T.start T.source T.sourceFile row ∨ ∃ e ∈ copies, e.Ahead T.source ∧ row = e.asRow T.sourceFile.schema

def stored (copies : List Copied) : List (RecordId × Row) := copies.map fun e => (e.place, T.target.own e.row)

/-- What is known when these copies were made and the pages before a number were read: these are the rows on
them, in order, which are rows to be read, and only rows on these pages were copied. -/
structure Knows (copies : List Copied) (n : Nat) (rows : List Row) (p : Pool) : Prop where
  reached : Undisturbed T.first p
  catalog : p.catalog = T.start.catalog
  fills : Fills T.target.table T.targetFile (T.stored copies) T.start p
  behind : AllBehind T.target.table T.targetFile (T.stored copies) p
  sorted : rows.Pairwise Row.Before
  mem_rows : ∀ row, row ∈ rows ↔ T.ToRead copies row ∧ ∃ place ∈ row.place, place.page.number < n
  sources : ∀ e ∈ copies, ∃ place ∈ e.row.place, place.page.number < n

variable {T} {copies : List Copied} {n : Nat} {rows : List Row} {row : Row} {p q : Pool}

theorem Knows.faithful (h : T.Knows copies n rows p) : Faithful p := (h.reached.sure T.sure).faithful

theorem Knows.sourceKnown (h : T.Knows copies n rows p) : p.catalog.tableFile? T.source = some T.sourceFile :=
  h.catalog ▸ T.sourceKnown

theorem Knows.targetKnown (h : T.Knows copies n rows p) :
    p.catalog.tableFile? T.target.table = some T.targetFile := h.catalog ▸ T.targetKnown

theorem knows_start : T.Knows [] 0 [] T.start where
  reached := T.reached
  catalog := rfl
  fills := ⟨List.Pairwise.nil, fun _ he => (nomatch he), fun _ he => (nomatch he), fun _ _ => rfl⟩
  behind _ he := nomatch he
  sorted := List.Pairwise.nil
  mem_rows row := by simp
  sources _ he := nomatch he

theorem Knows.of_looks (h : T.Knows copies n rows p) (reached : Undisturbed T.first q) (same : LooksSame p q) :
    T.Knows copies n rows q where
  reached := reached
  catalog := (congrArg Storage.catalog same.storage).trans h.catalog
  fills := same.fills h.fills
  behind e he other hempty := h.behind e he other (same.empty_iff.mp hempty)
  sorted := h.sorted
  mem_rows := h.mem_rows
  sources := h.sources

/-- What is to be read is in the table. -/
theorem Knows.rowOf (h : T.Knows copies n rows p) (toRead : T.ToRead copies row) :
    RowOf p T.source T.sourceFile row := by
  rcases toRead with ⟨place, hplace, htable, hschema, hfields⟩ | ⟨e, he, ⟨htable, -⟩, rfl⟩
  · refine ⟨place, hplace, htable, hschema, ?_⟩
    rw [h.fills.others place, hfields]
    rintro e he rfl
    -- a copy went to a place without a row
    have hnone := (h.fills.empty e he).row
    rw [hfields] at hnone
    cases hnone
  · exact ⟨e.place, rfl, htable, rfl, h.fills.there _ (List.mem_map_of_mem he)⟩

/-- What is in the table on pages that were not read yet is to be read. -/
theorem Knows.toRead (h : T.Knows copies n rows p) (isRow : RowOf p T.source T.sourceFile row)
    {place : RecordId} (hplace : row.place = some place) (unread : n ≤ place.page.number) :
    T.ToRead copies row := by
  obtain ⟨_, hrow, htable, hschema, hfields⟩ := isRow
  obtain rfl := Option.some.inj (hplace.symm.trans hrow)
  by_cases hcopied : ∃ e ∈ copies, e.place = place
  · obtain ⟨e, he, rfl⟩ := hcopied
    obtain ⟨source, hsource, hlt⟩ := h.sources e he
    refine .inr ⟨e, he, ⟨htable, source, hsource, Nat.lt_of_lt_of_le hlt unread⟩, ?_⟩
    have hthere : p.rowAt? e.place = some e.row.fields := h.fills.there _ (List.mem_map_of_mem he)
    have heq : row.fields = e.row.fields := Option.some.inj (hfields.symm.trans hthere)
    obtain ⟨schema, fields, place⟩ := row
    cases hplace
    cases heq
    exact congrArg (fun schema => Row.mk schema e.row.fields (some e.place)) hschema
  · refine .inl ⟨place, hplace, htable, hschema, ?_⟩
    rw [← h.fills.others place, hfields]
    intro e he hplace
    obtain ⟨copy, hcopy, rfl⟩ := List.mem_map.mp he
    exact hcopied ⟨copy, hcopy, hplace⟩

/-! ## Reading on -/

theorem Knows.fetched (h : T.Knows copies n rows p) {number : Nat} {r : Except Error Page}
    (run : fetch T.target.tx ⟨T.source, number⟩ .shared p = (r, q)) : T.Knows copies n rows q := by
  have hreached := h.reached.call (.fetch [] T.target.tx ⟨T.source, number⟩ .shared) trivial
  have hafter : p.after (.fetch [] T.target.tx ⟨T.source, number⟩ .shared) = q := congrArg Prod.snd run
  exact h.of_looks (hafter ▸ hreached) (.of_looks (looks_of_fetch run) h.faithful)

/-- The rows on the next page are those that are to be read on it. -/
theorem Knows.read (h : T.Knows copies n rows p) {page : Page} (seen : p.seen ⟨T.source, n⟩ = .ok page) :
    T.Knows copies (n + 1) (rows ++ page.rows) p := by
  have hpage := mem_rows_of_seen h.faithful h.sourceKnown seen
  refine { h with sorted := ?_, mem_rows := fun row => ?_, sources := fun e he => ?_ }
  · refine List.pairwise_append.mpr ⟨h.sorted, page.rows_sorted, fun row hrow other hother => ?_⟩
    obtain ⟨htoRead, place, hplace, hlt⟩ := (h.mem_rows row).mp hrow
    obtain ⟨-, slot, hother⟩ := (hpage other).mp hother
    obtain ⟨_, hrow, htable, -⟩ := h.rowOf htoRead
    obtain rfl := Option.some.inj (hplace.symm.trans hrow)
    refine ⟨_, _, hrow, hother, ?_⟩
    rw [RecordId.order_eq_lt_iff, PageId.order_eq_lt_iff]
    exact .inl (.inr ⟨htable, hlt⟩)
  · rw [List.mem_append, h.mem_rows, hpage]
    constructor
    · rintro (⟨htoRead, place, hplace, hlt⟩ | ⟨hrow, slot, hplace⟩)
      · exact ⟨htoRead, place, hplace, Nat.lt_succ_of_lt hlt⟩
      · exact ⟨h.toRead hrow hplace (Nat.le_refl n), _, hplace, Nat.lt_succ_self n⟩
    · rintro ⟨htoRead, ⟨⟨table, number⟩, slot⟩, hplace, hlt⟩
      obtain hlt | rfl := Nat.lt_succ_iff_lt_or_eq.mp hlt
      · exact .inl ⟨htoRead, _, hplace, hlt⟩
      · have hrow := h.rowOf htoRead
        obtain ⟨_, hrow', htable, -⟩ := hrow
        obtain rfl := Option.some.inj (hplace.symm.trans hrow')
        obtain rfl : table = T.source := htable
        exact .inr ⟨h.rowOf htoRead, slot, hplace⟩
  · obtain ⟨place, hplace, hlt⟩ := h.sources e he
    exact ⟨place, hplace, Nat.lt_succ_of_lt hlt⟩

theorem walk_knows (T : Transfer) (copies : List Copied) :
    Scan.Walk T.target.tx T.source (T.Knows copies) where
  got _ _ _ _ _ h run := (h.fetched run).read (seen_of_page (got_of_fetch run).1)
  notGot _ _ _ _ _ h run := h.fetched run

/-! ## Copying a row -/

/-- A row of the page that was read last is copied. The copy is in front of the scan or on a page that was read. -/
theorem Knows.copied (h : T.Knows copies n rows p) {scan : Scan} (hn : scan.nextPage = n) (onLast : scan.OnLast row)
    (takes : T.target.Takes row) {place : RecordId}
    (run : insert T.target.tx T.target.table (T.target.own row) p = (.ok place, q)) :
    T.Knows (copies ++ [⟨row, place⟩]) n rows q := by
  obtain ⟨number, slot, hnext, hplace⟩ := onLast
  have hnumber : n = number + 1 := hn.symm.trans hnext
  have hreached := h.reached.call (.insert T.target.tx T.target.table (T.target.own row)) takes
  have hafter : p.after (.insert T.target.tx T.target.table (T.target.own row)) = q := congrArg Prod.snd run
  have hputs := insert_puts (h.reached.sure T.sure) h.targetKnown T.target.tx (T.target.own row)
  rw [Step.Ends, run] at hputs
  have hstored : T.stored (copies ++ [⟨row, place⟩]) = T.stored copies ++ [(place, T.target.own row)] := List.map_append
  constructor
  case reached => exact hafter ▸ hreached
  case catalog => exact hputs.catalog.trans h.catalog
  case fills => exact hstored ▸ h.fills.snoc h.behind hputs
  case behind => exact hstored ▸ h.behind.snoc hputs
  case sorted => exact h.sorted
  case sources =>
    refine List.forall_mem_append.mpr ⟨h.sources, List.forall_mem_singleton.mpr ?_⟩
    exact ⟨_, hplace, hnumber ▸ Nat.lt_succ_self number⟩
  case mem_rows =>
    intro other
    rw [h.mem_rows]
    refine and_congr_left fun hread => or_congr_right ?_
    obtain ⟨place', hplace', hlt⟩ := hread
    constructor
    · rintro ⟨e, he, hother⟩
      exact ⟨e, List.mem_append_left _ he, hother⟩
    · rintro ⟨e, he, ⟨htable, source, hsource, hahead⟩, rfl⟩
      obtain he | he := List.mem_append.mp he
      · exact ⟨e, he, ⟨htable, source, hsource, hahead⟩, rfl⟩
      · -- the new copy is not on a page that was read, if it is ahead of its row
        obtain rfl := List.mem_singleton.mp he
        obtain rfl : source = ⟨⟨scan.table, number⟩, slot⟩ := Option.some.inj (hsource.symm.trans hplace)
        obtain rfl := Option.some.inj hplace'
        exact absurd hlt (by dsimp only at hahead ⊢; omega)

/-! ## All rows -/

theorem insertRow_eq_ok {t : InsertTarget} {row : Row} {p q : Pool} (run : t.insertRow row p = (.ok (), q)) :
    t.Takes row ∧ ∃ place, insert t.tx t.table (t.own row) p = (.ok place, q) := by
  have htypes : t.Takes row := by
    cases hrow : Row.ofFields t.schema row.fields with
    | ok own => exact (Row.ofFields_eq_ok.mp hrow).1
    | error e =>
      unfold InsertTarget.insertRow at run
      rw [hrow] at run
      cases run
  refine ⟨htypes, ?_⟩
  rcases hinsert : insert t.tx t.table (t.own row) p with ⟨r, m⟩
  rw [InsertTarget.insertRow_run htypes hinsert] at run
  cases r with
  | error e => cases run
  | ok place =>
    cases run
    exact ⟨place, rfl⟩

variable {schema : Schema} {s : InsertCursor Scan × Pool}

/-- The rows that the scan gave are those that were copied. -/
structure Going (T : Transfer) (copies : List Copied) (s : InsertCursor Scan × Pool) : Prop where
  scan : Scan.Unbroken T.target.tx T.source (T.Knows copies) (copies.map Copied.row) (s.1.child, s.2)
  onLast : s.1.child.QueueOnLast

/-- A loop that ends without an error has copied one row after the other up to the end of the scan. -/
theorem insertAll_copies (calls : Nat) (h : T.Going copies s) :
    (T.target.insertAll (Scan.source schema) calls copies.length).Ends s fun r m => ∀ count, r = .ok count →
      ∃ all, count = all.length ∧ m.1.child.finished = true ∧ m.1.started = s.1.started ∧
        Scan.Unbroken T.target.tx T.source (T.Knows all) (all.map Copied.row) (m.1.child, m.2) := by
  induction calls generalizing s copies with
  | zero => rintro _ ⟨⟩
  | succ calls ih =>
    unfold InsertTarget.insertAll
    rcases hnext : Scan.next (s.1.child, s.2) with ⟨r, scan, p⟩
    have hchild : (InsertTarget.onChild (Scan.source schema).next) s = (r, ({ s.1 with child := scan }, p)) :=
      InsertTarget.onChild_run hnext
    cases r with
    | error e =>
      refine Step.Ends.of_error hchild ?_
      rintro _ ⟨⟩
    | ok value =>
      obtain ⟨hscan, hfinished⟩ := h.scan.next (walk_knows T copies) hnext
      refine Step.Ends.of_ok hchild ?_
      cases value with
      | none =>
        rintro _ ⟨⟩
        rw [Option.toList_none, List.append_nil] at hscan
        exact ⟨copies, rfl, hfinished, rfl, hscan⟩
      | some row =>
        obtain ⟨n, more, hbefore⟩ := h.scan.gave.known
        have honLast := Scan.next_onLast h.onLast hbefore.faithful.keyed
        rw [Step.Ends, hnext] at honLast
        obtain ⟨hrow, hqueue⟩ := honLast row rfl
        have hgoing : scan.finished = false := hfinished
        rcases hinsert : T.target.insertRow row p with ⟨r, q⟩
        have hpool : (onPool (T.target.insertRow row) : Step (InsertCursor Scan × Pool) Unit)
            ({ s.1 with child := scan }, p) = (r, ({ s.1 with child := scan }, q)) := Step.focus_run hinsert
        cases r with
        | error e =>
          refine Step.Ends.of_error hpool ?_
          rintro _ ⟨⟩
        | ok _ =>
          obtain ⟨htakes, place, hplace⟩ := insertRow_eq_ok hinsert
          have hknows := (hscan.gave.going hgoing).copied rfl hrow htakes hplace
          let copy : Copied := ⟨row, place⟩
          have hmap : (copies ++ [copy]).map Copied.row = copies.map Copied.row ++ [row] := List.map_append
          have hlength : (copies ++ [copy]).length = copies.length + 1 := List.length_append
          have hnever : ∀ {P : Prop}, scan.finished = true → P :=
            fun hover => absurd hover (Bool.eq_false_iff.mp hgoing)
          have hall : T.Going (copies ++ [copy]) ({ s.1 with child := scan }, q) :=
            ⟨⟨⟨hscan.gave.tx, hscan.gave.table, fun _ => hmap ▸ hknows, hnever⟩, hnever⟩, hqueue⟩
          exact Step.Ends.of_ok hpool (hlength ▸ ih hall)

/-- What is known when an insert over a scan has given the number of the copies. -/
structure Done (T : Transfer) (copies : List Copied) (m : InsertCursor Scan × Pool) : Prop where
  finished : m.1.finished = true
  started : m.1.started = true
  scanned : m.1.child.finished = true
  scan : Scan.Unbroken T.target.tx T.source (T.Knows copies) (copies.map Copied.row) (m.1.child, m.2)

def countOf (copies : List Copied) : Row :=
  { schema := InsertTarget.output, fields := [.int (Int32.ofNat copies.length)] }

theorem next_copies (h : T.Going [] s) (started : s.1.started = true) (going : s.1.finished = false) :
    (T.target.next (Scan.source schema)).Ends s fun r m => ∀ answer, r = .ok answer →
      ∃ copies, answer = some (countOf copies) ∧ T.Done copies m := by
  unfold InsertTarget.next
  refine Step.Ends.of_ok (Step.state_run s) ?_
  refine Step.Ends.check (fun _ => ?_) fun _ _ h => nomatch h
  rw [going]
  refine Step.Ends.bind (insertAll_copies _ h) (fun count m hm => ?_) fun _ _ _ _ h => nomatch h
  obtain ⟨copies, rfl, hscanned, hstarted, hscan⟩ := hm count rfl
  have hrow : Row.ofFields InsertTarget.output [.int (Int32.ofNat copies.length)] = .ok (countOf copies) :=
    Row.ofFields_of_types rfl
  refine Step.Ends.of_ok (Step.update_run _ m) ?_
  rw [hrow]
  rintro _ ⟨⟩
  exact ⟨copies, rfl, rfl, hstarted.trans started, hscanned, hscan⟩

/-- Of an insert that was started, one row comes, and then nothing. -/
theorem collect_copies (T : Transfer) (schema : Schema) {c : InsertCursor Scan} (tx : c.child.tx = T.target.tx)
    (table : c.child.table = T.source) :
    (T.target.source (Scan.source schema)).collect.Ends (c, T.start) fun r m => ∀ answers, r = .ok answers →
      ∃ copies, answers = [countOf copies] ∧ T.Done copies m := by
  have hinit : (T.target.source (Scan.source schema)).init (c, T.start) =
      (.ok (), ({ child := Scan.start T.target.tx T.source, started := true }, T.start)) := by
    rw [← tx, ← table]
    rfl
  have hgoing : T.Going [] ({ child := Scan.start T.target.tx T.source, started := true }, T.start) :=
    ⟨Scan.unbroken_start knows_start, fun _ h => nomatch h⟩
  unfold Source.collect
  refine Step.Ends.of_ok hinit (Step.Ends.of_ok (Step.state_run _) ?_)
  refine Step.Ends.bind (next_copies hgoing rfl rfl) (fun answer m hm => ?_) fun _ _ _ _ h => nomatch h
  obtain ⟨copies, rfl, hdone⟩ := hm answer rfl
  have hend : Step.collect (T.target.source (Scan.source schema)).next 1 m = (.ok [], m) :=
    Step.bind_of_ok (InsertTarget.next_finished hdone.started hdone.finished) _
  refine Step.Ends.of_ok hend ?_
  rintro _ ⟨⟩
  exact ⟨copies, rfl, hdone⟩

/-! ## The rows that were copied -/

theorem Knows.whole (h : T.Knows copies n rows p) (all : T.sourceFile.numPages p.disk ≤ n) (row : Row) :
    row ∈ rows ↔ T.ToRead copies row := by
  rw [h.mem_rows]
  refine and_iff_left_of_imp fun htoRead => ?_
  obtain ⟨number, page, slot, hlt, -, hplace⟩ := (h.rowOf htoRead).seen h.faithful h.sourceKnown
  exact ⟨_, hplace, Nat.lt_of_lt_of_le hlt all⟩

theorem nodup_of_sorted {rows : List Row} (sorted : rows.Pairwise Row.Before) : rows.Nodup := by
  refine sorted.imp ?_
  rintro row _ ⟨place, place', hplace, hplace', hlt⟩ rfl
  obtain rfl := Option.some.inj (hplace.symm.trans hplace')
  exact ne_of_order hlt rfl

/-- The copies that were read are rows of their own. -/
theorem Knows.nodup_ahead (h : T.Knows copies n rows p) :
    ((copies.filter (Copied.Ahead T.source)).map (Copied.asRow T.sourceFile.schema)).Nodup := by
  have hascending : copies.Pairwise fun e e' => e.place.order e'.place = .lt := List.pairwise_map.mp h.fills.ascending
  refine List.pairwise_map.mpr ((hascending.filter _).imp fun hlt heq => ?_)
  exact ne_of_order hlt (Option.some.inj (congrArg Row.place heq))

/-- Copied were the rows that were there at first and the copies in front of the scan, each once. -/
theorem Knows.perm (h : T.Knows copies n rows p) (all : T.sourceFile.numPages p.disk ≤ n) :
    ∃ held, (∀ row, row ∈ held ↔ RowOf T.start T.source T.sourceFile row) ∧ held.Pairwise Row.Before ∧
      rows.Perm (held ++
        (copies.filter (Copied.Ahead T.source)).map (Copied.asRow T.sourceFile.schema)) := by
  classical
  let held := rows.filter fun row => RowOf T.start T.source T.sourceFile row
  have hheld : ∀ row, row ∈ held ↔ RowOf T.start T.source T.sourceFile row := by
    intro row
    rw [List.mem_filter, decide_eq_true_iff]
    exact and_iff_right_of_imp fun hrow => (h.whole all row).mpr (.inl hrow)
  have hsorted : held.Pairwise Row.Before := h.sorted.filter _
  refine ⟨held, hheld, hsorted, ?_⟩
  rw [List.perm_ext_iff_of_nodup (nodup_of_sorted h.sorted)]
  · intro row
    rw [h.whole all, List.mem_append, hheld, List.mem_map]
    simp only [ToRead, List.mem_filter, decide_eq_true_eq, and_assoc, @eq_comm _ row]
  · refine List.nodup_append.mpr ⟨nodup_of_sorted hsorted, h.nodup_ahead, fun row hrow other hother => ?_⟩
    rintro rfl
    -- a copy is at a place where there was no row
    obtain ⟨place, hplace, -, -, hfields⟩ := (hheld row).mp hrow
    obtain ⟨e, he, rfl⟩ := List.mem_map.mp hother
    obtain rfl := Option.some.inj hplace
    have hnone := (h.fills.empty _ (List.mem_map_of_mem (List.mem_filter.mp he).1)).row
    rw [hfields] at hnone
    cases hnone

/-- Into another table no copy is in front of the scan. -/
theorem Knows.none_ahead (h : T.Knows copies n rows p) (other : T.source ≠ T.target.table) :
    copies.filter (Copied.Ahead T.source) = [] := by
  refine List.filter_eq_nil_iff.mpr fun e he hahead => ?_
  have hempty := h.fills.empty _ (List.mem_map_of_mem he)
  exact other ((of_decide_eq_true hahead).1.symm.trans hempty.table)

end Transfer

namespace InsertTarget

open Pool Source

/-! ## The law -/

/-- An insert over a scan for the same transaction that is started and comes to its end without an error,
when 32 bits can still count the pages of all tables. The number that it gives is that of the copies, if they
are fewer than 2 ^ 31. Copied were the rows that the scanned table held when it was started, and the copies
that were put on one of its pages behind that of their own row, each once; each copy is in the other table,
at a place where there was no row, and no other row of any table has changed. Into another table only the rows
that were held are copied. -/
theorem a_scan_reads_the_copies_in_front_of_it {storage : Storage} (own : storage.OwnFiles) {config : Config}
    {pool : Pool} (new : Pool.new storage config = .ok pool) {p : Pool} (reached : Undisturbed pool p)
    {source : TableId} {sourceFile : TableFile} (sourceKnown : p.catalog.tableFile? source = some sourceFile)
    {t : InsertTarget} {targetFile : TableFile} (targetKnown : p.catalog.tableFile? t.table = some targetFile)
    {schema : Schema} {c : InsertCursor Scan} (tx : c.child.tx = t.tx) (table : c.child.table = source)
    {answers : List Row} {m : InsertCursor Scan × Pool}
    (run : (t.source (Scan.source schema)).collect (c, p) = (.ok answers, m)) (counted : m.2.storage.Counted) :
    ∃ (held : List Row) (copies : List Copied) (count : Int32),
      (∀ row, row ∈ held ↔ RowOf p source sourceFile row) ∧ held.Pairwise Row.Before ∧
      answers = [{ schema := output, fields := [.int count] }] ∧
      (copies.length < 0x80000000 → count.toInt = copies.length) ∧
      Fills t.table targetFile (copies.map fun e => (e.place, t.own e.row)) p m.2 ∧
      (∀ e ∈ copies, e.place.page.number < (targetFile.numPagesWord m.2.disk).toNat) ∧
      (copies.map Copied.row).Perm (held ++
        (copies.filter (Copied.Ahead source)).map (Copied.asRow sourceFile.schema)) ∧
      copies.length = held.length + (copies.filter (Copied.Ahead source)).length ∧
      (source ≠ t.table → copies.filter (Copied.Ahead source) = []) := by
  have sure := sure_of_new own new
  let T : Transfer := ⟨pool, sure, p, reached, source, sourceFile, sourceKnown, t, targetFile, targetKnown⟩
  have hcollect := T.collect_copies schema tx table
  rw [Step.Ends, show (T.target.source (Scan.source schema)).collect (c, T.start) = (.ok answers, m) from run]
    at hcollect
  obtain ⟨copies, rfl, hdone⟩ := hcollect answers rfl
  obtain ⟨n, file, hknows, known, hall⟩ := hdone.scan.whole hdone.scanned
  obtain rfl : sourceFile = file := Option.some.inj (hknows.sourceKnown.symm.trans known)
  obtain ⟨held, hheld, hsorted, hperm⟩ := hknows.perm hall
  have hnumbered := List.forall_mem_map.mp (hknows.fills.numbered hknows.faithful counted hknows.targetKnown)
  refine ⟨held, copies, Int32.ofNat copies.length, hheld, hsorted, rfl, fun few => ?_, hknows.fills, hnumbered,
    hperm, ?_, hknows.none_ahead⟩
  · exact Int32.toInt_ofNat_of_lt few
  have hlength := hperm.length_eq
  rwa [List.length_map, List.length_append, List.length_map] at hlength

/-- A table with eight rows, on whose page there is room for seven more. -/
def eightRows : Pool := (List.replicate 8 (Call.insert 7 1 oneRow)).foldl after roomForTwo

def intoItself : InsertTarget := { tx := 7, table := 1, schema := oneRow.schema }

/-- The table is copied into itself. -/
def copiedIntoItself : Except Error (List Row) × InsertCursor Scan × Pool :=
  (intoItself.source (Scan.source oneRow.schema)).collect ({ child := Scan.start 7 1 }, eightRows)

/-- Of the eight rows nine copies come into the table. -/
theorem a_table_with_eight_rows_grows_by_nine :
    Undisturbed roomForTwo eightRows ∧
    (Scan.drain (Scan.start 7 1, eightRows)).1.toOption.map List.length = some 8 ∧
    copiedIntoItself.1 = .ok [{ schema := output, fields := [.int 9] }] ∧
    (Scan.drain (Scan.start 7 1, copiedIntoItself.2.2)).1.toOption.map List.length = some 17 := by
  have reached : Undisturbed roomForTwo eightRows := undisturbed_foldl .start (by decide)
  refine ⟨reached, ?_⟩
  decide +kernel

/-- The copy of the last row comes on a new page, where the scan meets it. -/
theorem a_copy_on_a_new_page_is_copied :
    Storage.oneTable.OwnFiles ∧ Pool.new Storage.oneTable { capacity := 2, pageSize := 64 } = .ok roomForTwo ∧
    Undisturbed roomForTwo eightRows ∧ copiedIntoItself.1 = .ok [{ schema := output, fields := [.int 9] }] ∧
    copiedIntoItself.2.2.storage.Counted ∧
    ∃ (file : TableFile) (held : List Row) (copies : List Copied), eightRows.catalog.tableFile? 1 = some file ∧
      (∀ row, row ∈ held ↔ RowOf eightRows 1 file row) ∧ copies.length = 9 ∧
      Fills 1 file (copies.map fun e => (e.place, intoItself.own e.row)) eightRows copiedIntoItself.2.2 ∧
      (copies.map Copied.row).Perm (held ++
        (copies.filter (Copied.Ahead 1)).map (Copied.asRow file.schema)) := by
  have own := Storage.ownFiles_oneTable
  have new : Pool.new Storage.oneTable { capacity := 2, pageSize := 64 } = .ok roomForTwo := rfl
  have reached : Undisturbed roomForTwo eightRows := undisturbed_foldl .start (by decide)
  have answered : copiedIntoItself.1 = .ok [{ schema := output, fields := [.int 9] }] := by decide +kernel
  have places : (eightRows.catalog.tableFile? 1).map
      (fun file => (file.numPagesWord copiedIntoItself.2.2.disk).toNat * file.layout.slots) = some 30 := by
    decide +kernel
  obtain ⟨file, known, places⟩ := Option.map_eq_some_iff.mp places
  have run : copiedIntoItself = (.ok [{ schema := output, fields := [.int 9] }], copiedIntoItself.2) := by
    rw [← answered]
  have counted : copiedIntoItself.2.2.storage.Counted := by decide +kernel
  obtain ⟨held, copies, count, hheld, -, hanswer, hcount, hfills, hnumbered, hperm, -, -⟩ :=
    a_scan_reads_the_copies_in_front_of_it own new reached known (t := intoItself) known rfl rfl run counted
  have few : copies.length ≤ 30 := by
    have hlength := hfills.length_le (List.forall_mem_map.mpr hnumbered)
    rwa [List.length_map, places] at hlength
  have hfields := congrArg Row.fields (List.cons.inj hanswer).1
  obtain rfl : (9 : Int32) = count := Field.int.inj (List.cons.inj hfields).1
  have hnine : copies.length = 9 := Int.natCast_inj.mp (hcount (by omega)).symm
  exact ⟨own, new, reached, answered, counted, file, held, copies, known, hheld, hnine, hfills, hperm⟩

end InsertTarget

end PageStore
