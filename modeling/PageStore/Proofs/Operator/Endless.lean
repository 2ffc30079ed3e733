-- A loop that pulls rows out of a scan is told how often it may ask. That is enough. Each
-- page that comes to be added to the table while the rows are put in, be it into the table
-- that is scanned, is a changed page in memory from then on, and of those there are never
-- more than the pool has room for.
import PageStore.Proofs.Operator.Copies
import PageStore.Proofs.Pool.Errors

namespace PageStore

namespace Pool

/-! ## Pages that are added -/

/-- The page is in memory, and somebody changed it. -/
def Altered (p : Pool) (id : PageId) : Prop := ∃ page u, p.page? id = some page ∧ page.dirtiedBy = some u

/-- The pages of a table's file. A table that is not known has none. -/
def pagesIn (p : Pool) (table : TableId) : Nat :=
  match p.catalog.tableFile? table with
  | some file => file.numPages p.disk
  | none => 0

/-- The slots on each page of a table. -/
def slotsIn (p : Pool) (table : TableId) : Nat :=
  match p.catalog.tableFile? table with
  | some file => file.layout.slots
  | none => 0

variable {p q first : Pool} {table other : TableId} {file : TableFile} {id : PageId} {tx : TxId} {row : Row}
  {place : RecordId}

theorem pagesIn_of_known (known : p.catalog.tableFile? table = some file) :
    p.pagesIn table = file.numPages p.disk := by
  rw [pagesIn, known]

theorem slotsIn_of_known (known : p.catalog.tableFile? table = some file) : p.slotsIn table = file.layout.slots := by
  rw [slotsIn, known]

/-- Only of a known table something is to be seen. -/
theorem known_of_seen (hp : Faithful p) {page : Page} (seen : p.seen id = .ok page) :
    ∃ file, p.catalog.tableFile? id.table = some file := by
  obtain ⟨stored, hstored, -⟩ := stored_of_seen hp seen
  obtain ⟨file, bs, hs⟩ := Storage.stored_of_readPage hstored
  exact ⟨file, hs.known⟩

theorem pagesIn_congr (h : q.storage = p.storage) : q.pagesIn table = p.pagesIn table := by
  rw [pagesIn, pagesIn, catalog, catalog, disk, disk, h]

theorem slotsIn_congr (h : q.catalog = p.catalog) : q.slotsIn table = p.slotsIn table := by
  rw [slotsIn, slotsIn, h]

theorem pagesIn_withGrown (hp : Faithful p) (known : p.catalog.tableFile? table = some file)
    (hpos : 0 < file.pageSize) (other : TableId) :
    (p.withGrown file).pagesIn other = if table = other then p.pagesIn other + 1 else p.pagesIn other := by
  have hcatalog : (p.withGrown file).catalog = p.catalog := rfl
  cases hother : p.catalog.tableFile? other with
  | none =>
    have hne : table ≠ other := by
      rintro rfl
      rw [hother] at known
      cases known
    rw [if_neg hne, pagesIn, pagesIn, hcatalog, hother]
  | some file' =>
    rw [pagesIn_of_known hother, pagesIn_of_known (hcatalog ▸ hother)]
    split
    · rename_i heq
      subst heq
      obtain rfl : file = file' := Option.some.inj (known.symm.trans hother)
      exact Storage.numPages_grown hp.own known hpos
    · rename_i hne
      apply Storage.numPages_congr
      have hcontent := Storage.content_placed hp.own known hother (file.numPages p.disk) (Bytes.zeros file.pageSize)
      rw [if_neg hne] at hcontent
      exact congrArg List.length hcontent

theorem Altered.of_sameDirty (h : p.Altered id) (same : SameDirty p q) : q.Altered id := by
  obtain ⟨page, u, hpage, hmark⟩ := h
  exact ⟨page, u, (same id page u hmark).mp hpage, hmark⟩

/-- A page that was changed stays in memory, and the page of the row is one of them. -/
theorem altered_of_inserts (h : Inserts tx row p (.ok place) q) :
    q.Altered place.page ∧ ∀ id, p.Altered id → q.Altered id := by
  obtain ⟨page, m, hmoves, hsets, -⟩ := h
  have hplace : q.Altered place.page := ⟨_, tx, (hsets.page? place.page).trans (if_pos rfl), rfl⟩
  refine ⟨hplace, fun id hid => ?_⟩
  by_cases heq : place.page = id
  · exact heq ▸ hplace
  · obtain ⟨page', u, hpage, hmark⟩ := hid.of_sameDirty (Quiets.sameDirty hmoves)
    exact ⟨page', u, ((hsets.page? id).trans (if_neg heq)).trans hpage, hmark⟩

theorem config_of_inserts (h : Inserts tx row p (.ok place) q) : q.config = p.config := by
  obtain ⟨page, m, hmoves, hsets, -⟩ := h
  have hconfig : q.config = m.config := by
    rw [hsets.result]
    rfl
  exact hconfig.trans (Quiets.config hmoves)

/-- No table gets a page, or the table of the row gets the one on which the row is put. -/
theorem pagesIn_of_insert (hp : Sure p) (run : insert tx table row p = (.ok place, q)) (other : TableId) :
    q.catalog = p.catalog ∧ (q.pagesIn other = p.pagesIn other ∨
      q.pagesIn other = p.pagesIn other + 1 ∧ place.page = ⟨other, p.pagesIn other⟩) := by
  have h := insert_lodges hp tx table row
  rw [Step.Ends, run] at h
  obtain ⟨file, n, base, page, m, known, hroom, hpage, hlodged⟩ := h
  have hstorage : q.storage = base.storage := hlodged.sets.storage.trans hlodged.came.storage
  have hcatalog : q.catalog = base.catalog := congrArg Storage.catalog hstorage
  cases hroom with
  | old => exact ⟨hcatalog, .inl (pagesIn_congr hstorage)⟩
  | new slots =>
    refine ⟨hcatalog, ?_⟩
    have hgrown := pagesIn_withGrown hp.faithful known (pageSize_pos_of_slots slots) other
    rw [← pagesIn_congr hstorage] at hgrown
    split at hgrown
    · rename_i heq
      subst heq
      exact .inr ⟨hgrown, by rw [hpage, pagesIn_of_known known]⟩
    · exact .inl hgrown

/-- All pages that the table got since are changed pages in memory. -/
structure Lengthened (table : TableId) (first p : Pool) : Prop where
  catalog : p.catalog = first.catalog
  capacity : p.capacity = first.capacity
  altered : ∀ n, first.pagesIn table ≤ n → n < p.pagesIn table → p.Altered ⟨table, n⟩

theorem Lengthened.refl (table : TableId) (p : Pool) : Lengthened table p p :=
  ⟨rfl, rfl, fun _ hle hlt => absurd hlt (Nat.not_lt.mpr hle)⟩

theorem Lengthened.of_looks (h : Lengthened table first p) (looks : Looks tx p q) : Lengthened table first q := by
  have hstorage := Looks.catalog looks
  have hpages : q.pagesIn table = p.pagesIn table := pagesIn_congr hstorage
  constructor
  · exact (congrArg Storage.catalog hstorage).trans h.catalog
  · exact (congrArg Config.capacity (Looks.config looks)).trans h.capacity
  · intro n hle hlt
    exact (h.altered n hle (hpages ▸ hlt)).of_sameDirty (Looks.sameDirty looks)

theorem Lengthened.inserted (h : Lengthened table first p) (hp : Sure p)
    (run : insert tx other row p = (.ok place, q)) : Lengthened table first q := by
  have hinserts := insert_ends tx other row hp.faithful.keyed
  rw [Step.Ends, run] at hinserts
  obtain ⟨hplace, halters⟩ := altered_of_inserts hinserts
  obtain ⟨hcatalog, hpages⟩ := pagesIn_of_insert hp run table
  constructor
  · exact hcatalog.trans h.catalog
  · exact (congrArg Config.capacity (config_of_inserts hinserts)).trans h.capacity
  · intro n hle hlt
    by_cases hold : n < p.pagesIn table
    · exact halters _ (h.altered n hle hold)
    · -- the page with this number is the one that was added
      obtain hsame | ⟨hmore, hpage⟩ := hpages
      · omega
      · obtain rfl : n = p.pagesIn table := by omega
        exact hpage ▸ hplace

/-- In memory there is no room for more of them. -/
theorem Lengthened.pagesIn_le (h : Lengthened table first p) {uses : List PageId} (tracked : Tracked uses p) :
    p.pagesIn table ≤ first.pagesIn table + first.capacity := by
  let added := (List.range' (first.pagesIn table) (p.pagesIn table - first.pagesIn table)).map (PageId.mk table)
  have hnodup : added.Nodup := (List.nodup_range' 1).map fun _ _ heq => congrArg PageId.number heq
  have hcached : added ⊆ p.frames.keys := by
    intro id hid
    obtain ⟨n, hn, rfl⟩ := List.mem_map.mp hid
    rw [List.mem_range'_1] at hn
    obtain ⟨page, u, hpage, -⟩ := h.altered n hn.1 (by omega)
    rw [mem_cached, hpage]
    rfl
  have hcount := length_le_numCached hnodup hcached
  rw [List.length_map, List.length_range'] at hcount
  have hroom := tracked.room
  have hcapacity := h.capacity
  omega

end Pool

/-- Whatever comes of a row that is put in, it was asked of the pool or nothing was. -/
theorem InsertTarget.insertRow_reached {pool p : Pool} (h : Pool.Undisturbed pool p) (t : InsertTarget) (row : Row) :
    Pool.Undisturbed pool (t.insertRow row p).2 := by
  by_cases takes : t.Takes row
  · rw [insertRow_run takes rfl]
    exact h.call (.insert t.tx t.table (t.own row)) takes
  · have hrow : ∀ own, Row.ofFields t.schema row.fields ≠ .ok own := fun own hown =>
      takes (Row.ofFields_eq_ok.mp hown).1
    unfold insertRow
    cases hfields : Row.ofFields t.schema row.fields with
    | ok own => exact absurd hfields (hrow own)
    | error e => exact h

namespace Scan

open Pool Step

/-! ## Rows that can come -/

theorem bound_eq (s : Scan) (p : Pool) :
    s.bound p = s.queue.length + (p.pagesIn s.table + slack p) * p.slotsIn s.table := by
  unfold bound pagesIn slotsIn
  cases p.catalog.tableFile? s.table with
  | some file => rfl
  | none => simp only [Nat.mul_zero, Nat.add_zero]

/-- What is known on the way of a scan that was `begun` with some rows in its queue, before a page with some number:
it read no more than those rows and what was on the pages from there on. -/
structure Counting (pool first : Pool) (begun : Scan) (n : Nat) (rows : List Row) (p : Pool) : Prop where
  reached : Undisturbed pool p
  longer : Lengthened begun.table first p
  few : rows.length + begun.nextPage * first.slotsIn begun.table ≤
    begun.queue.length + n * first.slotsIn begun.table
  inFile : first.slotsIn begun.table ≠ 0 → n ≤ max begun.nextPage (p.pagesIn begun.table)

variable {pool first p q : Pool} {begun : Scan} {n : Nat} {rows : List Row} {tx : TxId}

theorem Counting.fetched (h : Counting pool first begun n rows p) {id : PageId} {mode : LockMode}
    {r : Except Error Page} (run : Pool.fetch tx id mode p = (r, q)) : Counting pool first begun n rows q := by
  have hreached := h.reached.call (.fetch [] tx id mode) trivial
  have hafter : p.after (.fetch [] tx id mode) = q := congrArg Prod.snd run
  have hlooks := looks_of_fetch run
  refine ⟨hafter ▸ hreached, h.longer.of_looks hlooks, h.few, ?_⟩
  rw [pagesIn_congr (Looks.catalog hlooks)]
  exact h.inFile

theorem Counting.read (sure : Sure pool) (h : Counting pool first begun n rows p) {page : Page}
    (seen : p.seen ⟨begun.table, n⟩ = .ok page) : Counting pool first begun (n + 1) (rows ++ page.rows) p := by
  have hfaithful := (h.reached.sure sure).faithful
  obtain ⟨file, known⟩ := known_of_seen hfaithful seen
  have hin : InFile file p.disk ⟨begun.table, n⟩ page := inFile_of_seen hfaithful known seen
  have hslots : first.slotsIn begun.table = file.layout.slots := by
    rw [← slotsIn_congr h.longer.catalog, slotsIn_of_known known]
  have hrows : page.rows.length ≤ first.slotsIn begun.table := by
    rw [hslots, ← hin.slots]
    exact page.length_rows_le
  have hfew := h.few
  refine ⟨h.reached, h.longer, ?_, fun hroom => ?_⟩
  · rw [List.length_append, Nat.succ_mul]
    omega
  · have hlt : n < p.pagesIn begun.table := by
      rw [pagesIn_of_known known]
      exact hin.number_lt (pageSize_pos_of_slots (hslots ▸ hroom))
    exact Nat.le_trans hlt (Nat.le_max_right ..)

theorem Counting.inserted (sure : Sure pool) (h : Counting pool first begun n rows p) {table : TableId} {row : Row}
    (typed : row.Typed) {place : RecordId} (run : insert tx table row p = (.ok place, q)) :
    Counting pool first begun n rows q := by
  have hreached := h.reached.call (.insert tx table row) typed
  have hafter : p.after (.insert tx table row) = q := congrArg Prod.snd run
  have hp := h.reached.sure sure
  have hpages : p.pagesIn begun.table ≤ q.pagesIn begun.table := by
    obtain ⟨-, hsame | ⟨hmore, -⟩⟩ := pagesIn_of_insert hp run begun.table
    · exact Nat.le_of_eq hsame.symm
    · omega
  refine ⟨hafter ▸ hreached, h.longer.inserted hp run, h.few, fun hslots => ?_⟩
  have hin := h.inFile hslots
  omega

theorem walk_counting (sure : Sure pool) (tx : TxId) (first : Pool) (begun : Scan) :
    Walk tx begun.table (Counting pool first begun) where
  got _ _ _ _ _ h run := (h.fetched run).read sure (seen_of_page (got_of_fetch run).1)
  notGot _ _ _ _ _ h run := h.fetched run

/-- The bound holds for all rows that were read. -/
theorem Counting.length_le {storage : Storage} {config : Config} (new : Pool.new storage config = .ok pool)
    (h : Counting pool first begun n rows p) : rows.length ≤ begun.bound first := by
  obtain ⟨uses, tracked⟩ := h.reached.tracked new
  have hpages := h.longer.pagesIn_le tracked
  have hslack : first.capacity ≤ slack first := by
    unfold slack appendAttempts
    omega
  have hfew := h.few
  rw [bound_eq]
  by_cases hslots : first.slotsIn begun.table = 0
  · rw [hslots, Nat.mul_zero, Nat.mul_zero] at hfew
    omega
  · have hin := h.inFile hslots
    -- beyond the page with which it began, the scan is on pages of the file
    have hread : n ≤ begun.nextPage + (first.pagesIn begun.table + slack first) := by omega
    have hmul := Nat.mul_le_mul_right (first.slotsIn begun.table) hread
    rw [Nat.add_mul] at hmul
    omega

/-! ## Loops -/

/-- From this scan rows can be pulled in a pool that came about from the first one. -/
structure Pullable (pool : Pool) (s : Scan × Pool) : Prop where
  reached : Undisturbed pool s.2
  emptied : s.1.finished = true → s.1.queue = []

theorem Pullable.gave {s : Scan × Pool} (h : Pullable pool s) :
    Gave s.1.tx s.1.table (Counting pool s.2 s.1) [] s := by
  have hlonger := Lengthened.refl s.1.table s.2
  refine ⟨rfl, rfl, fun _ => ?_, fun hover => ⟨h.emptied hover, s.1.nextPage, ?_⟩⟩
  · exact ⟨h.reached, hlonger, Nat.le_refl _, fun _ => Nat.le_max_left ..⟩
  · refine ⟨h.reached, hlonger, ?_, fun _ => Nat.le_max_left ..⟩
    rw [List.length_nil]
    omega

section Loops

variable {storage : Storage} {config : Config} (own : storage.OwnFiles) (new : Pool.new storage config = .ok pool)
  {table : TableId}

theorem Gave.pullable {s : Scan × Pool} (h : Gave tx table (Counting pool first begun) rows s) : Pullable pool s := by
  obtain ⟨n, more, hknown⟩ := h.known
  exact ⟨hknown.reached, fun hover => (h.ended hover).1⟩

include new in
theorem Gave.length_le_bound {s : Scan × Pool} (h : Gave tx table (Counting pool first begun) rows s) :
    rows.length ≤ begun.bound first := by
  obtain ⟨n, more, hknown⟩ := h.known
  have hle := hknown.length_le new
  rw [List.length_append] at hle
  omega

include own new

/-- Who may ask more often than there can be rows comes to the end, or meets an error of the pool. -/
theorem collect_below (calls : Nat) {s : Scan × Pool}
    (h : Gave tx begun.table (Counting pool first begun) rows s) (enough : begun.bound first < rows.length + calls) :
    (Step.collect next calls).Ends s fun r _ => FromBelow r := by
  induction calls generalizing s rows with
  | zero =>
    have hle := h.length_le_bound new
    omega
  | succ calls ih =>
    have hwalk := walk_counting (sure_of_new own new) tx first begun
    refine Step.Ends.bind ((next_gives hwalk h).and (Q := fun r _ => FromBelow r) (next_below s)) ?_ ?_
    · rintro (_ | row) t ⟨hgiven, -⟩
      · exact fromBelow_ok []
      · have hmore : begun.bound first < (rows ++ [row]).length + calls := by
          rw [List.length_append, List.length_singleton]
          omega
        exact Step.Ends.bind (ih hgiven.2 hmore) (fun others _ _ => fromBelow_ok (row :: others))
          (fun e _ hbelow => fromBelow_error (hbelow e rfl))
    · exact fun e t hbelow => fromBelow_error (hbelow.2 e rfl)

/-- The same when each row is put into some table before the next one is asked for. -/
theorem insertAll_below (t : InsertTarget) (schema : Schema) (calls count : Nat) {s : InsertCursor Scan × Pool}
    (h : Gave tx begun.table (Counting pool first begun) rows (s.1.child, s.2))
    (enough : begun.bound first < rows.length + calls) :
    (t.insertAll (Scan.source schema) calls count).Ends s fun r m => FromBelow r ∧
      Pullable pool (m.1.child, m.2) ∧ m.1.started = s.1.started := by
  have hsure := sure_of_new own new
  induction calls generalizing s rows count with
  | zero =>
    have hle := h.length_le_bound new
    omega
  | succ calls ih =>
    unfold InsertTarget.insertAll
    rcases hnext : next (s.1.child, s.2) with ⟨r, scan, p⟩
    have hchild : (InsertTarget.onChild (Scan.source schema).next) s = (r, ({ s.1 with child := scan }, p)) :=
      InsertTarget.onChild_run hnext
    have hgiven := next_gives (walk_counting hsure tx first begun) h
    have hbelow := next_below (s.1.child, s.2)
    rw [Step.Ends, hnext] at hgiven
    rw [hnext] at hbelow
    rcases r with e | _ | row
    · exact Step.Ends.of_error hchild ⟨fromBelow_error (hbelow e rfl), hgiven.pullable, rfl⟩
    · exact Step.Ends.of_ok hchild ⟨fromBelow_ok count, hgiven.2.1.pullable, rfl⟩
    · refine Step.Ends.of_ok hchild ?_
      have hput := t.insertRow_below row p
      have hreached := t.insertRow_reached hgiven.2.pullable.reached row
      rcases hinsert : t.insertRow row p with ⟨r, q⟩
      have hpool : (Source.onPool (t.insertRow row) : Step (InsertCursor Scan × Pool) Unit)
          ({ s.1 with child := scan }, p) = (r, ({ s.1 with child := scan }, q)) := Step.focus_run hinsert
      rw [hinsert] at hput hreached
      cases r with
      | error e =>
        -- the rest of what was known need not hold, but the scan goes on from where it is
        exact Step.Ends.of_error hpool
          ⟨fromBelow_error (hput e rfl), ⟨hreached, hgiven.2.pullable.emptied⟩, rfl⟩
      | ok _ =>
        obtain ⟨htakes, place, hplace⟩ := Transfer.insertRow_eq_ok hinsert
        have hgave : Gave tx begun.table (Counting pool first begun) (rows ++ [row]) (scan, q) :=
          hgiven.2.of_pool fun n rows hknown => hknown.inserted hsure (show (t.own row).Typed from htakes) hplace
        have hmore : begun.bound first < (rows ++ [row]).length + calls := by
          rw [List.length_append, List.length_singleton]
          omega
        exact Step.Ends.of_ok hpool (ih (count + 1) hgave hmore)

end Loops

/-- A scan that is drained comes to its end, or meets an error of the pool. -/
theorem drain_below {storage : Storage} (own : storage.OwnFiles) {config : Config}
    (new : Pool.new storage config = .ok pool) {s : Scan × Pool} (h : Pullable pool s) : FromBelow (drain s).1 :=
  collect_below own new _ h.gave (by simp)

end Scan

namespace InsertTarget

open Pool Scan

variable {storage : Storage} (own : storage.OwnFiles) {config : Config} {pool : Pool}
  (new : Pool.new storage config = .ok pool) (t : InsertTarget) (schema : Schema) {s : InsertCursor Scan × Pool}

include own new in
theorem next_below (h : Pullable pool (s.1.child, s.2)) (started : s.1.started = true) :
    (t.next (Scan.source schema)).Ends s fun r m => FromBelow r ∧ Pullable pool (m.1.child, m.2) ∧
      m.1.started = true ∧ (∀ answer, r = .ok answer → m.1.finished = true) := by
  have hloop := insertAll_below own new t schema (s.1.child.bound s.2 + 1) 0 h.gave (by simp)
  unfold next
  refine Step.Ends.of_ok (Step.state_run s) ?_
  refine Step.Ends.check (fun _ => ?_) (fun h => absurd started (by simp [h]))
  split
  · rename_i hfinished
    exact ⟨fromBelow_ok none, h, started, fun _ _ => hfinished⟩
  · refine Step.Ends.bind hloop ?_ ?_
    · rintro count m ⟨-, hpullable, hstarted⟩
      have hrow : Row.ofFields output [.int (Int32.ofNat count)] =
          .ok { schema := output, fields := [.int (Int32.ofNat count)] } := Row.ofFields_of_types rfl
      refine Step.Ends.of_ok (Step.update_run _ m) ?_
      rw [hrow]
      exact ⟨fromBelow_ok _, hpullable, hstarted.trans started, fun _ _ => rfl⟩
    · rintro e m ⟨hbelow, hpullable, hstarted⟩
      exact ⟨fromBelow_error (hbelow e rfl), hpullable, hstarted.trans started, fun _ h => nomatch h⟩

/-- A call that comes before the start does nothing. -/
theorem next_unstarted {child : Source Scan} (started : s.1.started = false) :
    t.next child s = (.error (.operator (.notStarted "insert")), s) := by
  unfold next
  refine (Step.bind_of_ok (Step.state_run s) _).trans ?_
  simp only [started]
  rfl

include own new

theorem next_ne_endless (h : Pullable pool (s.1.child, s.2)) :
    (t.next (Scan.source schema)).Ends s fun r m => r ≠ .error (.operator .endless) ∧
      Pullable pool (m.1.child, m.2) := by
  cases hstarted : s.1.started with
  | true => exact (next_below own new t schema h hstarted).mono fun _ _ hm => ⟨hm.1.ne_endless, hm.2.1⟩
  | false =>
    unfold Step.Ends
    rw [next_unstarted t hstarted]
    exact ⟨nofun, h⟩

theorem calls_ne_endless (h : Pullable pool (s.1.child, s.2)) (n : Nat) :
    ∀ answer ∈ ((t.source (Scan.source schema)).calls n s).1, answer ≠ .error (.operator .endless) := by
  induction n generalizing s with
  | zero => exact fun _ h => nomatch h
  | succ n ih =>
    obtain ⟨hanswer, hpullable⟩ := next_ne_endless own new t schema h
    exact List.forall_mem_cons.mpr ⟨hanswer, ih hpullable⟩

theorem drain_ne_endless (h : Pullable pool (s.1.child, s.2)) :
    ((t.source (Scan.source schema)).drain s).1 ≠ .error (.operator .endless) := by
  have hdrain : ((t.source (Scan.source schema)).drain).Ends s fun r _ => r ≠ .error (.operator .endless) := by
    unfold Source.drain
    refine Step.Ends.of_ok (Step.state_run s) ?_
    cases hstarted : s.1.started with
    | false =>
      refine Step.Ends.of_error (next_unstarted t hstarted) ?_
      exact nofun
    | true =>
      refine Step.Ends.bind (next_below own new t schema h hstarted) ?_
        (fun e _ hm => (fromBelow_error (hm.1 e rfl)).ne_endless)
      rintro (_ | row) m ⟨-, -, hstarted', hfinished⟩
      · exact nofun
      · have hend : Step.collect (t.source (Scan.source schema)).next 1 m = (.ok [], m) :=
          Step.bind_of_ok (next_finished hstarted' (hfinished _ rfl)) _
        exact Step.Ends.of_ok hend nofun
  exact hdrain

/-! ## The law -/

/-- An insert over a scan of any table, be it the one that takes the rows, for one transaction or for two, in
whatever pool it goes on: it never finds more rows than it was told there can be. -/
theorem an_insert_over_a_scan_is_never_endless (reached : Undisturbed pool s.2)
    (emptied : s.1.child.finished = true → s.1.child.queue = []) :
    (∀ n, ∀ answer ∈ ((t.source (Scan.source schema)).calls n s).1, answer ≠ .error (.operator .endless)) ∧
    ((t.source (Scan.source schema)).drain s).1 ≠ .error (.operator .endless) ∧
    ((t.source (Scan.source schema)).collect s).1 ≠ .error (.operator .endless) := by
  have h : Pullable pool (s.1.child, s.2) := ⟨reached, emptied⟩
  refine ⟨calls_ne_endless own new t schema h, drain_ne_endless own new t schema h, ?_⟩
  have hbegun : Pullable pool (s.1.child.rewind, s.2) := ⟨reached, nofun⟩
  exact drain_ne_endless own new t schema
    (s := ({ s.1 with child := s.1.child.rewind, finished := false, started := true }, s.2)) hbegun

end InsertTarget

end PageStore
