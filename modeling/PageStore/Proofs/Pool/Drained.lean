-- What comes of draining a scan while nothing else is done. Either another transaction writes
-- on the table or the pool is full of changed pages, and the first error ends the scan; or all
-- rows of the table come, in the order of their places. Pages come into memory and go, and each
-- that was read is locked, but nothing else changes.
import Mathlib.Data.List.Perm.Subperm
import PageStore.Proofs.Pool.Pinned
import PageStore.Proofs.Pool.Placing

namespace PageStore

/-! ## Rows in order -/

/-- One row has its place in front of that of another. -/
def Row.Before (row other : Row) : Prop :=
  ∃ place place', row.place = some place ∧ other.place = some place' ∧ place.order place' = .lt

namespace Page

theorem rows_sorted (p : Page) : p.rows.Pairwise Row.Before := by
  have hslots : p.slots.zipIdx.Pairwise fun e e' => e.2 < e'.2 := by
    rw [← List.pairwise_map, List.zipIdx_map_snd]
    exact List.pairwise_lt_range' 1
  rw [rows, List.pairwise_filterMap]
  refine hslots.imp fun hlt row hrow row' hrow' => ?_
  obtain ⟨fields, -, rfl⟩ := Option.map_eq_some_iff.mp hrow
  obtain ⟨fields', -, rfl⟩ := Option.map_eq_some_iff.mp hrow'
  exact ⟨_, _, rfl, rfl, (RecordId.order_eq_lt_iff _ _).mpr (.inr ⟨rfl, hlt⟩)⟩

theorem length_rows_le (p : Page) : p.rows.length ≤ p.slots.length := by
  have hle := List.length_filterMap_le (fun e => e.1.map (p.rowAt e.2)) p.slots.zipIdx
  rwa [List.length_zipIdx] at hle

theorem length_flatMap_rows_le {pages : List Page} {count : Nat}
    (h : ∀ page ∈ pages, page.slots.length = count) :
    (pages.flatMap rows).length ≤ pages.length * count := by
  induction pages with
  | nil => exact Nat.zero_le _
  | cons page rest ih =>
    have hpage := h page List.mem_cons_self
    have hfirst := page.length_rows_le
    have hrest := ih fun other hother => h other (List.mem_cons_of_mem page hother)
    rw [List.flatMap_cons, List.length_append, List.length_cons, Nat.succ_mul]
    omega

end Page

namespace Pool

/-- A row of a table as it is to be seen, with the place where it stands. -/
def RowOf (p : Pool) (table : TableId) (file : TableFile) (row : Row) : Prop :=
  ∃ place, row.place = some place ∧ place.page.table = table ∧ row.schema = file.schema ∧
    p.rowAt? place = some row.fields

theorem LooksSame.rowOf_iff {p q : Pool} (h : LooksSame p q) (table : TableId) (file : TableFile) (row : Row) :
    RowOf q table file row ↔ RowOf p table file row := by
  simp only [RowOf, h.rowAt?]

variable {tx : TxId} {table : TableId} {file : TableFile} {pages : List Page} {p : Pool}

/-- The rows on a page that is to be seen. -/
theorem mem_rows_of_seen (hp : Faithful p) (known : p.catalog.tableFile? table = some file) {n : Nat} {page : Page}
    (seen : p.seen ⟨table, n⟩ = .ok page) (row : Row) :
    row ∈ page.rows ↔ RowOf p table file row ∧ ∃ slot, row.place = some ⟨⟨table, n⟩, slot⟩ := by
  have hin : InFile file p.disk ⟨table, n⟩ page := inFile_of_seen hp known seen
  have hfields : ∀ slot, p.rowAt? ⟨⟨table, n⟩, slot⟩ = page.fieldsAt slot := fun slot => by
    rw [rowAt?_eq_seen, seen]
  rw [Page.mem_rows]
  constructor
  · rintro ⟨slot, fields, hslot, rfl⟩
    have hplace : (page.rowAt slot fields).place = some ⟨⟨table, n⟩, slot⟩ := by rw [Page.rowAt, hin.keyed]
    exact ⟨⟨_, hplace, rfl, hin.columns, (hfields slot).trans hslot⟩, slot, hplace⟩
  · rintro ⟨⟨place, hplace, -, hschema, hrow⟩, slot, hslot⟩
    obtain rfl : place = ⟨⟨table, n⟩, slot⟩ := Option.some.inj (hplace.symm.trans hslot)
    refine ⟨slot, row.fields, (hfields slot).symm.trans hrow, ?_⟩
    rw [Page.rowAt, hin.keyed, hin.columns, ← hschema, ← hplace]

/-- Each row of a table is on one of the pages of its file. -/
theorem RowOf.seen (hp : Faithful p) (known : p.catalog.tableFile? table = some file) {row : Row}
    (h : RowOf p table file row) :
    ∃ n page slot, n < file.numPages p.disk ∧ p.seen ⟨table, n⟩ = .ok page ∧ row.place = some ⟨⟨table, n⟩, slot⟩ := by
  obtain ⟨⟨⟨other, n⟩, slot⟩, hplace, rfl, -, hfields⟩ := h
  rw [rowAt?_eq_seen] at hfields
  split at hfields
  · rename_i page hseen
    have hin : InFile file p.disk ⟨other, n⟩ page := inFile_of_seen hp known hseen
    have hslot := Page.lt_of_fieldsAt hfields
    refine ⟨n, page, slot, hin.number_lt (pageSize_pos_of_slots ?_), hseen, hplace⟩
    have hcount := hin.slots
    omega
  · cases hfields

/-- All rows of a table are on its pages. -/
theorem Pinned.mem_rows (h : Pinned tx table pages p) (hp : Faithful p)
    (known : p.catalog.tableFile? table = some file) (all : file.numPages p.disk ≤ pages.length)
    (row : Row) : row ∈ pages.flatMap Page.rows ↔ RowOf p table file row := by
  constructor
  · intro hrow
    obtain ⟨page, hpage, hrow⟩ := List.mem_flatMap.mp hrow
    obtain ⟨n, hn⟩ := List.getElem?_of_mem hpage
    exact ((mem_rows_of_seen hp known (h.seen n page hn) row).mp hrow).1
  · intro hrow
    obtain ⟨n, page, slot, hlt, hseen, hplace⟩ := hrow.seen hp known
    -- the page was read, since its number is that of a page of the file
    have hn : pages[n]? = some pages[n] := List.getElem?_eq_getElem (by omega)
    have hread : pages[n] = page := Except.ok.inj ((h.seen n _ hn).symm.trans hseen)
    refine List.mem_flatMap.mpr ⟨page, List.mem_of_getElem? (hread ▸ hn), ?_⟩
    exact (mem_rows_of_seen hp known hseen row).mpr ⟨hrow, slot, hplace⟩

/-- The rows of one page come in front of those of the next. -/
theorem Pinned.rows_sorted (h : Pinned tx table pages p) (keyed : Keyed p) :
    (pages.flatMap Page.rows).Pairwise Row.Before := by
  refine List.pairwise_flatMap.mpr ⟨fun page _ => page.rows_sorted, ?_⟩
  rw [List.pairwise_iff_getElem]
  intro i j hi hj hlt row hrow row' hrow'
  obtain ⟨slot, hplace⟩ := Page.place_of_mem_rows hrow
  obtain ⟨slot', hplace'⟩ := Page.place_of_mem_rows hrow'
  have hid := id_of_seen keyed (h.seen i _ (List.getElem?_eq_getElem hi))
  have hid' := id_of_seen keyed (h.seen j _ (List.getElem?_eq_getElem hj))
  refine ⟨_, _, hplace, hplace', ?_⟩
  rw [RecordId.order_eq_lt_iff, PageId.order_eq_lt_iff, hid, hid']
  exact .inl (.inr ⟨rfl, hlt⟩)

/-- A table has no more rows than its pages have slots. -/
theorem Pinned.length_rows_le (h : Pinned tx table pages p) (hp : Faithful p)
    (known : p.catalog.tableFile? table = some file) :
    (pages.flatMap Page.rows).length ≤ file.numPages p.disk * file.layout.slots := by
  have hslots : ∀ page ∈ pages, page.slots.length = file.layout.slots := by
    intro page hpage
    obtain ⟨n, hn⟩ := List.getElem?_of_mem hpage
    have hin : InFile file p.disk ⟨table, n⟩ page := inFile_of_seen hp known (h.seen n page hn)
    exact hin.slots
  have hrows := Page.length_flatMap_rows_le hslots
  by_cases hnone : file.layout.slots = 0
  · rw [hnone, Nat.mul_zero] at hrows ⊢
    exact hrows
  · have hpages := h.length_le hp known (pageSize_pos_of_slots hnone)
    exact Nat.le_trans hrows (Nat.mul_le_mul_right _ hpages)

/-! ## A pool without room -/

/-- The pool is full of changed pages. -/
structure Crowded (p : Pool) : Prop where
  full : p.capacity ≤ p.numCached
  dirty : ∀ id, ¬ p.Clean id

theorem mem_cached {id : PageId} : id ∈ p.frames.keys ↔ (p.page? id).isSome := by
  rw [Assoc.mem_keys, isSome_page?]

theorem length_le_numCached {ids : List PageId} (nodup : ids.Nodup) (cached : ids ⊆ p.frames.keys) :
    ids.length ≤ p.numCached := by
  rw [numCached, Assoc.size_eq]
  exact (nodup.subperm cached).length_le

/-- A changed page was in memory, and changed, before others were looked at. -/
theorem changed_before {q : Pool} (looks : Looks tx p q) {id : PageId} (cached : id ∈ q.frames.keys)
    (dirty : ¬ q.Clean id) : id ∈ p.frames.keys ∧ ¬ p.Clean id := by
  obtain ⟨page, hpage⟩ := Option.isSome_iff_exists.mp (mem_cached.mp cached)
  cases hmark : page.dirtiedBy with
  | none => exact absurd ⟨page, hpage, hmark⟩ dirty
  | some u =>
    have hsame : p.page? id = some page := (Looks.sameDirty looks id page u hmark).mpr hpage
    constructor
    · rw [mem_cached, hsame]
      rfl
    · rintro ⟨other, hother, hclean⟩
      obtain rfl : page = other := Option.some.inj (hsame.symm.trans hother)
      rw [hmark] at hclean
      cases hclean

/-- Whoever only looks at pages does not fill a pool with changed ones. -/
theorem Crowded.of_looks {uses : List PageId} {q : Pool} (h : Crowded q) (hp : Tracked uses p)
    (looks : Looks tx p q) : Crowded p := by
  have hbefore : ∀ id ∈ q.frames.keys, id ∈ p.frames.keys ∧ ¬ p.Clean id :=
    fun id hid => changed_before looks hid (h.dirty id)
  have hcapacity : q.capacity = p.capacity := congrArg Config.capacity looks.config
  have hcount : q.numCached = q.frames.keys.length := Assoc.size_eq q.frames
  have hfull := h.full
  constructor
  · have hle : q.frames.keys.length ≤ p.numCached :=
      length_le_numCached q.frames.nodup fun id hid => (hbefore id hid).1
    omega
  · intro id hclean
    -- a clean page would be one page more than there is room for
    have hnew : id ∉ q.frames.keys := fun hid => (hbefore id hid).2 hclean
    obtain ⟨page, hpage, -⟩ := hclean
    have hcached : id :: q.frames.keys ⊆ p.frames.keys := by
      rw [List.cons_subset, mem_cached, hpage]
      exact ⟨rfl, fun other hother => (hbefore other hother).1⟩
    have hmore : q.frames.keys.length + 1 ≤ p.numCached :=
      length_le_numCached (List.nodup_cons.mpr ⟨hnew, q.frames.nodup⟩) hcached
    have hroom := hp.room
    omega

end Pool

namespace Scan

open Pool

/-! ## What is known on the way -/

/-- The transaction has done nothing but look at pages. -/
structure Looked (tx : TxId) (first p : Pool) : Prop where
  looks : Looks tx first p
  tracked : ∃ uses, Tracked uses p

variable {tx : TxId} {table : TableId} {file : TableFile} {first p q : Pool} {n : Nat} {rows : List Row}
  {s : Scan × Pool}

theorem Looked.same (h : Looked tx first p) (hfirst : Sure first) : LooksSame first p :=
  .of_looks h.looks hfirst.faithful

theorem Looked.locks (h : Looked tx first p) (hfirst : Sure first) :
    p.locks.WellKept ∧ LockTable.Grows (· = tx) first.locks p.locks :=
  Quiets.grows (Quiets.of_looks h.looks) hfirst.locks

theorem Looked.fetch (h : Looked tx first p) {id : PageId} {mode : LockMode} {r : Except Error Page}
    (run : Pool.fetch tx id mode p = (r, q)) : Looked tx first q := by
  refine ⟨h.looks.trans (looks_of_fetch run), ?_⟩
  obtain ⟨uses, htracked⟩ := h.tracked
  have hafter := (fetched_of_run run).tracked htracked
  cases r with
  | ok => exact ⟨_, hafter⟩
  | error => exact ⟨_, hafter⟩

/-- The pages before a number were read, and these are their rows. -/
structure Seeing (tx : TxId) (table : TableId) (first : Pool) (n : Nat) (rows : List Row) (p : Pool) :
    Prop extends Looked tx first p where
  pages : ∃ pages, pages.length = n ∧ rows = pages.flatMap Page.rows ∧ Pinned tx table pages p

theorem walk_seeing (tx : TxId) (table : TableId) (hfirst : Sure first) :
    Walk tx table (Seeing tx table first) where
  got n rows p page q h hrun := by
    obtain ⟨hlooked, pages, rfl, rfl, hpinned⟩ := h
    refine ⟨hlooked.fetch hrun, pages ++ [page], by simp, by simp, ?_⟩
    exact hpinned.read (hlooked.same hfirst).after (hlooked.locks hfirst).1 hrun
  notGot n rows p e q h hrun := by
    obtain ⟨hlooked, pages, hlength, hrows, hpinned⟩ := h
    refine ⟨hlooked.fetch hrun, pages, hlength, hrows, ?_⟩
    have hlooks := looks_of_fetch hrun
    exact hpinned.quiets (hlooked.same hfirst).after (hlooked.locks hfirst).1 (Quiets.of_looks hlooks)

theorem seeing_start {uses : List PageId} (hp : Tracked uses p) : Seeing tx table p 0 [] p :=
  ⟨⟨.refl, uses, hp⟩, [], rfl, rfl, pinned_nil tx table p⟩

theorem Seeing.length_le (h : Seeing tx table first n rows p) (hfirst : Sure first)
    (known : first.catalog.tableFile? table = some file) :
    rows.length ≤ file.numPages first.disk * file.layout.slots := by
  have hsame := h.same hfirst
  obtain ⟨-, pages, -, rfl, hpinned⟩ := h
  rw [← hsame.numPages]
  exact hpinned.length_rows_le hsame.after (hsame.known known)

theorem Gave.length_le (h : Gave tx table (Seeing tx table first) rows s) (hfirst : Sure first)
    (known : first.catalog.tableFile? table = some file) :
    rows.length ≤ file.numPages first.disk * file.layout.slots := by
  obtain ⟨n, more, hseeing⟩ := h.known
  have hread := hseeing.length_le hfirst known
  rw [List.length_append] at hread
  omega

/-- A scan of this table, before which and with which nothing else was done. -/
structure Over (tx : TxId) (table : TableId) (first : Pool) (s : Scan × Pool) : Prop where
  looked : Looked tx first s.2
  tx : s.1.tx = tx
  table : s.1.table = table

theorem Gave.over (h : Gave tx table (Seeing tx table first) rows s) : Over tx table first s := by
  obtain ⟨n, more, hseeing⟩ := h.known
  exact ⟨hseeing.toLooked, h.tx, h.table⟩

/-! ## Errors -/

/-- All pages of a table can be read from its file. -/
def Legible (p : Pool) (table : TableId) (file : TableFile) : Prop :=
  ∀ n < file.numPages p.disk, ∃ page, p.storage.readPage ⟨table, n⟩ = .ok page

/-- What a scan may meet: another transaction that writes on a page of the table, or a pool that is full of
changed pages. -/
inductive Refusal (p : Pool) (tx : TxId) (table : TableId) : Error → Prop where
  | locked (n : Nat) (writer : TxId) (other : writer ≠ tx)
      (held : p.locks.mode? writer ⟨table, n⟩ = some .exclusive) :
      Refusal p tx table (.lockRefused tx ⟨table, n⟩)
  | full (crowded : Crowded p) : Refusal p tx table (.poolFull p.capacity)

/-- An answer, or such an error. -/
def OrRefused {α : Type} (p : Pool) (tx : TxId) (table : TableId) : Except Error α → Prop
  | .ok _ => True
  | .error e => Refusal p tx table e

section Errors

variable (hfirst : Sure first) {uses : List PageId} (tracked : Tracked uses first)

include hfirst tracked

theorem Looked.refuses (h : Looked tx first p) {page : Page}
    (stored : first.storage.readPage ⟨table, n⟩ = .ok page) {r : Except Error Page}
    (run : Pool.fetch tx ⟨table, n⟩ .shared p = (r, q)) : OrRefused first tx table r := by
  have hfetched : Fetched [] tx ⟨table, n⟩ .shared p r q := fetched_of_run run
  obtain ⟨hwell, hgrows⟩ := h.locks hfirst
  cases hfetched with
  | refused denied =>
    obtain ⟨writer, hother, hheld⟩ := LockTable.exists_writer_of_denied hwell denied
    exact .locked n writer hother (hgrows.others writer ⟨table, n⟩ hother ▸ hheld)
  | stuck _ _ _ _ full none =>
    obtain ⟨uses', htracked⟩ := h.tracked
    have hcrowded : Crowded p := ⟨full, htracked.not_clean none⟩
    have hcapacity : p.capacity = first.capacity := congrArg Config.capacity h.looks.config
    exact hcapacity ▸ .full (hcrowded.of_looks tracked h.looks)
  | unread _ _ _ broken =>
    rw [(h.same hfirst).storage, stored] at broken
    cases broken
  | hit => trivial
  | loaded => trivial
  | replaced => trivial

theorem readUntilRow_refuses {numbers : List Nat} (h : Over tx table first s)
    (stored : ∀ n ∈ numbers, ∃ page, first.storage.readPage ⟨table, n⟩ = .ok page) :
    (readUntilRow numbers).Ends s fun r _ => OrRefused first tx table r := by
  induction numbers generalizing s with
  | nil => trivial
  | cons number rest ih =>
    obtain ⟨page, hstored⟩ := stored number List.mem_cons_self
    unfold readUntilRow
    refine Step.Ends.of_ok (Step.update_run _ s) (Step.Ends.of_ok (Step.read_run _ _) ?_)
    rcases hrun : Pool.fetch tx ⟨table, number⟩ .shared s.2 with ⟨r, q⟩
    have hfetch : onPool (Pool.fetch s.1.tx ⟨s.1.table, number⟩ .shared)
        ({ s.1 with nextPage := number + 1 }, s.2) = (r, { s.1 with nextPage := number + 1 }, q) :=
      Step.focus_run (by rw [h.tx, h.table]; exact hrun)
    have hrefuses := h.looked.refuses hfirst tracked hstored hrun
    cases r with
    | error e => exact Step.Ends.of_error hfetch hrefuses
    | ok page =>
      refine Step.Ends.of_ok hfetch (Step.Ends.of_ok (Step.update_run _ _) ?_)
      split
      · exact ih ⟨h.looked.fetch hrun, h.tx, h.table⟩ fun n hn => stored n (List.mem_cons_of_mem number hn)
      · trivial

theorem refill_refuses (h : Over tx table first s) (known : first.catalog.tableFile? table = some file)
    (legible : Legible first table file) : refill.Ends s fun r _ => OrRefused first tx table r := by
  have hsame := h.looked.same hfirst
  unfold refill
  refine Step.Ends.of_ok (Step.read_run _ s) ?_
  have hfile : onPool (Pool.tableFile s.1.table) s = (.ok file, s) := by
    refine Step.focus_run ?_
    rw [h.table]
    exact congrArg (·, s.2) (Storage.tableFile_of_tableFile? (hsame.known known))
  refine Step.Ends.of_ok hfile (Step.Ends.of_ok rfl ?_)
  refine readUntilRow_refuses hfirst tracked h fun n hn => legible n ?_
  rw [← hsame.numPages]
  have hlt : s.1.nextPage ≤ n ∧ n < s.1.nextPage + (file.numPages s.2.disk - s.1.nextPage) :=
    List.mem_range'_1.mp hn
  omega

end Errors

/-- The first error ends a scan. -/
def Stops {α : Type} (p : Pool) (tx : TxId) (table : TableId) : Except Error α → Scan × Pool → Prop
  | .ok _, _ => True
  | .error e, t => t.1.finished = true ∧ Refusal p tx table e

theorem pop_stops (s : Scan × Pool) : pop.Ends s (Stops first tx table) := by
  unfold pop
  refine Step.Ends.of_ok (Step.read_run _ s) ?_
  split
  · trivial
  · trivial

/-! ## Draining -/

section Draining

variable (hfirst : Sure first) {uses : List PageId} (tracked : Tracked uses first)
  (known : first.catalog.tableFile? table = some file) (legible : Legible first table file)

include hfirst tracked known legible

theorem next_stops (h : Over tx table first s) : next.Ends s (Stops first tx table) := by
  unfold next
  refine Step.Ends.of_ok (Step.read_run _ s) ?_
  split
  · split
    · trivial
    · refine Step.Ends.bind_attempt (refill_refuses hfirst tracked h known legible) ?_
      rintro (e | _ | _) t ht
      · exact ⟨rfl, ht⟩
      · trivial
      · exact pop_stops t
  · exact pop_stops s

/-- There are enough calls to come to the end, if no error comes first. -/
theorem collect_ends (calls : Nat) (h : Gave tx table (Seeing tx table first) rows s)
    (enough : file.numPages first.disk * file.layout.slots < rows.length + calls) :
    (Step.collect next calls).Ends s fun r t => t.1.finished = true ∧ OrRefused first tx table r := by
  induction calls generalizing s rows with
  | zero =>
    have hlength := h.length_le hfirst known
    omega
  | succ calls ih =>
    have hnext := (next_gives (walk_seeing tx table hfirst) h).and
      (next_stops hfirst tracked known legible h.over)
    refine Step.Ends.bind hnext ?_ (fun e t ht => ht.2)
    rintro (_ | row) t ⟨hgives, -⟩
    · exact ⟨hgives.1, trivial⟩
    · have hlonger : file.numPages first.disk * file.layout.slots < (rows ++ [row]).length + calls := by
        rw [List.length_append, List.length_singleton]
        omega
      exact Step.Ends.bind (ih hgives.2 hlonger) (fun _ t ht => ⟨ht.1, trivial⟩) (fun e t ht => ht)

theorem drain_start_ends (tx : TxId) : drain.Ends (start tx table, first) fun r t =>
    t.1.finished = true ∧ OrRefused first tx table r := by
  unfold drain
  refine Step.Ends.of_ok (Step.state_run _) ?_
  refine collect_ends hfirst tracked known legible _ (gave_start (seeing_start tracked)) ?_
  have hbound : (start tx table).bound first =
      (file.numPages first.disk + slack first) * file.layout.slots := by
    unfold bound
    rw [show first.catalog.tableFile? (start tx table).table = some file from known]
    exact Nat.zero_add _
  rw [hbound, Nat.add_mul]
  omega

end Draining

/-! ## The law -/

/-- A scan from the beginning, with which nothing else is done. It is over when it has been drained, and
nothing has changed that is to be seen. If nobody else writes on the table and the pool is not full of
changed pages it gave each row of the table once, in the order of their places, and no other row, and its
transaction has a lock on each page of the table, as far as 32 bits count them. -/
theorem a_drained_scan_gives_each_row_once {storage : Storage} (own : storage.OwnFiles) {config : Config}
    {pool : Pool} (new : Pool.new storage config = .ok pool) {p : Pool} (reached : Undisturbed pool p)
    (counted : p.storage.Counted) {tx : TxId} {table : TableId} {file : TableFile}
    (known : p.catalog.tableFile? table = some file) (legible : Legible p table file) {s : Scan}
    (fresh : s = start tx table ∨ ∃ old : Scan, old.tx = tx ∧ old.table = table ∧ s = old.rewind)
    {r : Except Error (List Row)} {t : Scan} {q : Pool} (run : drain (s, p) = (r, (t, q))) :
    (file.numPagesWord p.disk).toNat = file.numPages p.disk ∧ q.storage = p.storage ∧
    (∀ id, q.seen id = p.seen id) ∧
    (∀ later, next (t, later) = (.ok none, (t, later))) ∧
    ((∃ e, r = .error e ∧ Refusal p tx table e) ∨
      ∃ rows, r = .ok rows ∧ (∀ row, row ∈ rows ↔ RowOf p table file row) ∧ rows.Pairwise Row.Before ∧
        ∀ n < file.numPages p.disk, q.locks.holds tx ⟨table, n⟩ = true) := by
  have hp := reached.sure (sure_of_new own new)
  obtain rfl : s = start tx table := by
    rcases fresh with hstart | ⟨old, rfl, rfl, hrewound⟩
    · exact hstart
    · exact hrewound
  obtain ⟨uses, tracked⟩ := reached.tracked new
  have hgives := drain_gives (walk_seeing tx table hp) (gave_start (seeing_start tracked))
  have hends := drain_start_ends hp tracked known legible tx
  rw [Step.Ends, run] at hgives hends
  obtain ⟨⟨others, hgave⟩, hall⟩ := hgives
  obtain ⟨hover, hrefusal⟩ := hends
  obtain ⟨hempty, -⟩ := hgave.ended hover
  have hsame := hgave.over.looked.same hp
  refine ⟨counted.numPages known, hsame.storage, hsame.seen, fun later => next_over hover hempty, ?_⟩
  cases r with
  | error e => exact .inl ⟨e, rfl, hrefusal⟩
  | ok rows =>
    obtain ⟨-, hcomplete⟩ := hall rows rfl
    obtain ⟨n, file', ⟨-, pages, rfl, hrows, hpinned⟩, known', hnum⟩ := hcomplete rfl
    obtain rfl : file = file' := Option.some.inj ((hsame.known known).symm.trans known')
    obtain rfl : rows = pages.flatMap Page.rows := hrows
    refine .inr ⟨_, rfl, fun row => ?_, hpinned.rows_sorted hsame.after.keyed, fun n hn => ?_⟩
    · rw [hpinned.mem_rows hsame.after known' hnum]
      exact hsame.rowOf_iff table file row
    · rw [← hsame.numPages] at hn
      have hpage : pages[n]? = some pages[n] := List.getElem?_eq_getElem (by omega)
      exact Option.isSome_iff_ne_none.mpr (LockTable.ne_none_of_covers (hpinned.locked n _ hpage))

/-- Room for one page, over one empty table. -/
def roomForOne : Pool := { config := { capacity := 1, pageSize := 64 }, storage := Storage.oneTable }

/-- A page is filled and one row comes on the next page, and then all rows of the first one are taken out. -/
def firstEmptied : List Call :=
  List.replicate 15 (.insert 7 1 oneRow) ++ [.complete 7 .commit, .insert 8 1 oneRow, .complete 8 .commit] ++
    (List.range 15).map (fun slot => .delete 9 { oneRow with place := some ⟨⟨1, 0⟩, slot⟩ }) ++
    [.complete 9 .commit]

/-- The pool after this, with the empty page in memory. -/
def emptyInFront : Pool := firstEmptied.foldl after roomForOne

theorem a_row_behind_an_empty_page_is_given :
    Undisturbed roomForOne emptyInFront ∧ emptyInFront.storage.Counted ∧
    (∃ file, emptyInFront.catalog.tableFile? 1 = some file ∧ Legible emptyInFront 1 file) ∧
    emptyInFront.page? ⟨1, 1⟩ = none ∧
    ∃ t q, drain ((start 4 1).rewind, emptyInFront) =
        (.ok [{ oneRow with place := some ⟨⟨1, 1⟩, 0⟩ }], (t, q)) ∧
      q.page? ⟨1, 0⟩ = none ∧ (∀ id, q.seen id = emptyInFront.seen id) ∧
      next (t, q) = (.ok none, (t, q)) ∧ q.locks.holds 4 ⟨1, 0⟩ = true := by
  have new : Pool.new Storage.oneTable { capacity := 1, pageSize := 64 } = .ok roomForOne := rfl
  have reached : Undisturbed roomForOne emptyInFront := undisturbed_foldl .start (by decide)
  have counted : emptyInFront.storage.Counted := by decide +kernel
  have hpages : (emptyInFront.catalog.tableFile? 1).map (·.numPages emptyInFront.disk) = some 2 := by
    decide +kernel
  obtain ⟨file, known, hpages⟩ := Option.map_eq_some_iff.mp hpages
  have hread : ∀ n < 2, (emptyInFront.storage.readPage ⟨1, n⟩).toOption.isSome = true := by decide +kernel
  have legible : Legible emptyInFront 1 file := by
    intro n hn
    obtain ⟨page, hpage⟩ := Option.isSome_iff_exists.mp (hread n (hpages ▸ hn))
    exact ⟨page, Step.eq_ok_of_toOption hpage⟩
  have habsent : emptyInFront.page? ⟨1, 1⟩ = none := by decide +kernel
  have hrows : (drain ((start 4 1).rewind, emptyInFront)).1 =
      .ok [{ oneRow with place := some ⟨⟨1, 1⟩, 0⟩ }] := by decide +kernel
  have hgone : (drain ((start 4 1).rewind, emptyInFront)).2.2.page? ⟨1, 0⟩ = none := by decide +kernel
  obtain ⟨⟨t, q⟩, run⟩ := Step.exists_run hrows
  rw [run] at hgone
  obtain ⟨-, -, hseen, hover, hgives⟩ := a_drained_scan_gives_each_row_once Storage.ownFiles_oneTable new
    reached counted known legible (.inr ⟨start 4 1, rfl, rfl, rfl⟩) run
  obtain ⟨e, he, -⟩ | ⟨rows, -, -, -, hlocks⟩ := hgives
  · cases he
  · have hfirst : 0 < file.numPages emptyInFront.disk := by omega
    exact ⟨reached, counted, ⟨file, known, legible⟩, habsent, t, q, run, hgone, hseen, hover q, hlocks 0 hfirst⟩

end Scan

end PageStore
