-- What an insert or a delete leaves behind when it fails. Nothing of it is to be seen: not on
-- any page, not in the row that was to go in or out, not in anybody else's locks. All that
-- may stay is one new page of free slots, and locks of the transaction itself.
import PageStore.Proofs.Pool.Placing

namespace PageStore.Pool

open LockTable

/-! ## Changes as whoever asks for them sees them -/

/-- A change of a page is noted, and the page is put into memory if it is not there. `inHand` is the page
as whoever changed it has it. -/
def cacheDirty (inHand : Page) (tx : TxId) (id : PageId) : Step Pool Unit := do
  let p ← Step.state
  if p.isCached id then setPage id fun page => page.mark (some tx)
  else
    if p.capacity ≤ p.numCached then evict []
    hold id (inHand.mark (some tx))
  touch id

/-- An operation on the pool beside a row. -/
def besideRow {α : Type} (m : Step Pool α) : Step (Row × Pool) α :=
  Step.focus Prod.snd (fun s p => (s.1, p)) m

/-- `insert` with the row in view. The row has its place as soon as a page has taken it, while the change
has still to be noted. -/
def insertPlacing (inHand : Page) (tx : TxId) (table : TableId) : Step (Row × Pool) Unit := do
  let s ← Step.state
  let file ← besideRow (tableFile table)
  Step.check (s.1.schema.agrees file.schema) (file.schema.mismatch s.1.schema)
  let place ← besideRow (insertInto file tx s.1)
  Step.update fun s => (s.1.setPlace (some place), s.2)
  besideRow (cacheDirty inHand tx place.page)

/-- `delete` with the row in view. -/
def deletePlacing (inHand : Page) (tx : TxId) : Step (Row × Pool) Unit := do
  let s ← Step.state
  let place ← Step.ofOption (.invalidRow .noRecordId) s.1.place
  let file ← besideRow (tableFile place.page.table)
  Step.check (s.1.schema.agrees file.schema) (file.schema.mismatch s.1.schema)
  let id ← besideRow (deleteFrom file tx s.1)
  besideRow (cacheDirty inHand tx id)

section Runs

variable (inHand : Page) (tx : TxId) {α : Type} {m : Step Pool α} {row : Row} {p q : Pool}

theorem besideRow_run {r : Except Error α} (h : m p = (r, q)) : besideRow m (row, p) = (r, (row, q)) :=
  Step.focus_run h

/-- A page that is in memory is only marked, and that cannot fail. -/
theorem cacheDirty_run {id : PageId} (h : p.isCached id = true) :
    cacheDirty inHand tx id p = noteChange tx id p := by
  unfold cacheDirty noteChange
  rw [Step.bind_of_ok (Step.state_run p), if_pos h]

theorem isCached_iff {id : PageId} : p.isCached id = true ↔ ∃ page, p.page? id = some page := by
  rw [isCached, Assoc.contains, page?, ← Option.isSome_iff_exists, Option.isSome_map]

theorem isCached_changed {id : PageId} {page after : Page} (h : p.page? id = some page) :
    (p.changed tx id after).isCached id = true := by
  rw [isCached_iff, changed, page?_withPage, if_pos rfl, h]
  exact ⟨_, rfl⟩

/-- The page that took the row is in memory. -/
theorem isCached_of_insertInto {file : TableFile} {table : TableId} (hp : Keyed p)
    (known : p.catalog.tableFile? table = some file) {place : RecordId}
    (run : insertInto file tx row p = (.ok place, q)) : q.isCached place.page = true := by
  have h := insertInto_ends row (fun _ h => h : StillHolds p.locks tx p) known
  rw [Step.Ends, run] at h
  obtain ⟨m, id, page, filled, -, hold, hput, rfl⟩ := h
  have hid : place.page = id :=
    (Page.inserted_of_insert hput).page.trans (Quiets.keyed hold.moves hp id page hold.there)
  rw [hid]
  exact isCached_changed tx hold.there

theorem isCached_of_deleteFrom {file : TableFile} {id : PageId}
    (run : deleteFrom file tx row p = (.ok id, q)) : q.isCached id = true := by
  have h := deleteFrom_ends file tx row p
  rw [Step.Ends, run] at h
  obtain ⟨place, page, emptied, m, -, rfl, -, hthere, -, -, rfl⟩ := h
  exact isCached_changed tx hthere

theorem check_passed {σ β : Type} (e : Error) (f : Unit → Step σ β) (s : σ) :
    (Step.check true e >>= f) s = f () s := rfl

/-- Seen with its row an insert is the same insert: the row has got its place if it succeeds, and is as
it was if it fails. -/
theorem insertPlacing_run (hp : Keyed p) (table : TableId) (row : Row) :
    insertPlacing inHand tx table (row, p) = match insert tx table row p with
      | (.ok place, q) => (.ok (), (row.setPlace (some place), q))
      | (.error e, q) => (.error e, (row, q)) := by
  unfold insertPlacing insert
  rw [Step.bind_of_ok (Step.state_run _)]
  cases hfile : p.catalog.tableFile table with
  | error e =>
    have hrun : tableFile table p = (.error e, p) := congrArg (·, p) hfile
    rw [Step.bind_of_error (besideRow_run hrun), Step.bind_of_error hrun]
  | ok file =>
    have hrun : tableFile table p = (.ok file, p) := congrArg (·, p) hfile
    have known := Storage.tableFile?_of_tableFile hfile
    rw [Step.bind_of_ok (besideRow_run hrun), Step.bind_of_ok hrun]
    cases hagrees : row.schema.agrees file.schema with
    | false => rfl
    | true =>
      rw [check_passed, check_passed]
      rcases hin : insertInto file tx row p with ⟨e | place, q⟩
      · rw [Step.bind_of_error (besideRow_run hin), Step.bind_of_error hin]
      · have hcached := isCached_of_insertInto tx hp known hin
        have hnote : cacheDirty inHand tx place.page q = (.ok (), (noteChange tx place.page q).2) :=
          cacheDirty_run inHand tx hcached
        rw [Step.bind_of_ok (besideRow_run hin), Step.bind_of_ok (Step.update_run _ _),
          besideRow_run hnote, Step.bind_of_ok hin]
        rfl

theorem deletePlacing_run (row : Row) : deletePlacing inHand tx (row, p) =
    match delete tx row p with
      | (.ok _, q) => (.ok (), (row, q))
      | (.error e, q) => (.error e, (row, q)) := by
  unfold deletePlacing delete
  rw [Step.bind_of_ok (Step.state_run _)]
  cases hplace : row.place with
  | none => rfl
  | some place =>
    rw [Step.bind_of_ok (show Step.ofOption _ (some place) (row, p) = (.ok place, (row, p)) from rfl),
      Step.bind_of_ok (show Step.ofOption _ (some place) p = (.ok place, p) from rfl)]
    cases hfile : p.catalog.tableFile place.page.table with
    | error e =>
      have hrun : tableFile place.page.table p = (.error e, p) := congrArg (·, p) hfile
      rw [Step.bind_of_error (besideRow_run hrun), Step.bind_of_error hrun]
    | ok file =>
      have hrun : tableFile place.page.table p = (.ok file, p) := congrArg (·, p) hfile
      rw [Step.bind_of_ok (besideRow_run hrun), Step.bind_of_ok hrun]
      cases hagrees : row.schema.agrees file.schema with
      | false => rfl
      | true =>
        rw [check_passed, check_passed]
        rcases hin : deleteFrom file tx row p with ⟨e | id, q⟩
        · rw [Step.bind_of_error (besideRow_run hin), Step.bind_of_error hin]
        · have hcached := isCached_of_deleteFrom tx hin
          have hnote : cacheDirty inHand tx id q = (.ok (), (noteChange tx id q).2) :=
            cacheDirty_run inHand tx hcached
          rw [Step.bind_of_ok (besideRow_run hin), besideRow_run hnote, Step.bind_of_ok hin]
          rfl

end Runs

/-! ## What is left of a failed change -/

/-- The files and all that is to be seen of them are as before. -/
structure Untouched (p q : Pool) : Prop where
  storage : q.storage = p.storage
  seen : ∀ id, q.seen id = p.seen id

/-- The file of a table has grown by a page of zeros, which is to be seen as a clean page of free slots;
no other byte of any file has changed, and all other pages are to be seen as before. -/
structure OnlyGrown (table : TableId) (file : TableFile) (p q : Pool) : Prop where
  known : p.catalog.tableFile? table = some file
  catalog : q.catalog = p.catalog
  disk : q.disk = p.disk.setContent file.file (file.content p.disk ++ Bytes.zeros file.pageSize)
  others : ∀ id, id ≠ ⟨table, file.numPages p.disk⟩ → q.seen id = p.seen id
  fresh : ∃ page, q.seen ⟨table, file.numPages p.disk⟩ = .ok page ∧ page.dirtiedBy = none ∧
    ∀ slot, page.fieldsAt slot = none

theorem LooksSame.untouched {p q : Pool} (h : LooksSame p q) : Untouched p q := ⟨h.storage, h.seen⟩

theorem LooksSame.onlyGrown {p q : Pool} {table : TableId} {file : TableFile}
    (known : p.catalog.tableFile? table = some file) (hp : Faithful p) (paged : p.storage.Paged)
    (hslots : file.layout.slots ≠ 0) (h : LooksSame (p.withGrown file) q) : OnlyGrown table file p q where
  known := known
  catalog := by
    rw [Pool.catalog, h.storage]
    rfl
  disk := (congrArg Storage.disk h.storage).trans (disk_withGrown paged known)
  others id hid := (h.seen id).trans (seen_withGrown known hp hid)
  fresh := by
    rw [h.seen]
    exact seen_new known hp (pageSize_pos_of_slots hslots)

/-! ## The law -/

/-- An insert or a delete that fails has changed nothing that is to be seen, on no page and in no file, but
that a failed insert may have made one new page of free slots. It has the number that 32 bits have room
for, if they can count the pages of the tables. The row has the place that it had. No lock of anybody else
has changed, and the transaction has all that it held, in no weaker mode. -/
theorem a_change_that_fails_has_changed_nothing {storage : Storage} (own : storage.OwnFiles)
    (paged : storage.Paged) {config : Config} {pool : Pool} (new : Pool.new storage config = .ok pool)
    {p : Pool} (reached : Undisturbed pool p) (counted : p.storage.Counted) (inHand : Page) (tx : TxId)
    (row : Row) :
    (∀ table e row' q, insertPlacing inHand tx table (row, p) = (.error e, (row', q)) →
      insert tx table row p = (.error e, q) ∧ row' = row ∧ Grows (· = tx) p.locks q.locks ∧
      (Untouched p q ∨ ∃ file, OnlyGrown table file p q ∧
        (file.numPagesWord p.disk).toNat = file.numPages p.disk)) ∧
    (∀ e row' q, deletePlacing inHand tx (row, p) = (.error e, (row', q)) →
      delete tx row p = (.error e, q) ∧ row' = row ∧ Grows (· = tx) p.locks q.locks ∧
      Untouched p q) := by
  have hp := reached.sure (sure_of_new own new)
  have hpaged := reached.paged (sure_of_new own new) (paged_of_new paged new)
  constructor
  · intro table e row' q run
    rw [insertPlacing_run inHand tx hp.faithful.keyed] at run
    rcases hinsert : insert tx table row p with ⟨e' | place, q'⟩
    · rw [hinsert] at run
      cases run
      have hlodges := insert_lodges hp tx table row
      have hmoves := insert_ends tx table row hp.faithful.keyed
      rw [Step.Ends, hinsert] at hlodges hmoves
      refine ⟨rfl, rfl, (Quiets.grows hmoves hp.locks).2, ?_⟩
      rcases hlodges with hsame | ⟨file, known, hslots, hsame⟩
      · exact .inl hsame.untouched
      · have hgrown := hsame.onlyGrown known hp.faithful hpaged hslots
        exact .inr ⟨file, hgrown, counted.numPages known⟩
    · rw [hinsert] at run
      cases run
  · intro e row' q run
    rw [deletePlacing_run] at run
    rcases hdelete : delete tx row p with ⟨e' | ⟨⟩, q'⟩
    · rw [hdelete] at run
      cases run
      have hlooks := delete_ends tx row p
      rw [Step.Ends, hdelete] at hlooks
      refine ⟨rfl, rfl, (Quiets.grows (Quiets.of_looks hlooks) hp.locks).2, ?_⟩
      exact (LooksSame.of_looks hlooks hp.faithful).untouched
    · rw [hdelete] at run
      cases run

/-- Two full pages, both of them changed. -/
def twoPagesFull : List Call := List.replicate 30 (.insert 7 1 oneRow)

/-- One of the rows that transaction 7 put there. -/
def rowOfSeven : Row := { oneRow with place := some ⟨⟨1, 0⟩, 7⟩ }

/-- There is no room in memory for the page that the file grows by, and nobody else may take a row out. -/
theorem a_page_may_stay_without_its_row :
    Storage.oneTable.Paged ∧ Undisturbed roomForTwo (twoPagesFull.foldl after roomForTwo) ∧
    (twoPagesFull.foldl after roomForTwo).storage.Counted ∧
    ∃ inHand q, insertPlacing inHand 7 1 (oneRow, twoPagesFull.foldl after roomForTwo) =
        (.error (.poolFull 2), (oneRow, q)) ∧
      (∃ file, OnlyGrown 1 file (twoPagesFull.foldl after roomForTwo) q ∧
        (file.numPagesWord (twoPagesFull.foldl after roomForTwo).disk).toNat =
          file.numPages (twoPagesFull.foldl after roomForTwo).disk) ∧
      ∃ q', deletePlacing inHand 8 (rowOfSeven, twoPagesFull.foldl after roomForTwo) =
          (.error (.lockRefused 8 ⟨1, 0⟩), (rowOfSeven, q')) ∧
        Untouched (twoPagesFull.foldl after roomForTwo) q' := by
  have reached : Undisturbed roomForTwo (twoPagesFull.foldl after roomForTwo) :=
    undisturbed_foldl .start (by decide)
  have counted : (twoPagesFull.foldl after roomForTwo).storage.Counted := by decide +kernel
  have new : Pool.new Storage.oneTable { capacity := 2, pageSize := 64 } = .ok roomForTwo := rfl
  obtain ⟨inHand, -⟩ : ∃ page, (twoPagesFull.foldl after roomForTwo).page? ⟨1, 0⟩ = some page :=
    Option.isSome_iff_exists.mp (by decide +kernel)
  obtain ⟨q, hinsert⟩ : ∃ q, insert 7 1 oneRow (twoPagesFull.foldl after roomForTwo) =
      (.error (.poolFull 2), q) := Step.exists_run (by decide +kernel)
  obtain ⟨q', hdelete⟩ : ∃ q, delete 8 rowOfSeven (twoPagesFull.foldl after roomForTwo) =
      (.error (.lockRefused 8 ⟨1, 0⟩), q) := Step.exists_run (by decide +kernel)
  have hlonger : (insert 7 1 oneRow (twoPagesFull.foldl after roomForTwo)).2.storage ≠
      (twoPagesFull.foldl after roomForTwo).storage := by decide +kernel
  rw [hinsert] at hlonger
  have keyed := (reached.sure (sure_of_new Storage.ownFiles_oneTable new)).faithful.keyed
  have hinserting : insertPlacing inHand 7 1 (oneRow, twoPagesFull.foldl after roomForTwo) =
      (.error (.poolFull 2), (oneRow, q)) := by
    rw [insertPlacing_run inHand 7 keyed, hinsert]
  have hdeleting : deletePlacing inHand 8 (rowOfSeven, twoPagesFull.foldl after roomForTwo) =
      (.error (.lockRefused 8 ⟨1, 0⟩), (rowOfSeven, q')) := by
    rw [deletePlacing_run, hdelete]
  obtain ⟨hinserts, -⟩ := a_change_that_fails_has_changed_nothing Storage.ownFiles_oneTable
    Storage.paged_oneTable new reached counted inHand 7 oneRow
  obtain ⟨-, hdeletes⟩ := a_change_that_fails_has_changed_nothing Storage.ownFiles_oneTable
    Storage.paged_oneTable new reached counted inHand 8 rowOfSeven
  obtain ⟨-, -, -, hleft⟩ := hinserts 1 _ _ _ hinserting
  obtain ⟨-, -, -, huntouched⟩ := hdeletes _ _ _ hdeleting
  refine ⟨Storage.paged_oneTable, reached, counted, inHand, q, hinserting, ?_, q', hdeleting, huntouched⟩
  exact hleft.resolve_left fun huntouched => hlonger huntouched.storage

end PageStore.Pool
