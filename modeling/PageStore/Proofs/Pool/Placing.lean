-- The place that an insert gives to a row: the first free slot of the table as it is to be
-- seen, in memory or in its file, or else the first slot of one new page. No other row is
-- touched, and of the locks only the one on that page.
import PageStore.Proofs.Pool.FirstFit
import PageStore.Proofs.Pool.Lengths

namespace PageStore.Pool

open LockTable

/-! ## One insert -/

/-- `tx` came to the page of the place, has locked it to change it, and has put the row into it, which is
the last use of the page. Its other locks are as before. -/
structure Lodged (tx : TxId) (row : Row) (place : RecordId) (p q : Pool) (page : Page) (m : Pool) :
    Prop where
  came : LooksSame p m
  modes : m.locks.mode? = Modes.set p.locks.mode? tx place.page (some .exclusive)
  inserted : Page.Inserted page row place (page.withSlot place.slot (some row.fields))
  sets : Sets tx place none (some row.fields) page m q

theorem Takes.lodged {tx : TxId} {id : PageId} {row : Row} {place : RecordId} {p q m : Pool} {page : Page}
    (h : Takes tx id row place p q page m) :
    place.page = id ∧ Lodged tx row place p (q.withUse id) page m := by
  obtain rfl : place.page = id := h.inserted.page.trans (h.came.after.keyed id page h.there)
  have hlocked : m.locks.mode? tx place.page = some .exclusive := by
    rw [h.modes]
    simp [Modes.set]
  have hsets : Sets tx place none (some row.fields) page m (q.withUse place.page) :=
    ⟨h.there, hlocked, h.inserted.lt, h.inserted.was_free, h.result ▸ rfl⟩
  exact ⟨rfl, h.came, h.modes, h.inserted, hsets⟩

/-- What comes of an insert. -/
theorem insert_lodges {p : Pool} (hp : Sure p) (tx : TxId) (table : TableId) (row : Row) :
    (insert tx table row).Ends p fun r q => match r with
      | .error _ => LooksSame p q ∨ ∃ file, p.catalog.tableFile? table = some file ∧
          file.layout.slots ≠ 0 ∧ LooksSame (p.withGrown file) q
      | .ok place => ∃ file n base page m, p.catalog.tableFile? table = some file ∧
          FirstRoom table file p n base ∧ place.page = ⟨table, n⟩ ∧ Lodged tx row place base q page m := by
  unfold insert
  refine Step.Ends.bind (tableFile_ends table p) ?_ (fun e q h => .inl (h.1.symm ▸ .refl hp.faithful))
  rintro file t ⟨rfl, hknown⟩
  have known := hknown file rfl
  refine Step.Ends.check (fun _ => ?_) (fun _ => .inl (.refl hp.faithful))
  refine Step.Ends.bind (insertInto_lands hp known tx row) ?_
    (fun e q h => h.imp_right fun h => ⟨file, known, h⟩)
  rintro place q ⟨n, base, page, m, hroom, htakes⟩
  obtain ⟨hid, hlodged⟩ := htakes.lodged
  have hnote := noteChange_changed m tx ⟨table, n⟩ (page.withSlot place.slot (some row.fields))
  rw [← htakes.result, ← hid] at hnote
  rw [← hid] at hlodged
  exact Step.Ends.of_ok hnote ⟨file, n, base, page, m, known, hroom, hid, hlodged⟩

/-! ## The first free slot -/

/-- A slot of a table's pages in which there is no row. -/
structure Vacant (p : Pool) (table : TableId) (file : TableFile) (place : RecordId) : Prop where
  table : place.page.table = table
  inFile : place.page.number < file.numPages p.disk
  slot : place.slot < file.layout.slots
  empty : p.rowAt? place = none

section FirstRoom

variable {p base : Pool} {table : TableId} {file : TableFile} {n : Nat}

theorem FirstRoom.faithful (h : FirstRoom table file p n base) (hp : Faithful p)
    (known : p.catalog.tableFile? table = some file) : Faithful base := by
  cases h with
  | old => exact hp
  | new => exact hp.withGrown known

theorem FirstRoom.locks (h : FirstRoom table file p n base) : base.locks = p.locks := by
  cases h <;> rfl

/-- On a full page there is a row at each place. -/
theorem rowAt?_of_full (hp : Faithful p) {place : RecordId}
    (known : p.catalog.tableFile? place.page.table = some file) (h : Full p place.page)
    (hslot : place.slot < file.layout.slots) : p.rowAt? place ≠ none := by
  obtain ⟨page, hseen, hfull⟩ := h
  have hcount : page.slots.length = file.layout.slots := (inFile_of_seen hp known hseen).slots
  rw [rowAt?_eq_seen, hseen]
  exact Page.fieldsAt_of_full hfull (by omega)

theorem FirstRoom.front (h : FirstRoom table file p n base) : ∀ k < n, Full p ⟨table, k⟩ := by
  cases h with
  | old _ _ front => exact front
  | new _ front => exact front

/-- The pages of the file, and the page behind them, are all that it can be. -/
theorem FirstRoom.number_le (h : FirstRoom table file p n base) : n ≤ file.numPages p.disk := by
  cases h with
  | old _ inFile => exact Nat.le_of_lt inFile
  | new => exact Nat.le_refl _

/-- In front of the page there is a row at each place. -/
theorem FirstRoom.le_of_empty (h : FirstRoom table file p n base) (hp : Faithful p)
    (known : p.catalog.tableFile? table = some file) {place : RecordId} (htable : place.page.table = table)
    (hslot : place.slot < file.layout.slots) (hempty : p.rowAt? place = none) : n ≤ place.page.number := by
  refine Nat.le_of_not_lt fun hlt => ?_
  have hpage : place.page = ⟨table, place.page.number⟩ := by rw [← htable]
  exact rowAt?_of_full hp (htable.symm ▸ known) (hpage ▸ h.front _ hlt) hslot hempty

theorem FirstRoom.le_of_vacant (h : FirstRoom table file p n base) (hp : Faithful p)
    (known : p.catalog.tableFile? table = some file) {place : RecordId}
    (hvacant : Vacant p table file place) : n ≤ place.page.number :=
  h.le_of_empty hp known hvacant.table hvacant.slot hvacant.empty

/-- All other pages, and all rows, are to be seen as before. -/
theorem FirstRoom.seen (h : FirstRoom table file p n base) (hp : Faithful p)
    (known : p.catalog.tableFile? table = some file) {id : PageId} (hid : id ≠ ⟨table, n⟩) :
    base.seen id = p.seen id := by
  cases h with
  | old => rfl
  | new => exact seen_withGrown known hp hid

theorem FirstRoom.rowAt? (h : FirstRoom table file p n base) (hp : Faithful p)
    (known : p.catalog.tableFile? table = some file) (place : RecordId) :
    base.rowAt? place = p.rowAt? place := by
  cases h with
  | old => rfl
  | new =>
    have hgrow : Quiet p.locks 0 p (p.withGrown file) := .grow p table file known
    exact (hgrow.shows hp place.page).rowAt?

end FirstRoom

section Lodged

variable {tx : TxId} {row : Row} {place : RecordId} {p base q m : Pool} {page : Page} {table : TableId}
  {file : TableFile} {n : Nat}

theorem Lodged.seen (h : Lodged tx row place base q page m) : base.seen place.page = .ok page := by
  rw [← h.came.seen]
  exact seen_of_page h.sets.there

theorem Lodged.there (h : Lodged tx row place base q page m) : q.rowAt? place = some row.fields := by
  have hpage := (h.sets.page? place.page).trans (if_pos rfl)
  rw [Pool.rowAt?, hpage]
  change ((page.withSlot place.slot _).mark (some tx)).fieldsAt place.slot = _
  rw [Page.fieldsAt_mark, Page.fieldsAt_withSlot h.inserted.lt, if_pos rfl]

/-- The slot is one of the table's pages. -/
theorem Lodged.slot_lt (h : Lodged tx row place base q page m) (hbase : Faithful base)
    (known : base.catalog.tableFile? place.page.table = some file) : place.slot < file.layout.slots := by
  have hcount : page.slots.length = file.layout.slots := (inFile_of_seen hbase known h.seen).slots
  exact hcount ▸ h.inserted.lt

/-- At the place there was no row. -/
theorem Lodged.was_empty (h : Lodged tx row place base q page m) : base.rowAt? place = none := by
  rw [rowAt?_eq_seen, h.seen]
  exact h.inserted.was_free

/-- All other places without a row come behind it. -/
theorem Lodged.order_empty (h : Lodged tx row place base q page m) (hp : Faithful p)
    (known : p.catalog.tableFile? table = some file) (hroom : FirstRoom table file p n base)
    (hpage : place.page = ⟨table, n⟩) {other : RecordId} (htable : other.page.table = table)
    (hslot : other.slot < file.layout.slots) (hempty : p.rowAt? other = none) (hne : other ≠ place) :
    place.order other = .lt := by
  rw [RecordId.order_eq_lt_iff, PageId.order_eq_lt_iff, hpage]
  rcases Nat.lt_or_eq_of_le (hroom.le_of_empty hp known htable hslot hempty) with hlt | heq
  · exact .inl (.inr ⟨htable.symm, hlt⟩)
  · have hsame : place.page = other.page := by rw [hpage, ← htable, heq]
    refine .inr ⟨hpage ▸ hsame, ?_⟩
    rcases Nat.lt_trichotomy place.slot other.slot with hslot | hslot | hslot
    · exact hslot
    · exact absurd (congrArg₂ RecordId.mk hsame.symm hslot.symm) hne
    · -- a slot in front of the place has a row
      rw [← hroom.rowAt? hp known, rowAt?_eq_seen, ← hsame, h.seen] at hempty
      exact absurd hempty (h.inserted.front hslot)

/-- The place on an old page was vacant, and all other vacant ones come behind it. -/
theorem Lodged.first (h : Lodged tx row place p q page m) (hp : Faithful p)
    (known : p.catalog.tableFile? table = some file) (hpage : place.page = ⟨table, n⟩)
    (hroom : FirstRoom table file p n p) (hn : n < file.numPages p.disk) :
    Vacant p table file place ∧
      ∀ other, Vacant p table file other → other ≠ place → place.order other = .lt := by
  have htable : place.page.table = table := by rw [hpage]
  refine ⟨⟨htable, by rwa [hpage], h.slot_lt hp (htable.symm ▸ known), h.was_empty⟩, ?_⟩
  intro other hother hne
  exact h.order_empty hp known hroom hpage hother.table hother.slot hother.empty hne

/-- On a new page it is the first slot. -/
theorem Lodged.slot_new (h : Lodged tx row place (p.withGrown file) q page m) (hp : Faithful p)
    (known : p.catalog.tableFile? table = some file) (hslots : file.layout.slots ≠ 0)
    (hpage : place.page = ⟨table, file.numPages p.disk⟩) : place.slot = 0 := by
  obtain ⟨page', hseen, -, hfree⟩ := seen_new known hp (pageSize_pos_of_slots hslots)
  obtain rfl : page = page' := by
    rw [← hpage, h.seen] at hseen
    exact Except.ok.inj hseen
  refine Nat.eq_zero_of_not_pos fun hpos => ?_
  exact h.inserted.front hpos (hfree 0)

end Lodged

/-- The files after one of them, made of pages, has grown by a page. -/
theorem disk_withGrown {p : Pool} (h : p.storage.Paged) {table : TableId} {file : TableFile}
    (known : p.catalog.tableFile? table = some file) : (p.withGrown file).disk =
      p.disk.setContent file.file (file.content p.disk ++ Bytes.zeros file.pageSize) := by
  have hcontent := Storage.content_grown h known
  exact congrArg (p.disk.setContent file.file) hcontent

/-! ## The law -/

/-- An insert that succeeds has put the row into the first free slot of the table, with no change of any
file, or, if there was none, into the first slot of a new page that its file has grown by. If 32 bits can
count the pages they have room for the number of this one too. All other rows and pages are as before. The
page is in memory with the mark of the transaction, which has locked it to change it; no other lock has
changed. -/
theorem an_insert_takes_the_first_free_slot {storage : Storage} (own : storage.OwnFiles)
    (paged : storage.Paged) {config : Config} {pool : Pool} (new : Pool.new storage config = .ok pool)
    {p q : Pool} (reached : Undisturbed pool p) (counted : p.storage.Counted) {tx : TxId} {table : TableId}
    {file : TableFile} (known : p.catalog.tableFile? table = some file) {row : Row} {place : RecordId}
    (run : insert tx table row p = (.ok place, q)) :
    (Vacant p table file place ∧
        (∀ other, Vacant p table file other → other ≠ place → place.order other = .lt) ∧
        q.storage = p.storage ∨
      (∀ other, ¬ Vacant p table file other) ∧ place = ⟨⟨table, file.numPages p.disk⟩, 0⟩ ∧
        q.catalog = p.catalog ∧
        q.disk = p.disk.setContent file.file (file.content p.disk ++ Bytes.zeros file.pageSize) ∧
        file.numPages q.disk = file.numPages p.disk + 1) ∧
    place.page.number ≤ (file.numPagesWord p.disk).toNat ∧
    q.rowAt? place = some row.fields ∧ (∀ other, other ≠ place → q.rowAt? other = p.rowAt? other) ∧
    (∀ id, id ≠ place.page → q.seen id = p.seen id) ∧
    (∃ page, q.page? place.page = some page ∧ page.dirtiedBy = some tx) ∧
    q.locks.mode? tx place.page = some .exclusive ∧
    ∀ u id, ¬ (u = tx ∧ id = place.page) → q.locks.mode? u id = p.locks.mode? u id := by
  have hp := reached.sure (sure_of_new own new)
  have hpaged := reached.paged (sure_of_new own new) (paged_of_new paged new)
  have h := insert_lodges hp tx table row
  rw [Step.Ends, run] at h
  obtain ⟨file', n, base, page, m, known', hroom, hpage, hlodged⟩ := h
  obtain rfl : file = file' := Option.some.inj (known.symm.trans known')
  have hstorage : q.storage = base.storage := hlodged.sets.storage.trans hlodged.came.storage
  refine ⟨?_, ?_, hlodged.there, ?_, ?_, ?_, ?_, ?_⟩
  · cases hroom with
    | old _ inFile front =>
      obtain ⟨hvacant, hfirst⟩ := hlodged.first hp.faithful known hpage (.old n inFile front) inFile
      exact .inl ⟨hvacant, hfirst, hstorage⟩
    | new slots front =>
      have hdisk : q.disk = (p.withGrown file).disk := congrArg Storage.disk hstorage
      have hslot := hlodged.slot_new hp.faithful known slots hpage
      have hcatalog : q.catalog = (p.withGrown file).catalog := congrArg Storage.catalog hstorage
      refine .inr ⟨fun other hother => ?_, congrArg₂ RecordId.mk hpage hslot, hcatalog,
        hdisk.trans (disk_withGrown hpaged known), ?_⟩
      · have hroom : FirstRoom table file p _ (p.withGrown file) := .new slots front
        exact Nat.not_lt.mpr (hroom.le_of_vacant hp.faithful known hother) hother.inFile
      · rw [hdisk]
        exact Storage.numPages_grown hp.faithful.own known (pageSize_pos_of_slots slots)
  · have hpages := counted.numPages known
    rw [hpage]
    exact Nat.le_trans hroom.number_le (Nat.le_of_eq hpages.symm)
  · intro other hother
    rw [hlodged.sets.rowAt? hother, hlodged.came.rowAt?, hroom.rowAt? hp.faithful known]
  · intro id hid
    rw [hlodged.sets.seen (Ne.symm hid), hlodged.came.seen, hroom.seen hp.faithful known (hpage ▸ hid)]
  · exact ⟨_, (hlodged.sets.page? place.page).trans (if_pos rfl), rfl⟩
  · rw [hlodged.sets.locks]
    exact hlodged.sets.locked
  · intro u id hother
    rw [hlodged.sets.locks, hlodged.modes, hroom.locks]
    simp only [Modes.set, if_neg hother]

/-- A row of the table of `roomForTwo`. -/
def oneRow : Row := { schema := ⟨[⟨"n", .int⟩]⟩, fields := [.int 5] }

/-- A full page and one with a single row, and then a row of the full one is taken out. -/
def oneFreed : List Call := sixteenRows ++ [.delete 7 { oneRow with place := some ⟨⟨1, 0⟩, 7⟩ }]

theorem a_slot_that_was_freed_is_the_first_to_be_taken :
    Storage.oneTable.Paged ∧ Undisturbed roomForTwo (oneFreed.foldl after roomForTwo) ∧
    (oneFreed.foldl after roomForTwo).storage.Counted ∧
    (oneFreed.foldl after roomForTwo).rowAt? ⟨⟨1, 1⟩, 1⟩ = none ∧
    ∃ q, insert 7 1 oneRow (oneFreed.foldl after roomForTwo) = (.ok ⟨⟨1, 0⟩, 7⟩, q) ∧
      q.storage = (oneFreed.foldl after roomForTwo).storage ∧
      q.rowAt? ⟨⟨1, 0⟩, 7⟩ = some oneRow.fields ∧ q.rowAt? ⟨⟨1, 1⟩, 1⟩ = none ∧
      q.locks.mode? 7 ⟨1, 0⟩ = some .exclusive := by
  have reached : Undisturbed roomForTwo (oneFreed.foldl after roomForTwo) :=
    undisturbed_foldl .start (by decide)
  have counted : (oneFreed.foldl after roomForTwo).storage.Counted := by decide +kernel
  have hfree : (oneFreed.foldl after roomForTwo).rowAt? ⟨⟨1, 1⟩, 1⟩ = none := by decide +kernel
  have hplace : (insert 7 1 oneRow (oneFreed.foldl after roomForTwo)).1 = .ok ⟨⟨1, 0⟩, 7⟩ :=
    Step.eq_ok_of_toOption (by decide +kernel)
  obtain ⟨q, run⟩ := Step.exists_run hplace
  obtain ⟨file, known⟩ : ∃ file, (oneFreed.foldl after roomForTwo).catalog.tableFile? 1 = some file :=
    Option.isSome_iff_exists.mp (by decide +kernel)
  have new : Pool.new Storage.oneTable { capacity := 2, pageSize := 64 } = .ok roomForTwo := rfl
  obtain ⟨hwhere, -, hrow, hothers, -, -, hlock, -⟩ :=
    an_insert_takes_the_first_free_slot Storage.ownFiles_oneTable Storage.paged_oneTable new reached
      counted known run
  refine ⟨Storage.paged_oneTable, reached, counted, hfree, q, run, ?_, hrow, ?_, hlock⟩
  · rcases hwhere with ⟨-, -, hstorage⟩ | ⟨-, hslot, -⟩
    · exact hstorage
    · have hzero : (7 : Nat) = 0 := congrArg RecordId.slot hslot
      omega
  · rw [hothers ⟨⟨1, 1⟩, 1⟩ (by decide), hfree]

end PageStore.Pool
