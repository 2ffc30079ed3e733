-- Two pools that only differ in what they keep in memory unchanged. A page that nobody
-- changed is in its file as well, so that one pool has it in memory and the other one
-- has not makes no difference to any request, as long as both have room.
import Mathlib.Data.List.Nodup
import PageStore.Proofs.Pool.Settled

namespace PageStore.Pool

/-- The same tables, the same files, the same locks and the same changed pages. -/
structure Alike (p p' : Pool) : Prop where
  storage : p.storage = p'.storage
  locks : p.locks = p'.locks
  dirty : SameDirty p p'
  faithful : Faithful p
  faithful' : Faithful p'

/-- A page that both pools have in memory. -/
structure InBoth (p p' : Pool) (id : PageId) (page : Page) : Prop where
  left : p.page? id = some page
  right : p'.page? id = some page

theorem Alike.catalog {p p' : Pool} (h : Alike p p') : p.catalog = p'.catalog :=
  congrArg Storage.catalog h.storage

theorem Alike.disk {p p' : Pool} (h : Alike p p') : p.disk = p'.disk :=
  congrArg Storage.disk h.storage

theorem Alike.dirty?_eq {p p' : Pool} (h : Alike p p') (id : PageId) : p.dirty? id = p'.dirty? id :=
  h.dirty.dirty?_eq id

/-- Two new pools over the same files are alike, of whatever size they are. -/
theorem alike_of_new {storage : Storage} {config config' : Config} {p p' : Pool}
    (own : storage.OwnFiles) (new : Pool.new storage config = .ok p)
    (new' : Pool.new storage config' = .ok p') : Alike p p' := by
  obtain ⟨rfl, -, -⟩ := eq_of_new new
  obtain ⟨rfl, -, -⟩ := eq_of_new new'
  have hempty : ∀ config : Config, Faithful { config, storage } :=
    fun config => ⟨own, fun id page hpage => nomatch hpage⟩
  exact ⟨rfl, rfl, fun _ _ _ _ => Iff.rfl, hempty config, hempty config'⟩

/-! ## Looking at pages -/

/-- A page as transactions see it: as it is in memory, or else as its file holds it. -/
def seen (p : Pool) (id : PageId) : Except Error Page :=
  match p.page? id with
  | some page => .ok page
  | none => p.storage.readPage id

theorem seen_of_page {p : Pool} {id : PageId} {page : Page} (h : p.page? id = some page) :
    p.seen id = .ok page := by
  rw [seen, h]

theorem seen_of_absent {p : Pool} {id : PageId} (h : p.page? id = none) :
    p.seen id = p.storage.readPage id := by
  rw [seen, h]

theorem seen_of_clean {p : Pool} (hp : Faithful p) {id : PageId} (h : p.dirty? id = none) :
    p.seen id = p.storage.readPage id := by
  cases hpage : p.page? id with
  | none => exact seen_of_absent hpage
  | some page => rw [seen_of_page hpage, hp.clean hpage (dirty?_eq_none.mp h page hpage)]

/-- A page of a table, as the file of the table says. -/
structure InFile (file : TableFile) (d : Disk) (id : PageId) (page : Page) : Prop where
  keyed : page.id = id
  columns : page.schema = file.schema
  slots : page.slots.length = file.layout.slots
  number_lt : 0 < file.pageSize → id.number < file.numPages d

/-- What is to be seen, in memory or not, is a copy of a page that can be read. -/
theorem stored_of_seen {p : Pool} (hp : Faithful p) {id : PageId} {page : Page} (h : p.seen id = .ok page) :
    ∃ stored, p.storage.readPage id = .ok stored ∧ Copy stored page := by
  cases hpage : p.page? id with
  | some page' =>
    rw [seen_of_page hpage] at h
    obtain rfl : page' = page := Except.ok.inj h
    exact hp.pages id page' hpage
  | none =>
    have hread : p.storage.readPage id = .ok page := seen_of_absent hpage ▸ h
    exact ⟨page, hread, copy_of_readPage hread⟩

/-- What is to be seen of a table is in its file. -/
theorem inFile_of_seen {p : Pool} (hp : Faithful p) {id : PageId} {file : TableFile} {page : Page}
    (known : p.catalog.tableFile? id.table = some file) (h : p.seen id = .ok page) :
    InFile file p.disk id page := by
  obtain ⟨stored, hstored, hcopy⟩ := stored_of_seen hp h
  obtain ⟨hid, hschema, hsize⟩ := hcopy.parts
  obtain ⟨file', bs, hs⟩ := Storage.stored_of_readPage hstored
  obtain rfl : file = file' := Option.some.inj (known.symm.trans hs.known)
  refine ⟨hid.trans (Storage.id_of_readPage hstored), hschema.trans hs.read.columns, ?_, hs.number_lt⟩
  rw [hcopy.sound.slots, Page.layout, hschema, hsize, hs.read.columns, hs.read.wide]
  rfl

/-- Whether a page is in memory or not, both pools show the same. -/
theorem Alike.seen {p p' : Pool} (h : Alike p p') (id : PageId) : p.seen id = p'.seen id := by
  have hsame := h.dirty?_eq id
  cases hd : p.dirty? id with
  | none =>
    rw [hd] at hsame
    rw [seen_of_clean h.faithful hd, seen_of_clean h.faithful' hsame.symm, h.storage]
  | some page =>
    rw [hd] at hsame
    rw [seen_of_page (dirty?_eq_some.mp hd).1, seen_of_page (dirty?_eq_some.mp hsame.symm).1]

/-- What is answered to a transaction that wants a page, and the locks after it, hang on nothing but the
locks and what is to be seen, unless there is no room. -/
theorem fetchBeside_answers (busy : List PageId) (tx : TxId) (id : PageId) (mode : LockMode) (p : Pool) :
    (fetchBeside busy tx id mode).Ends p fun r q => Step.full r ∨
      r = (if (p.locks.tryGrant tx id mode).1 then p.seen id else .error (.lockRefused tx id)) ∧
        q.locks = (p.locks.tryGrant tx id mode).2 := by
  unfold fetchBeside
  have hlock := lock_run tx id mode p
  rcases hgrant : p.locks.tryGrant tx id mode with ⟨granted, locks⟩
  rw [hgrant] at hlock
  cases granted with
  | false => exact Step.Ends.of_error hlock (.inr ⟨rfl, rfl⟩)
  | true =>
    refine Step.Ends.of_ok hlock (Step.Ends.of_ok (Step.state_run _) ?_)
    split
    · rename_i page hpage
      exact .inr ⟨(seen_of_page hpage).symm, rfl⟩
    · rename_i habsent
      have hseen : p.seen id = p.storage.readPage id := seen_of_absent habsent
      refine Step.Ends.ofExcept ?_ (fun e hread => .inr ⟨(hseen.trans hread).symm, rfl⟩)
      intro page hread
      have hanswer := (hseen.trans hread).symm
      split
      · refine Step.Ends.bind (evict_ends busy tx (p.withLocks locks)) ?_ ?_
        · rintro ⟨⟩ q ⟨-, hlocks, -⟩
          exact .inr ⟨hanswer, hlocks⟩
        · rintro e q ⟨-, -, -, -, hfull⟩
          exact .inl (Step.full_iff.mpr ⟨_, congrArg Except.error (hfull e rfl)⟩)
      · exact .inr ⟨hanswer, rfl⟩

/-- Looking at pages leaves two pools alike, if it leaves them with the same locks. -/
theorem Alike.looks {p p' q q' : Pool} (h : Alike p p') {tx : TxId} (hlooks : Looks tx p q)
    (hlooks' : Looks tx p' q') (hlocks : q.locks = q'.locks) : Alike q q' where
  storage := by rw [Looks.catalog hlooks, Looks.catalog hlooks', h.storage]
  locks := hlocks
  dirty := ((Looks.sameDirty hlooks).symm.trans h.dirty).trans (Looks.sameDirty hlooks')
  faithful := Looks.faithful hlooks h.faithful
  faithful' := Looks.faithful hlooks' h.faithful'

/-- A page that is fetched is the same one, and both pools have it in memory then. -/
theorem Alike.fetch {p p' : Pool} (h : Alike p p') (busy busy' : List PageId) (tx : TxId) (id : PageId)
    (mode : LockMode) :
    Step.Agree (fetchBeside busy tx id mode) p (fetchBeside busy' tx id mode) p' fun r q q' =>
      Alike q q' ∧ ∀ page, r = .ok page → InBoth q q' id page := by
  have hleft := (fetchBeside_ends busy tx id mode p).and (fetchBeside_answers busy tx id mode p)
  have hright := (fetchBeside_ends busy' tx id mode p').and (fetchBeside_answers busy' tx id mode p')
  rw [← h.locks, ← h.seen] at hright
  refine Step.Agree.of_ends hleft hright ?_
  rintro r q r' q' ⟨⟨hlooks, hgot⟩, hfull | ⟨hr, hlocks⟩⟩ ⟨⟨hlooks', hgot'⟩, hfull' | ⟨hr', hlocks'⟩⟩
  · exact .inl hfull
  · exact .inl hfull
  · exact .inr (.inl hfull')
  · obtain rfl : r = r' := hr.trans hr'.symm
    refine .inr (.inr ⟨rfl, h.looks hlooks hlooks' (hlocks.trans hlocks'.symm), ?_⟩)
    intro page hpage
    exact ⟨(hgot page hpage).1, (hgot' page hpage).1⟩

/-! ## Changes of both pools -/

theorem Alike.withLocks {p p' : Pool} (h : Alike p p') (locks : LockTable) :
    Alike (p.withLocks locks) (p'.withLocks locks) where
  storage := h.storage
  locks := rfl
  dirty := h.dirty
  faithful := ⟨h.faithful.own, h.faithful.pages⟩
  faithful' := ⟨h.faithful'.own, h.faithful'.pages⟩

theorem Alike.release {p p' : Pool} (h : Alike p p') (tx : TxId) (id : PageId) :
    Step.Agree (release tx id) p (release tx id) p' fun _ q q' => Alike q q' := by
  have hrun : Pool.release tx id p' = (.ok (), p'.withLocks (p.locks.release tx id).2) := by
    rw [h.locks]
    rfl
  exact Step.Agree.of_run rfl hrun (h.withLocks _)

theorem Alike.withUse {p p' : Pool} (h : Alike p p') (id : PageId) :
    Alike (p.withUse id) (p'.withUse id) where
  storage := h.storage
  locks := h.locks
  dirty := h.dirty
  faithful := ⟨h.faithful.own, h.faithful.pages⟩
  faithful' := ⟨h.faithful'.own, h.faithful'.pages⟩

/-- A page that both have in memory becomes another copy of the one in its file. -/
theorem Alike.withPage {p p' : Pool} (h : Alike p p') {id : PageId} {page : Page}
    (hboth : InBoth p p' id page) {f : Page → Page}
    (hcopy : ∀ stored, Copy stored page → Copy stored (f page)) :
    Alike (p.withPage id f) (p'.withPage id f) ∧
      InBoth (p.withPage id f) (p'.withPage id f) id (f page) := by
  refine ⟨⟨h.storage, h.locks, ?_, h.faithful.withPage hboth.left hcopy,
    h.faithful'.withPage hboth.right hcopy⟩, ?_, ?_⟩
  · intro other page' tx hdirty
    rw [page?_withPage, page?_withPage]
    split
    · rename_i heq
      rw [← heq, hboth.left, hboth.right]
    · exact h.dirty other page' tx hdirty
  · rw [page?_withPage, if_pos rfl, hboth.left]
    rfl
  · rw [page?_withPage, if_pos rfl, hboth.right]
    rfl

/-- Both files of a table grow by a page. -/
theorem Alike.grown {p p' : Pool} (h : Alike p p') {table : TableId} {file : TableFile}
    (known : p.catalog.tableFile? table = some file) :
    Alike (p.withDisk (file.grown p.disk)) (p'.withDisk (file.grown p'.disk)) where
  storage := by rw [storage_withDisk, storage_withDisk, h.storage, h.disk]
  locks := h.locks
  dirty := h.dirty
  faithful := Quiet.faithful (.grow p table file known : Quiet p.locks 0 p _) h.faithful
  faithful' := Quiet.faithful (.grow p' table file (h.catalog ▸ known) : Quiet p'.locks 0 p' _) h.faithful'

/-! ## Rows -/

/-- Both pools put a row into the same page, or neither puts it anywhere. -/
def BothPut (r : Except Error (Option RecordId)) (q q' : Pool) : Prop :=
  Alike q q' ∧ ∀ place, r = .ok (some place) → ∃ page, InBoth q q' place.page page

theorem Alike.putNothing {q q' : Pool} (h : Alike q q') : BothPut (.ok none) q q' := by
  refine ⟨h, ?_⟩
  rintro place ⟨⟩

theorem Alike.putFails {q q' : Pool} (h : Alike q q') (e : Error) : BothPut (.error e) q q' := by
  refine ⟨h, ?_⟩
  rintro place ⟨⟩

theorem Alike.releaseUnless {p p' : Pool} (h : Alike p p') (heldBefore : Bool) (tx : TxId) (id : PageId) :
    Step.Agree (releaseUnless heldBefore tx id) p (releaseUnless heldBefore tx id) p'
      fun _ q q' => Alike q q' := by
  unfold Pool.releaseUnless
  cases heldBefore with
  | true => exact Step.Agree.of_run rfl rfl h
  | false => exact h.release tx id

theorem Alike.tryInsertInto {p p' : Pool} (h : Alike p p') (tx : TxId) (id : PageId) {row : Row}
    (typed : row.Typed) :
    Step.Agree (tryInsertInto tx id row) p (tryInsertInto tx id row) p' BothPut := by
  unfold Pool.tryInsertInto
  refine Step.Agree.of_ok (Step.read_run _ p) (by rw [h.locks]; rfl) ?_
  -- What is left when the page turns out to be full.
  have hgive : ∀ q q', Alike q q' →
      Step.Agree (do Pool.releaseUnless (p.locks.holds tx id) tx id; pure none) q
        (do Pool.releaseUnless (p.locks.holds tx id) tx id; pure none) q' BothPut := by
    intro q q' hq
    refine Step.Agree.bind (hq.releaseUnless _ tx id) ?_ (fun e _ _ ht => ht.putFails e)
    intro _ t t' ht
    exact Step.Agree.of_run rfl rfl ht.putNothing
  refine Step.Agree.bind (h.fetch [] [] tx id .shared) ?_ (fun e _ _ hq => hq.1.putFails e)
  rintro page q q' ⟨hq, -⟩
  split
  · exact hgive q q' hq
  · refine Step.Agree.bind (hq.fetch [] [] tx id .exclusive) ?_ (fun e _ _ hq => hq.1.putFails e)
    rintro page q q' ⟨hq, hboth⟩
    have hboth := hboth page rfl
    split
    · rename_i place filled hput
      have hin := Page.inserted_of_insert hput
      obtain rfl : id = place.page := by
        rw [hin.page]
        exact (hq.faithful.keyed id page hboth.left).symm
      have hcopy : ∀ stored, Copy stored page → Copy stored (filled.mark (some tx)) := by
        intro stored hstored
        rw [hin.result]
        exact hstored.withSlot place.slot (fun fields hfields => Option.some.inj hfields ▸ hin.fit typed) tx
      obtain ⟨hafter, hthere⟩ := hq.withPage (f := fun _ => filled.mark (some tx)) hboth hcopy
      refine Step.Agree.of_run rfl rfl ⟨hafter, ?_⟩
      rintro place' ⟨⟩
      exact ⟨_, hthere⟩
    · exact hgive q q' hq
    · exact Step.Agree.of_run rfl rfl (hq.putFails _)

theorem Alike.insertIntoFirst {p p' : Pool} (h : Alike p p') (tx : TxId) {row : Row}
    (typed : row.Typed) (ids : List PageId) :
    Step.Agree (insertIntoFirst tx row ids) p (insertIntoFirst tx row ids) p' BothPut := by
  induction ids generalizing p p' with
  | nil => exact Step.Agree.of_run rfl rfl h.putNothing
  | cons id rest ih =>
    unfold Pool.insertIntoFirst
    refine Step.Agree.bind (h.tryInsertInto tx id typed) ?_ ?_
    · rintro (_ | place) q q' ⟨hq, hboth⟩
      · exact ih hq
      · exact Step.Agree.of_run rfl rfl ⟨hq, hboth⟩
    · exact fun e q q' hq => hq.1.putFails e

theorem Alike.insertAppending {p p' : Pool} (h : Alike p p') {file : TableFile} {table : TableId}
    (known : p.catalog.tableFile? table = some file) (tx : TxId) {row : Row} (typed : row.Typed)
    (attempts : Nat) (last : PageId) :
    Step.Agree (insertAppending file tx row attempts last) p
      (insertAppending file tx row attempts last) p' fun r q q' => BothPut (r.map some) q q' := by
  induction attempts generalizing p p' last with
  | zero => exact Step.Agree.of_run rfl rfl (h.putFails _)
  | succ attempts ih =>
    unfold Pool.insertAppending
    have hgrow : onStorage (Storage.onDisk file.appendEmpty) p' =
        (.ok ⟨file.table, file.numPages p.disk⟩, p'.withDisk (file.grown p'.disk)) := by
      rw [appendEmpty_run, h.disk]
    refine Step.Agree.of_ok (appendEmpty_run file p) hgrow ?_
    have hgrown := h.grown known
    have hstart : StillHolds p.locks tx (p.withDisk (file.grown p.disk)) := fun _ h => h
    generalize (⟨file.table, file.numPages p.disk⟩ : PageId) = id
    refine Step.Agree.bind ((hgrown.tryInsertInto tx id typed).and_ends
      (tryInsertInto_ends hstart id row)) ?_ ?_
    · rintro (_ | place) q q' ⟨⟨hq, hboth⟩, hmoves⟩
      · exact ih hq (Quiets.catalog hmoves ▸ known) id
      · exact Step.Agree.of_run rfl rfl ⟨hq, hboth⟩
    · exact fun e q q' hq => hq.1.1.putFails e

theorem Alike.insertInto {p p' : Pool} (h : Alike p p') {file : TableFile} {table : TableId}
    (known : p.catalog.tableFile? table = some file) (tx : TxId) {row : Row} (typed : row.Typed) :
    Step.Agree (insertInto file tx row) p (insertInto file tx row) p'
      fun r q q' => BothPut (r.map some) q q' := by
  unfold Pool.insertInto
  refine Step.Agree.check (fun _ => ?_) (fun _ => h.putFails _)
  refine Step.Agree.of_ok (Step.read_run _ p) (by rw [h.disk]; rfl) ?_
  refine Step.Agree.check (fun _ => ?_) (fun _ => h.putFails _)
  have hstart : StillHolds p.locks tx p := fun _ h => h
  refine Step.Agree.bind ((h.insertIntoFirst tx typed _).and_ends
    (insertIntoFirst_ends row (table_of_mem_pagesOf file p.disk) hstart)) ?_
    (fun e _ _ hq => hq.1.1.putFails e)
  rintro (_ | place) q q' ⟨⟨hq, hboth⟩, hmoves⟩
  · exact hq.insertAppending (Quiets.catalog hmoves ▸ known) tx typed _ _
  · exact Step.Agree.of_run rfl rfl ⟨hq, hboth⟩

/-- A change is noted on a page that both have in memory. -/
theorem Alike.noteChange {p p' : Pool} (h : Alike p p') {id : PageId} {page : Page}
    (hboth : InBoth p p' id page) (tx : TxId) :
    Step.Agree (noteChange tx id) p (noteChange tx id) p' fun _ q q' => Alike q q' := by
  obtain ⟨hmarked, -⟩ := h.withPage (f := fun page => page.mark (some tx)) hboth
    fun stored hcopy => hcopy.mark tx
  exact Step.Agree.of_run rfl rfl (hmarked.withUse id)

theorem Alike.tableFile {p p' : Pool} (h : Alike p p') (table : TableId) :
    Step.Agree (tableFile table) p (tableFile table) p' fun r q q' => Alike q q' ∧
      ∀ file, r = .ok file → q.catalog.tableFile? table = some file := by
  refine Step.Agree.of_run (r := p.catalog.tableFile table) rfl ?_ ⟨h, ?_⟩
  · rw [h.catalog]
    rfl
  · exact fun file hfile => Storage.tableFile?_of_tableFile hfile

theorem Alike.insert {p p' : Pool} (h : Alike p p') (tx : TxId) (table : TableId) {row : Row}
    (typed : row.Typed) :
    Step.Agree (insert tx table row) p (insert tx table row) p' fun _ q q' => Alike q q' := by
  unfold Pool.insert
  refine Step.Agree.bind (h.tableFile table) ?_ (fun _ _ _ h => h.1)
  rintro file q q' ⟨hq, hknown⟩
  refine Step.Agree.check (fun _ => ?_) (fun _ => hq)
  refine Step.Agree.bind (hq.insertInto (hknown file rfl) tx typed) ?_ (fun _ _ _ h => h.1)
  rintro place t t' ⟨ht, hboth⟩
  obtain ⟨page, hboth⟩ := hboth place rfl
  refine Step.Agree.bind (ht.noteChange hboth tx) ?_ (fun _ _ _ h => h)
  intro _ u u' hu
  exact Step.Agree.of_run rfl rfl hu

theorem Alike.deleteFrom {p p' : Pool} (h : Alike p p') (file : TableFile) (tx : TxId) (row : Row) :
    Step.Agree (deleteFrom file tx row) p (deleteFrom file tx row) p' fun r q q' => Alike q q' ∧
      ∀ id, r = .ok id → ∃ page, InBoth q q' id page := by
  have hfails : ∀ (e : Error) q q', Alike q q' → Alike q q' ∧
      ∀ id, (.error e : Except Error PageId) = .ok id → ∃ page, InBoth q q' id page :=
    fun e q q' hq => ⟨hq, fun id hid => nomatch hid⟩
  unfold Pool.deleteFrom
  refine Step.Agree.ofOption ?_ (fun _ => hfails _ p p' h)
  intro place hplace
  refine Step.Agree.check (fun _ => ?_) (fun _ => hfails _ p p' h)
  refine Step.Agree.bind (h.fetch [] [] tx place.page .exclusive) ?_ (fun e q q' hq => hfails e q q' hq.1)
  rintro page q q' ⟨hq, hboth⟩
  refine Step.Agree.ofExcept ?_ (fun e _ => hfails e q q' hq)
  intro emptied hdelete
  rw [hplace] at hdelete
  have hcopy : ∀ stored, Copy stored page → Copy stored (emptied.mark (some tx)) := by
    intro stored hstored
    rw [(Page.deleted_of_delete hdelete).result]
    exact hstored.withSlot place.slot (fun fields (hfields : none = some fields) => nomatch hfields) tx
  obtain ⟨hafter, hthere⟩ := hq.withPage (f := fun _ => emptied.mark (some tx)) (hboth page rfl) hcopy
  refine Step.Agree.of_run rfl rfl ⟨hafter, ?_⟩
  rintro id ⟨⟩
  exact ⟨_, hthere⟩

theorem Alike.delete {p p' : Pool} (h : Alike p p') (tx : TxId) (row : Row) :
    Step.Agree (delete tx row) p (delete tx row) p' fun _ q q' => Alike q q' := by
  unfold Pool.delete
  refine Step.Agree.ofOption ?_ (fun _ => h)
  intro place _
  refine Step.Agree.bind (h.tableFile place.page.table) ?_ (fun _ _ _ h => h.1)
  rintro file q q' ⟨hq, -⟩
  refine Step.Agree.check (fun _ => ?_) (fun _ => hq)
  refine Step.Agree.bind (hq.deleteFrom file tx row) ?_ (fun _ _ _ h => h.1)
  rintro id t t' ⟨ht, hboth⟩
  obtain ⟨page, hboth⟩ := hboth id rfl
  exact ht.noteChange hboth tx

/-! ## The order of visits -/

/-- Two changed pages may be written in either order. -/
theorem putPage_comm {p : Pool} (hp : Faithful p) {id id' : PageId} {page page' : Page}
    (hpage : p.page? id = some page) (hpage' : p.page? id' = some page') (d : Disk) :
    putPage p.catalog (putPage p.catalog d page) page' =
      putPage p.catalog (putPage p.catalog d page') page := by
  by_cases heq : id = id'
  · subst heq
    obtain rfl : page = page' := Option.some.inj (hpage.symm.trans hpage')
    rfl
  · obtain ⟨file, bs, h⟩ := hp.writes hpage
    obtain ⟨file', bs', h'⟩ := hp.writes hpage'
    rw [h.putPage, h'.putPage, h'.putPage, h.putPage]
    refine TableFile.placed_comm ?_ d
    -- In one file the two pages have different numbers, and so they do not overlap.
    intro hfile
    have htable : id.table = id'.table := hp.own.apart _ _ _ _ h.known h'.known hfile
    have hsame : file' = file := by
      have := h'.known
      rw [← htable, h.known] at this
      exact (Option.some.inj this).symm
    have hnumber : id.number ≠ id'.number := by
      intro hnumber
      apply heq
      cases id
      cases id'
      simp_all
    rw [h.length, h'.length, hsame, ← Nat.succ_mul, ← Nat.succ_mul]
    rcases Nat.lt_or_gt_of_ne hnumber with hlt | hgt
    · exact .inl (Nat.mul_le_mul_right _ hlt)
    · exact .inr (Nat.mul_le_mul_right _ hgt)

/-- The changed pages among those that are visited are the same, though maybe in another order. -/
theorem Alike.perm_dirty {p p' : Pool} (h : Alike p p') {visit visit' : List PageId}
    (nodup : visit.Nodup) (nodup' : visit'.Nodup)
    (hvisit : ∀ id, p.dirty? id ≠ none → (id ∈ visit ↔ id ∈ visit')) :
    (visit.filterMap p.dirty?).Perm (visit'.filterMap p'.dirty?) := by
  have hplace : ∀ id id' page, page ∈ p.dirty? id → page ∈ p.dirty? id' → id = id' := by
    intro id id' page hpage hpage'
    have hid := h.faithful.keyed id page (dirty?_eq_some.mp hpage).1
    exact hid.symm.trans (h.faithful.keyed id' page (dirty?_eq_some.mp hpage').1)
  have hsame : p'.dirty? = p.dirty? := funext fun id => (h.dirty?_eq id).symm
  rw [hsame, List.perm_ext_iff_of_nodup (nodup.filterMap hplace) (nodup'.filterMap hplace)]
  intro page
  rw [List.mem_filterMap, List.mem_filterMap]
  refine exists_congr fun id => and_congr_left fun hpage => hvisit id ?_
  simp [hpage]

theorem sameDirty_of_dirty? {p q : Pool} (h : ∀ id, p.dirty? id = q.dirty? id) : SameDirty p q := by
  intro id page tx hdirty
  rw [← dirty?_eq_some_of_mark hdirty, h, dirty?_eq_some_of_mark hdirty]

/-- Pools are alike after the same changed pages were written, in whatever order. -/
theorem Alike.written {p p' q q' : Pool} (h : Alike p p') {visit visit' : List PageId}
    (nodup : visit.Nodup) (nodup' : visit'.Nodup)
    (hvisit : ∀ id, p.dirty? id ≠ none → (id ∈ visit ↔ id ∈ visit'))
    (hq : Written visit p q) (hq' : Written visit' p' q') : Alike q q' where
  storage := by
    have hcomm : ∀ x ∈ visit.filterMap p.dirty?, ∀ y ∈ visit.filterMap p.dirty?, ∀ d,
        putPage p.catalog (putPage p.catalog d x) y = putPage p.catalog (putPage p.catalog d y) x := by
      intro x hx y hy d
      obtain ⟨id, -, hx⟩ := List.mem_filterMap.mp hx
      obtain ⟨id', -, hy⟩ := List.mem_filterMap.mp hy
      exact putPage_comm h.faithful (dirty?_eq_some.mp hx).1 (dirty?_eq_some.mp hy).1 d
    have hdisk := (h.perm_dirty nodup nodup' hvisit).foldl_eq' hcomm p.disk
    rw [hq.storage, hq'.storage, ← h.storage, ← h.catalog, ← h.disk, hdisk]
  locks := by rw [hq.locks, hq'.locks, h.locks]
  dirty := by
    apply sameDirty_of_dirty?
    intro id
    rw [hq.dirty?_eq h.faithful, hq'.dirty?_eq h.faithful', ← h.dirty?_eq]
    by_cases hd : p.dirty? id = none
    · rw [hd, ite_self, ite_self]
    · simp only [hvisit id hd]
  faithful := hq.faithful
  faithful' := hq'.faithful

theorem Alike.mem_dirtiedBy {p p' : Pool} (h : Alike p p') (tx : TxId) (id : PageId) :
    id ∈ p.dirtiedBy tx ↔ id ∈ p'.dirtiedBy tx := by
  rw [Pool.mem_dirtiedBy, Pool.mem_dirtiedBy]
  exact exists_congr fun page => and_congr_left fun hdirty => h.dirty id page tx hdirty

theorem mem_keys_of_dirty {p : Pool} {id : PageId} (h : p.dirty? id ≠ none) : id ∈ p.frames.keys := by
  obtain ⟨page, hpage⟩ := Option.ne_none_iff_exists'.mp h
  obtain ⟨frame, hframe, -⟩ := Option.map_eq_some_iff.mp (dirty?_eq_some.mp hpage).1
  exact Assoc.mem_keys.mpr (Option.isSome_of_eq_some hframe)

/-! ## Writing and going back -/

theorem Alike.flush {p p' : Pool} (h : Alike p p') (tx : TxId) :
    Step.Agree (flush tx) p (flush tx) p' fun _ q q' => Alike q q' := by
  obtain ⟨q, hq, hrun⟩ := flush_run tx h.faithful
  obtain ⟨q', hq', hrun'⟩ := flush_run tx h.faithful'
  exact Step.Agree.of_run hrun hrun' (h.written (nodup_dirtiedBy p tx) (nodup_dirtiedBy p' tx)
    (fun id _ => h.mem_dirtiedBy tx id) hq hq')

theorem Alike.flushAll {p p' : Pool} (h : Alike p p') :
    Step.Agree flushAll p flushAll p' fun _ q q' => Alike q q' := by
  obtain ⟨q, hq, hrun⟩ := flushAll_run h.faithful
  obtain ⟨q', hq', hrun'⟩ := flushAll_run h.faithful'
  refine Step.Agree.of_run hrun hrun' (h.written p.frames.nodup p'.frames.nodup ?_ hq hq')
  -- Every changed page is in memory, so it is visited in both pools.
  intro id hdirty
  exact iff_of_true (mem_keys_of_dirty hdirty) (mem_keys_of_dirty (h.dirty?_eq id ▸ hdirty))

theorem Alike.commit {p p' : Pool} (h : Alike p p') (tx : TxId) :
    Step.Agree (complete tx .commit) p (complete tx .commit) p' fun _ q q' => Alike q q' := by
  obtain ⟨q, hq, hrun⟩ := commit_run tx h.faithful
  obtain ⟨q', hq', hrun'⟩ := commit_run tx h.faithful'
  have hafter : Alike q q' := h.written (nodup_dirtiedBy p tx) (nodup_dirtiedBy p' tx)
    (fun id _ => h.mem_dirtiedBy tx id) hq hq'
  refine Step.Agree.of_run hrun hrun' ?_
  rw [← hafter.locks]
  exact hafter.withLocks _

theorem Alike.abort {p p' : Pool} (h : Alike p p') (tx : TxId) :
    Step.Agree (complete tx .abort) p (complete tx .abort) p' fun _ q q' => Alike q q' := by
  obtain ⟨q, hq, hrun⟩ := abort_run tx h.faithful
  obtain ⟨q', hq', hrun'⟩ := abort_run tx h.faithful'
  have hdirty : SameDirty q q' := by
    apply sameDirty_of_dirty?
    intro id
    rw [hq.dirty?_eq h.faithful, hq'.dirty?_eq h.faithful', ← h.dirty?_eq]
    simp only [h.mem_dirtiedBy tx id]
  have hafter : Alike q q' :=
    ⟨by rw [hq.storage, hq'.storage, h.storage], by rw [hq.locks, hq'.locks, h.locks], hdirty,
      hq.faithful, hq'.faithful⟩
  refine Step.Agree.of_run hrun hrun' ?_
  rw [← hafter.locks]
  exact hafter.withLocks _

/-! ## Pages that are dropped -/

theorem faithful_discard {p : Pool} (hp : Faithful p) (id : PageId) :
    Faithful (Pool.discard id p).2 := by
  have hstorage := storage_discard p id
  refine hp.of_pages (hstorage ▸ hp.own) fun other page hpage => .inl ?_
  rw [page?_discard] at hpage
  rw [hstorage]
  split at hpage
  · cases hpage
  · exact ⟨hpage, fun _ hstored => hstored⟩

theorem Alike.discard {p p' : Pool} (h : Alike p p') (id : PageId) :
    Step.Agree (discard id) p (discard id) p' fun _ q q' => Alike q q' := by
  refine Step.Agree.of_run rfl rfl ⟨?_, ?_, ?_, faithful_discard h.faithful id,
    faithful_discard h.faithful' id⟩
  · exact (storage_discard p id).trans (h.storage.trans (storage_discard p' id).symm)
  · exact (locks_discard p id).trans (h.locks.trans (locks_discard p' id).symm)
  · intro other page tx hdirty
    change (Pool.discard id p).2.page? other = some page ↔ (Pool.discard id p').2.page? other = some page
    rw [page?_discard, page?_discard]
    split
    · exact Iff.rfl
    · exact h.dirty other page tx hdirty

end PageStore.Pool
