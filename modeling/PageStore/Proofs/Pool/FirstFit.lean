-- Where a row goes. The pages of a table are tried from the first to the last, and the first
-- one with a free slot takes the row. If all of them are full the file grows by one page,
-- which takes the row or lets the insert fail, so that it never grows by another. A page
-- that was tried and is full has left no trace, not even a lock.
import PageStore.Proofs.Pool.Ended

namespace PageStore

/-! ## Full pages -/

theorem Row.encodeFields_error {fields : List Field} {e : Error} (h : encodeFields fields = .error e) :
    ∃ bytes, e = .invalidRow (.stringTooLong bytes) := by
  induction fields with
  | nil => cases h
  | cons f rest ih =>
    unfold encodeFields at h
    split at h
    · cases h
      exact ⟨_, rfl⟩
    · cases hrest : encodeFields rest with
      | ok bs => simp [hrest, Except.map] at h
      | error e' =>
        apply ih
        simpa [hrest, Except.map] using h

namespace Page

theorem numFree_eq_zero {p : Page} : p.numFree = 0 ↔ p.firstFree? = none := by
  rw [numFree, firstFree?, List.countP_eq_zero, List.findIdx?_eq_none_iff]
  simp [Option.isSome_iff_ne_none]

/-- A page refuses a row for lack of room only if it has none. -/
theorem full_of_insert {p : Page} {row : Row} {id : PageId} (h : p.insert row = .error (.pageFull id)) :
    p.numFree = 0 := by
  unfold insert at h
  split at h
  · split at h
    · rename_i hfree
      exact numFree_eq_zero.mpr hfree
    · split at h
      · rename_i e hencode
        obtain ⟨bytes, rfl⟩ := Row.encodeFields_error hencode
        cases h
      · cases h
  · cases h

/-- In a full page there is a row in each slot. -/
theorem fieldsAt_of_full {p : Page} (h : p.numFree = 0) {slot : Nat} (hslot : slot < p.slots.length) :
    p.fieldsAt slot ≠ none := by
  rw [numFree, List.countP_eq_zero] at h
  have htaken := h _ (List.getElem_mem hslot)
  rw [fieldsAt, List.getElem?_eq_getElem hslot]
  cases hvalue : p.slots[slot] with
  | none => simp [hvalue] at htaken
  | some fields => simp

/-- All slots in front of the one that takes a row have rows. -/
theorem Inserted.front {p q : Page} {r : Row} {place : RecordId} (h : Inserted p r place q) {slot : Nat}
    (hslot : slot < place.slot) : p.fieldsAt slot ≠ none := by
  have hfree := h.free
  rw [firstFree?, List.findIdx?_eq_some_iff_getElem] at hfree
  obtain ⟨hlt, -, hfront⟩ := hfree
  have htaken := hfront slot hslot
  rw [fieldsAt, List.getElem?_eq_getElem (by omega)]
  cases hvalue : p.slots[slot] with
  | none => simp [hvalue] at htaken
  | some fields => simp

end Page

/-! ## Locks -/

namespace LockTable

theorem mode?_of_granted {t : LockTable} (h : t.WellKept) {tx : TxId} {id : PageId} {mode : LockMode}
    (granted : (t.tryGrant tx id mode).1 = true) : (t.tryGrant tx id mode).2.mode? =
      Modes.set t.mode? tx id (some (Modes.greater (t.mode? tx id) mode)) := by
  rw [(tryGrant_spec h ⟨tx, id, mode⟩).2.1, if_pos granted]
  rfl

/-- Who holds a page in some way already may read it. -/
theorem tryGrant_of_holds {t : LockTable} {tx : TxId} {id : PageId} (h : t.holds tx id = true) :
    t.tryGrant tx id .shared = (true, t) := by
  obtain ⟨mode, hmode⟩ := Option.isSome_iff_exists.mp h
  rw [tryGrant, if_pos]
  rw [hmode]
  cases mode <;> rfl

end LockTable

namespace Pool

open LockTable

/-! ## What is not to be seen -/

/-- The files are the same, and so is all that is to be seen of them. Clean pages may have come and gone,
and locks may differ. -/
structure LooksSame (p q : Pool) : Prop where
  storage : q.storage = p.storage
  dirty : SameDirty p q
  before : Faithful p
  after : Faithful q

theorem LooksSame.refl {p : Pool} (h : Faithful p) : LooksSame p p := ⟨rfl, .refl p, h, h⟩

theorem LooksSame.trans {p m q : Pool} (h : LooksSame p m) (h' : LooksSame m q) : LooksSame p q :=
  ⟨h'.storage.trans h.storage, h.dirty.trans h'.dirty, h.before, h'.after⟩

theorem LooksSame.of_looks {tx : TxId} {p q : Pool} (h : Looks tx p q) (hp : Faithful p) : LooksSame p q :=
  ⟨Looks.catalog h, Looks.sameDirty h, hp, Looks.faithful h hp⟩

theorem LooksSame.withLocks {p q : Pool} (h : LooksSame p q) (locks : LockTable) :
    LooksSame p (q.withLocks locks) := ⟨h.storage, h.dirty, h.before, h.after.withLocks locks⟩

theorem LooksSame.seen {p q : Pool} (h : LooksSame p q) (id : PageId) : q.seen id = p.seen id := by
  have halike : Alike q (p.withLocks q.locks) :=
    ⟨h.storage, rfl, h.dirty.symm, h.after, h.before.withLocks _⟩
  exact halike.seen id

theorem LooksSame.rowAt? {p q : Pool} (h : LooksSame p q) (place : RecordId) :
    q.rowAt? place = p.rowAt? place := rowAt?_congr (h.seen place.page)

theorem LooksSame.known {p q : Pool} (h : LooksSame p q) {table : TableId} {file : TableFile}
    (known : p.catalog.tableFile? table = some file) : q.catalog.tableFile? table = some file := by
  rw [catalog, h.storage]
  exact known

theorem LooksSame.numPages {p q : Pool} (h : LooksSame p q) (file : TableFile) :
    file.numPages q.disk = file.numPages p.disk := by
  rw [disk, disk, h.storage]

/-- Nothing is to be seen, and all locks are as before. -/
structure Traceless (p q : Pool) : Prop extends LooksSame p q where
  modes : q.locks.mode? = p.locks.mode?
  wellKept : q.locks.WellKept

theorem Traceless.refl {p : Pool} (h : Sure p) : Traceless p p := ⟨.refl h.faithful, rfl, h.locks⟩

theorem Traceless.trans {p m q : Pool} (h : Traceless p m) (h' : Traceless m q) : Traceless p q :=
  ⟨h.toLooksSame.trans h'.toLooksSame, h'.modes.trans h.modes, h'.wellKept⟩

theorem Traceless.sure {p q : Pool} (h : Traceless p q) : Sure q := ⟨h.after, h.wellKept⟩

/-! ## Getting a page -/

theorem Fetched.locks {busy : List PageId} {tx : TxId} {id : PageId} {mode : LockMode} {p q : Pool}
    {r : Except Error Page} (h : Fetched busy tx id mode p r q) :
    q.locks = (p.locks.tryGrant tx id mode).2 := by
  cases h <;> rfl

/-- What is got is what was to be seen, and it is in memory and locked. -/
theorem Fetched.got {busy : List PageId} {tx : TxId} {id : PageId} {mode : LockMode} {p q : Pool}
    {page : Page} (h : Fetched busy tx id mode p (.ok page) q) :
    (p.locks.tryGrant tx id mode).1 = true ∧ p.seen id = .ok page ∧ q.page? id = some page := by
  cases h with
  | hit _ granted there => exact ⟨granted, seen_of_page there, there⟩
  | loaded _ granted absent stored =>
    refine ⟨granted, (seen_of_absent absent).trans stored, ?_⟩
    rw [page?_withUse, page?_withFrame, if_pos rfl]
  | replaced _ victim granted absent stored =>
    refine ⟨granted, (seen_of_absent absent).trans stored, ?_⟩
    rw [page?_withUse, page?_withFrame, if_pos rfl]

theorem fetch_comes {p : Pool} (hp : Faithful p) (tx : TxId) (id : PageId) (mode : LockMode) :
    (fetch tx id mode).Ends p fun r q => LooksSame p q ∧ Fetched [] tx id mode p r q :=
  ⟨.of_looks (fetchBeside_ends [] tx id mode p).1 hp, fetchBeside_fetched [] tx id mode p⟩

/-! ## Trying a page -/

/-- A page that is to be seen and has no free slot. -/
def Full (p : Pool) (id : PageId) : Prop := ∃ page, p.seen id = .ok page ∧ page.numFree = 0

theorem Full.congr {p q : Pool} (h : LooksSame p q) {id : PageId} (hfull : Full q id) : Full p id := by
  obtain ⟨page, hseen, hpage⟩ := hfull
  exact ⟨page, h.seen id ▸ hseen, hpage⟩

/-- `tx` came to a page, has locked it to change it, and has put the row into it. Its other locks are as
before. -/
structure Takes (tx : TxId) (id : PageId) (row : Row) (place : RecordId) (p q : Pool) (page : Page)
    (m : Pool) : Prop where
  came : LooksSame p m
  there : m.page? id = some page
  modes : m.locks.mode? = Modes.set p.locks.mode? tx id (some .exclusive)
  inserted : Page.Inserted page row place (page.withSlot place.slot (some row.fields))
  result : q = m.changed tx id (page.withSlot place.slot (some row.fields))

/-- What comes of trying a page. -/
def Tries (tx : TxId) (id : PageId) (row : Row) (p : Pool) : Except Error (Option RecordId) → Pool → Prop
  | .error _, q => LooksSame p q
  | .ok none, q => Traceless p q ∧ Full p id
  | .ok (some place), q => ∃ page m, Takes tx id row place p q page m

/-- A lock that was taken to read a page is given back, and one that was there before stays. -/
theorem traceless_of_full {tx : TxId} {id : PageId} {p q : Pool} (hp : Sure p) (h : LooksSame p q)
    (locks : q.locks = (p.locks.tryGrant tx id .shared).2)
    (granted : (p.locks.tryGrant tx id .shared).1 = true) :
    (releaseUnless (p.locks.holds tx id) tx id).Ends q fun _ t => Traceless p t := by
  unfold releaseUnless
  cases hheld : p.locks.holds tx id with
  | true =>
    have hlocks : q.locks = p.locks := by rw [locks, tryGrant_of_holds hheld]
    have htrace : Traceless p q := ⟨h, congrArg mode? hlocks, hlocks ▸ hp.locks⟩
    exact htrace
  | false =>
    have hnone : p.locks.mode? tx id = none := by
      rw [LockTable.holds] at hheld
      exact Option.not_isSome_iff_eq_none.mp (Bool.eq_false_iff.mp hheld)
    have hwell : q.locks.WellKept := by
      rw [locks]
      exact (tryGrant_spec hp.locks ⟨tx, id, .shared⟩).2.2
    have hmodes : (q.locks.release tx id).2.mode? = p.locks.mode? := by
      rw [mode?_release, locks, mode?_of_granted hp.locks granted, Modes.set_set, ← hnone,
        Modes.set_same]
    have htrace : Traceless p (q.withLocks (q.locks.release tx id).2) :=
      ⟨h.withLocks _, hmodes, wellKept_release hwell tx id⟩
    exact htrace

theorem tryInsertInto_tries {p : Pool} (hp : Sure p) (tx : TxId) (id : PageId) (row : Row) :
    (tryInsertInto tx id row).Ends p (Tries tx id row p) := by
  unfold tryInsertInto
  refine Step.Ends.of_ok (Step.read_run _ p) ?_
  refine Step.Ends.bind (fetch_comes hp.faithful tx id .shared) ?_ (fun e q h => h.1)
  rintro page q ⟨hq, hfetched⟩
  obtain ⟨hgranted, hseen, hthere⟩ := hfetched.got
  split
  · rename_i hfull
    refine Step.Ends.bind (traceless_of_full hp hq hfetched.locks hgranted) ?_
      (fun e t ht => ht.toLooksSame)
    exact fun _ t ht => ⟨ht, page, hseen, hfull⟩
  · rename_i hroom
    refine Step.Ends.bind (fetch_comes hq.after tx id .exclusive) ?_ (fun e m hm => hq.trans hm.1)
    rintro page' m ⟨hm, hfetched'⟩
    obtain ⟨hgranted', hseen', hthere'⟩ := hfetched'.got
    -- the page that was looked at is the page that is changed
    obtain rfl : page = page' := by
      rw [seen_of_page hthere] at hseen'
      exact Except.ok.inj hseen'
    have hmodes : m.locks.mode? = Modes.set p.locks.mode? tx id (some .exclusive) := by
      have hwell : q.locks.WellKept := by
        rw [hfetched.locks]
        exact (tryGrant_spec hp.locks ⟨tx, id, .shared⟩).2.2
      have hgreater : ∀ held, Modes.greater held .exclusive = .exclusive := by
        rintro (_ | _ | _) <;> rfl
      rw [hfetched'.locks, mode?_of_granted hwell hgranted', hgreater, hfetched.locks,
        mode?_of_granted hp.locks hgranted, Modes.set_set]
    split
    · rename_i place filled hput
      have hin := Page.inserted_of_insert hput
      refine ⟨page, m, hq.trans hm, hthere', hmodes, hin.result ▸ hin, ?_⟩
      rw [← hin.result]
      rfl
    · rename_i other hput
      exact absurd (Page.full_of_insert hput) hroom
    · exact hq.trans hm

/-! ## Trying one page after the other -/

/-- What comes of trying pages in order. -/
def TriesAll (tx : TxId) (ids : List PageId) (row : Row) (p : Pool) :
    Except Error (Option RecordId) → Pool → Prop
  | .error _, q => LooksSame p q
  | .ok none, q => Traceless p q ∧ ∀ id ∈ ids, Full p id
  | .ok (some place), q => ∃ i id page m, ids[i]? = some id ∧ (∀ other ∈ ids.take i, Full p other) ∧
      Takes tx id row place p q page m

theorem Takes.after {tx : TxId} {id : PageId} {row : Row} {place : RecordId} {p t q m : Pool} {page : Page}
    (h : Takes tx id row place t q page m) (ht : Traceless p t) : Takes tx id row place p q page m :=
  ⟨ht.toLooksSame.trans h.came, h.there, ht.modes ▸ h.modes, h.inserted, h.result⟩

theorem insertIntoFirst_tries (tx : TxId) (ids : List PageId) (row : Row) {p : Pool} (hp : Sure p) :
    (insertIntoFirst tx row ids).Ends p (TriesAll tx ids row p) := by
  induction ids generalizing p with
  | nil => exact ⟨.refl hp, fun id hid => absurd hid List.not_mem_nil⟩
  | cons id rest ih =>
    unfold insertIntoFirst
    refine Step.Ends.bind (tryInsertInto_tries hp tx id row) ?_ (fun e q h => h)
    rintro (_ | place) q h
    · obtain ⟨htrace, hfull⟩ := h
      refine (ih htrace.sure).mono ?_
      rintro (e | _ | place) t ht
      · exact htrace.toLooksSame.trans ht
      · refine ⟨htrace.trans ht.1, ?_⟩
        rw [List.forall_mem_cons]
        exact ⟨hfull, fun other hother => (ht.2 other hother).congr htrace.toLooksSame⟩
      · obtain ⟨i, id', page, m, hi, hfront, htakes⟩ := ht
        refine ⟨i + 1, id', page, m, hi, ?_, htakes.after htrace⟩
        rw [List.take_succ_cons, List.forall_mem_cons]
        exact ⟨hfull, fun other hother => (hfront other hother).congr htrace.toLooksSame⟩
    · obtain ⟨page, m, htakes⟩ := h
      exact ⟨0, id, page, m, rfl, by simp, htakes⟩

/-! ## A new page -/

/-- The pool after the file of a table has grown by a page. -/
def withGrown (p : Pool) (file : TableFile) : Pool := p.withDisk (file.grown p.disk)

section Grown

variable {p : Pool} {table : TableId} {file : TableFile} (known : p.catalog.tableFile? table = some file)

include known

theorem Faithful.withGrown (hp : Faithful p) : Faithful (p.withGrown file) :=
  Quiet.faithful (.grow p table file known : Quiet p.locks 0 p _) hp

theorem LooksSame.withGrown {q : Pool} (h : LooksSame p q) :
    LooksSame (p.withGrown file) (q.withGrown file) := by
  refine ⟨?_, h.dirty, h.before.withGrown known, h.after.withGrown (h.known known)⟩
  rw [Pool.withGrown, Pool.withGrown, storage_withDisk, storage_withDisk, h.storage, disk, disk, h.storage]

theorem Traceless.withGrown {q : Pool} (h : Traceless p q) :
    Traceless (p.withGrown file) (q.withGrown file) :=
  ⟨h.toLooksSame.withGrown known, h.modes, h.wellKept⟩

/-- Behind the pages of a file nothing is in memory. -/
theorem page?_behind (hp : Faithful p) (hpos : 0 < file.pageSize) :
    p.page? ⟨table, file.numPages p.disk⟩ = none := by
  cases hpage : p.page? ⟨table, file.numPages p.disk⟩ with
  | none => rfl
  | some page =>
    obtain ⟨stored, hstored, -⟩ := hp.pages _ page hpage
    obtain ⟨file', bs, hs⟩ := Storage.stored_of_readPage hstored
    obtain rfl : file = file' := Option.some.inj (known.symm.trans hs.known)
    exact absurd (hs.number_lt hpos) (Nat.lt_irrefl _)

/-- The new page is clean and all its slots are free. -/
theorem seen_new (hp : Faithful p) (hpos : 0 < file.pageSize) :
    ∃ page, (p.withGrown file).seen ⟨table, file.numPages p.disk⟩ = .ok page ∧
      page.dirtiedBy = none ∧ ∀ slot, page.fieldsAt slot = none := by
  obtain ⟨page, hread, hfree⟩ := Storage.readPage_grown_new hp.own known
  refine ⟨page, ?_, Storage.clean_of_readPage hread, hfree⟩
  have habsent : (p.withGrown file).page? ⟨table, file.numPages p.disk⟩ = none :=
    page?_behind known hp hpos
  rw [Pool.seen, habsent]
  exact hread

theorem seen_withGrown (hp : Faithful p) {id : PageId} (hid : id ≠ ⟨table, file.numPages p.disk⟩) :
    (p.withGrown file).seen id = p.seen id := by
  have hread := Storage.readPage_placed hp.own known (Storage.end_in_file file p.storage.disk)
    (Bytes.length_zeros file.pageSize) id
  rw [disk] at hid
  rw [if_neg hid] at hread
  have hsame : (p.withGrown file).page? id = p.page? id := rfl
  rw [Pool.seen, Pool.seen, hsame]
  cases p.page? id with
  | some page => rfl
  | none => exact hread

end Grown

/-- Where a page has slots it has bytes. -/
theorem pageSize_pos_of_slots {file : TableFile} (h : file.layout.slots ≠ 0) : 0 < file.pageSize := by
  have hroom := Page.layout_fits file.pageSize file.schema.byteSize
  have hbits := Page.slots_le_headerLength file.layout
  change file.layout.headerLength + _ ≤ _ at hroom
  omega

/-! ## Putting a row into a file -/

section Lands

variable {p : Pool} {table : TableId} {file : TableFile}

theorem not_full_new (hp : Faithful p) (known : p.catalog.tableFile? table = some file)
    (hslots : file.layout.slots ≠ 0) : ¬ Full (p.withGrown file) ⟨table, file.numPages p.disk⟩ := by
  rintro ⟨page, hseen, hfull⟩
  obtain ⟨page', hseen', -, hfree⟩ := seen_new known hp (pageSize_pos_of_slots hslots)
  obtain rfl : page = page' := Except.ok.inj (hseen.symm.trans hseen')
  have hin : InFile file (p.withGrown file).disk ⟨table, file.numPages p.disk⟩ page :=
    inFile_of_seen (hp.withGrown known) known hseen
  have hcount := hin.slots
  exact Page.fieldsAt_of_full hfull (by omega : 0 < page.slots.length) (hfree 0)

/-- One new page is enough: it takes the row, or the insert fails. -/
theorem insertAppending_takes (hp : Sure p) (known : p.catalog.tableFile? table = some file)
    (hslots : file.layout.slots ≠ 0) (tx : TxId) (row : Row) (attempts : Nat) (last : PageId) :
    (insertAppending file tx row (attempts + 1) last).Ends p fun r q => match r with
      | .error _ => LooksSame (p.withGrown file) q
      | .ok place => ∃ page m,
          Takes tx ⟨table, file.numPages p.disk⟩ row place (p.withGrown file) q page m := by
  unfold insertAppending
  have hgrown : Sure (p.withGrown file) := ⟨hp.faithful.withGrown known, hp.locks⟩
  refine Step.Ends.of_ok (appendEmpty_run file p) ?_
  rw [hp.faithful.own.keyed table file known]
  refine Step.Ends.bind (tryInsertInto_tries hgrown tx _ row) ?_ (fun e q h => h)
  rintro (_ | place) q h
  · exact absurd h.2 (not_full_new hp.faithful known hslots)
  · exact h

/-- The page on which a row is to go, and the pool in which that page is: the first page that is not full,
or a new one. -/
inductive FirstRoom (table : TableId) (file : TableFile) (p : Pool) : Nat → Pool → Prop where
  | old (n : Nat) (inFile : n < file.numPages p.disk) (front : ∀ k < n, Full p ⟨table, k⟩) :
      FirstRoom table file p n p
  | new (slots : file.layout.slots ≠ 0) (front : ∀ k < file.numPages p.disk, Full p ⟨table, k⟩) :
      FirstRoom table file p (file.numPages p.disk) (p.withGrown file)

/-- What comes of putting a row into a file. -/
def Lands (tx : TxId) (table : TableId) (file : TableFile) (row : Row) (p : Pool) :
    Except Error RecordId → Pool → Prop
  | .error _, q => LooksSame p q ∨ file.layout.slots ≠ 0 ∧ LooksSame (p.withGrown file) q
  | .ok place, q => ∃ n base page m, FirstRoom table file p n base ∧
      Takes tx ⟨table, n⟩ row place base q page m

theorem getElem?_pagesOf (file : TableFile) (d : Disk) {i : Nat} {id : PageId}
    (h : (pagesOf file d)[i]? = some id) : i < file.numPages d ∧ id = ⟨file.table, i⟩ := by
  rw [pagesOf, List.getElem?_map, Option.map_eq_some_iff] at h
  obtain ⟨number, hnumber, rfl⟩ := h
  obtain ⟨hlt, rfl⟩ := List.getElem?_eq_some_iff.mp hnumber
  exact ⟨by simpa using hlt, by simp⟩

theorem mem_pagesOf (file : TableFile) (d : Disk) {k : Nat} (h : k < file.numPages d) :
    ⟨file.table, k⟩ ∈ pagesOf file d :=
  List.mem_map.mpr ⟨k, List.mem_range.mpr h, rfl⟩

theorem mem_take_pagesOf (file : TableFile) (d : Disk) {k n : Nat} (hk : k < n) (hn : n < file.numPages d) :
    ⟨file.table, k⟩ ∈ (pagesOf file d).take n := by
  rw [pagesOf, ← List.map_take, List.take_range, List.mem_map]
  exact ⟨k, List.mem_range.mpr (by omega), rfl⟩

theorem insertInto_lands (hp : Sure p) (known : p.catalog.tableFile? table = some file) (tx : TxId)
    (row : Row) : (insertInto file tx row).Ends p (Lands tx table file row p) := by
  have htable := hp.faithful.own.keyed table file known
  unfold insertInto
  refine Step.Ends.check (fun _ => ?_) (fun _ => .inl (.refl hp.faithful))
  refine Step.Ends.of_ok (Step.read_run _ p) ?_
  refine Step.Ends.check (fun hslots => ?_) (fun _ => .inl (.refl hp.faithful))
  have hslots : file.layout.slots ≠ 0 := of_decide_eq_true hslots
  refine Step.Ends.bind (insertIntoFirst_tries tx (pagesOf file p.disk) row hp) ?_ (fun e q h => .inl h)
  rintro (_ | place) q h
  · obtain ⟨htrace, hfull⟩ := h
    refine (insertAppending_takes htrace.sure (htrace.known known) hslots tx row 15 _).mono ?_
    rintro (e | place) t ht
    · exact .inr ⟨hslots, (htrace.toLooksSame.withGrown known).trans ht⟩
    · obtain ⟨page, m, htakes⟩ := ht
      rw [htrace.numPages] at htakes
      refine ⟨_, _, page, m, .new hslots fun k hk => ?_, htakes.after (htrace.withGrown known)⟩
      exact htable ▸ hfull _ (mem_pagesOf file p.disk hk)
  · obtain ⟨n, id, page, m, hn, hfront, htakes⟩ := h
    obtain ⟨hlt, rfl⟩ := getElem?_pagesOf file p.disk hn
    rw [htable] at htakes
    refine ⟨n, p, page, m, .old n hlt fun k hk => ?_, htakes⟩
    exact htable ▸ hfront _ (mem_take_pagesOf file p.disk hk hlt)

end Lands

end Pool

end PageStore
