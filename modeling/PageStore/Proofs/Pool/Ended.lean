-- The whole effect of the end of a transaction, on a pool whose files nobody else writes.
-- It never fails; it settles the pages that the transaction changed, each at its own
-- place, and touches no other page, in memory or in a file, and nobody else's lock. The
-- order in which the pages are visited is not to be seen afterwards.
import PageStore.Proofs.Pool.Calls
import PageStore.Proofs.Pool.Steady
import PageStore.Proofs.Pool.TwoPhase

namespace PageStore.Pool

/-! ## Pages at their places -/

/-- The same pages are in memory, in the same order, read in and last used when they were. -/
structure InPlace (p q : Pool) : Prop where
  config : q.config = p.config
  keys : q.frames.keys = p.frames.keys
  load : ∀ id, (q.frames.get? id).map Frame.load = (p.frames.get? id).map Frame.load
  loads : q.loads = p.loads
  recency : q.recency = p.recency

theorem InPlace.refl (p : Pool) : InPlace p p := ⟨rfl, rfl, fun _ => rfl, rfl, rfl⟩

theorem InPlace.trans {p m q : Pool} (h : InPlace p m) (h' : InPlace m q) : InPlace p q :=
  ⟨h'.config.trans h.config, h'.keys.trans h.keys, fun id => (h'.load id).trans (h.load id),
    h'.loads.trans h.loads, h'.recency.trans h.recency⟩

theorem setPage_inPlace (id : PageId) (f : Page → Page) (p : Pool) :
    (setPage id f).Ends p fun _ q => InPlace p q := by
  refine ⟨rfl, Assoc.keys_modify .., fun other => ?_, rfl, rfl⟩
  change ((p.frames.modify id _).get? other).map Frame.load = _
  rw [Assoc.get?_modify]
  split
  · cases p.frames.get? other <;> rfl
  · rfl

theorem writeBack_inPlace (id : PageId) (p : Pool) : (writeBack id).Ends p fun _ q => InPlace p q := by
  have hwrite : ∀ page, (onStorage (Storage.writePage page)).Ends p fun _ q => InPlace p q :=
    fun _ => ⟨rfl, rfl, fun _ => rfl, rfl, rfl⟩
  unfold writeBack
  refine Step.Ends.of_ok (Step.state_run p) ?_
  split
  · exact .refl p
  · rename_i page _
    split
    · exact .refl p
    · refine Step.Ends.bind (hwrite page) ?_ (fun _ _ h => h)
      intro _ q hq
      refine Step.Ends.ofExcept ?_ (fun _ _ => hq)
      exact fun clean _ => hq.trans (setPage_inPlace id _ q)

theorem revertPage_inPlace (tx : TxId) (id : PageId) (p : Pool) :
    (revertPage tx id).Ends p fun _ q => InPlace p q := by
  unfold revertPage
  refine Step.Ends.of_ok (Step.state_run p) ?_
  split
  · exact .refl p
  · split
    · exact .refl p
    · exact Step.Ends.ofExcept (fun stored _ => setPage_inPlace id _ p) (fun _ _ => .refl p)

/-- However many pages are visited, and whatever comes of it, all pages stay at their places. -/
theorem completeVisiting_inPlace (visit : List PageId) (tx : TxId) (outcome : Outcome) (p : Pool) :
    InPlace p (completeVisiting visit tx outcome p).2 := by
  have heach : ∀ one : PageId → Step Pool Unit,
      (∀ id p, (one id).Ends p fun _ q => InPlace p q) →
      Step.Ends (do let _ ← Step.each one visit; pure ()) p fun _ q => InPlace p q := by
    intro one hone
    refine Step.Ends.bind (Step.Ends.each (I := InPlace p) ?_ (.refl p)) (fun _ _ h => h) (fun _ _ h => h)
    exact fun id _ q hq => (hone id q).mono fun _ _ h => hq.trans h
  have hend : ∀ (r : Except Error Unit) q, InPlace p q →
      Step.Ends (do releaseAll tx; Step.ofExcept r) q fun _ q => InPlace p q :=
    fun _ _ hq => hq.trans ⟨rfl, rfl, fun _ => rfl, rfl, rfl⟩
  change (completeVisiting visit tx outcome).Ends p fun _ q => InPlace p q
  unfold completeVisiting
  cases outcome with
  | commit => exact Step.Ends.bind_attempt (heach writeBack writeBack_inPlace) hend
  | abort => exact Step.Ends.bind_attempt (heach (revertPage tx) (revertPage_inPlace tx)) hend

/-- Two pools are the same if their pages stand at the same places as those of a third one, and nothing
that may differ from it differs between them. -/
theorem InPlace.unique {p q q' : Pool} (h : InPlace p q) (h' : InPlace p q') (storage : q.storage = q'.storage)
    (pages : ∀ id, q.page? id = q'.page? id) (locks : q.locks = q'.locks) : q = q' := by
  have hframes : q.frames = q'.frames := by
    refine Assoc.ext_keys (h.keys.trans h'.keys.symm) fun id => ?_
    have hload := (h.load id).trans (h'.load id).symm
    have hpage : (q.frames.get? id).map Frame.page = (q'.frames.get? id).map Frame.page := pages id
    rcases hq : q.frames.get? id with _ | ⟨page, load⟩ <;>
      rcases hq' : q'.frames.get? id with _ | ⟨page', load'⟩ <;>
      simp_all
  have hconfig := h.config.trans h'.config.symm
  have hloads := h.loads.trans h'.loads.symm
  have hrecency := h.recency.trans h'.recency.symm
  cases q
  cases q'
  simp only at hconfig hframes hloads hrecency storage locks
  rw [hconfig, hframes, hloads, hrecency, storage, locks]

/-! ## Files beside those of pages -/

/-- What a page that is written leaves of the files: all names, and every file that is no table's. -/
structure Beside (c : Catalog) (d d' : Disk) : Prop where
  names : d'.names = d.names
  content : ∀ n, (∀ table file, c.tableFile? table = some file → file.file ≠ n) → d'.content n = d.content n

theorem beside_putPage (c : Catalog) (d : Disk) (page : Page) : Beside c d (putPage c d page) := by
  unfold putPage
  split
  · rename_i file bs known _
    exact ⟨rfl, fun n hn => Disk.content_setContent_ne d (hn _ file known) _⟩
  · exact ⟨rfl, fun _ _ => rfl⟩

theorem beside_putPages (c : Catalog) (d : Disk) (pages : List Page) :
    Beside c d (pages.foldl (putPage c) d) := by
  induction pages generalizing d with
  | nil => exact ⟨rfl, fun _ _ => rfl⟩
  | cons page rest ih =>
    have hfirst := beside_putPage c d page
    have hrest := ih (putPage c d page)
    exact ⟨hrest.names.trans hfirst.names, fun n hn => (hrest.content n hn).trans (hfirst.content n hn)⟩

/-! ## The end of a transaction -/

/-- What there is after the end of a transaction. -/
structure Ended (tx : TxId) (outcome : Outcome) (p q : Pool) : Prop where
  /-- A page that is committed is clean, holds what it held, and its bytes are in its file. -/
  committed : outcome = .commit → ∀ id page, p.page? id = some page → page.dirtiedBy = some tx →
    ∃ bs, page.data = .ok bs ∧ q.storage.bytesAt? id = some bs ∧
      q.page? id = some { page with dirtiedBy := none, beforeImage := bs }
  /-- A page that is given up is clean, and is what its bytes in its file say; no file changes. -/
  givenUp : outcome = .abort → q.disk = p.disk ∧
    ∀ id page, p.page? id = some page → page.dirtiedBy = some tx →
      ∃ file bs stored, p.catalog.tableFile? id.table = some file ∧ p.storage.bytesAt? id = some bs ∧
        Page.ofBytes id file.schema file.pageSize bs = .ok stored ∧ stored.dirtiedBy = none ∧
        q.page? id = some stored
  /-- Other pages are the same, with their marks and before images, and so are their bytes in the files. -/
  others : ∀ id, Unmarked tx id p →
    q.page? id = p.page? id ∧ q.storage.bytesAt? id = p.storage.bytesAt? id
  catalog : q.catalog = p.catalog
  lengths : ∀ table file, p.catalog.tableFile? table = some file →
    (file.content q.disk).length = (file.content p.disk).length
  beside : Beside p.catalog p.disk q.disk
  place : InPlace p q
  /-- The transaction has no lock any more, and the others have theirs. -/
  locks : ∀ u id, q.locks.mode? u id = if u = tx then none else p.locks.mode? u id

theorem not_mem_dirtiedBy {p : Pool} {tx : TxId} {id : PageId} : id ∉ p.dirtiedBy tx ↔ Unmarked tx id p := by
  rw [mem_dirtiedBy]
  simp [Unmarked]

/-- What is written is in the files from then on. -/
theorem Written.committed {tx : TxId} {p q : Pool} (h : Written (p.dirtiedBy tx) p q) (hp : Faithful p)
    {id : PageId} {page : Page} (hpage : p.page? id = some page) (hdirty : page.dirtiedBy = some tx) :
    ∃ bs, page.data = .ok bs ∧ q.storage.bytesAt? id = some bs ∧
      q.page? id = some { page with dirtiedBy := none, beforeImage := bs } := by
  obtain ⟨file, bs, hw⟩ := hp.writes hpage
  have hsettled := hw.settled (hdirty ▸ Option.some_ne_none tx)
  obtain ⟨hthere, -, hread⟩ := h.visited hp (mem_dirtiedBy.mpr ⟨page, hpage, hdirty⟩) hpage
  rw [hsettled] at hthere hread
  obtain ⟨file', bs', hs⟩ := Storage.stored_of_readPage hread
  obtain rfl : bs = bs' := hs.read.image
  exact ⟨bs, hw.bytes, hs.bytesAt?, hthere⟩

/-- What is given up is as the files say. -/
theorem Reverted.givenUp {tx : TxId} {p q : Pool} (h : Reverted tx (p.dirtiedBy tx) p q) (hp : Faithful p)
    {id : PageId} {page : Page} (hpage : p.page? id = some page) (hdirty : page.dirtiedBy = some tx) :
    ∃ file bs stored, p.catalog.tableFile? id.table = some file ∧ p.storage.bytesAt? id = some bs ∧
      Page.ofBytes id file.schema file.pageSize bs = .ok stored ∧ stored.dirtiedBy = none ∧
      q.page? id = some stored := by
  obtain ⟨file, bs, hs⟩ := Storage.stored_of_readPage (restored_of_changed hp hpage hdirty)
  refine ⟨file, bs, _, hs.known, hs.bytesAt?, hs.decoded, hs.read.clean, ?_⟩
  rw [h.pages, if_pos (mem_dirtiedBy.mpr ⟨page, hpage, hdirty⟩), hpage]
  rfl

theorem commit_ended (tx : TxId) {p : Pool} (hp : Faithful p) (hl : p.locks.WellKept) :
    ∃ q, complete tx .commit p = (.ok (), q) ∧ Ended tx .commit p q := by
  obtain ⟨m, hm, hrun⟩ := commit_run tx hp
  have hlocks := complete_mode? tx .commit hp.keyed hl
  have hplace := completeVisiting_inPlace (p.dirtiedBy tx) tx .commit p
  change InPlace p (complete tx .commit p).2 at hplace
  rw [hrun] at hlocks hplace
  refine ⟨_, hrun, fun _ id page => hm.committed hp, (fun h => nomatch h), ?_, hm.catalog, hm.lengths, ?_,
    hplace, hlocks⟩
  · intro id hid
    have hnot := not_mem_dirtiedBy.mpr hid
    exact ⟨(hm.unvisited hnot).1, hm.bytes id fun hmem => absurd hmem hnot⟩
  · change Beside p.catalog p.disk m.disk
    rw [hm.disk]
    exact beside_putPages ..

theorem abort_ended (tx : TxId) {p : Pool} (hp : Faithful p) (hl : p.locks.WellKept) :
    ∃ q, complete tx .abort p = (.ok (), q) ∧ Ended tx .abort p q := by
  obtain ⟨m, hm, hrun⟩ := abort_run tx hp
  have hlocks := complete_mode? tx .abort hp.keyed hl
  have hplace := completeVisiting_inPlace (p.dirtiedBy tx) tx .abort p
  change InPlace p (complete tx .abort p).2 at hplace
  rw [hrun] at hlocks hplace
  have hdisk : m.disk = p.disk := congrArg Storage.disk hm.storage
  refine ⟨_, hrun, (fun h => nomatch h), fun _ => ⟨hdisk, fun id page => hm.givenUp hp⟩, ?_,
    congrArg Storage.catalog hm.storage, ?_, ?_, hplace, hlocks⟩
  · intro id hid
    refine ⟨(hm.pages id).trans (if_neg (not_mem_dirtiedBy.mpr hid)), ?_⟩
    rw [storage_withLocks, hm.storage]
  · intro table file _
    change (file.content m.disk).length = _
    rw [hdisk]
  · change Beside p.catalog p.disk m.disk
    rw [hdisk]
    exact ⟨rfl, fun _ _ => rfl⟩

theorem complete_ended (tx : TxId) (outcome : Outcome) {p : Pool} (hp : Faithful p)
    (hl : p.locks.WellKept) : ∃ q, complete tx outcome p = (.ok (), q) ∧ Ended tx outcome p q := by
  cases outcome with
  | commit => exact commit_ended tx hp hl
  | abort => exact abort_ended tx hp hl

/-! ## The order of visits -/

/-- The pages may be visited in any order. -/
theorem completeVisiting_perm {visit visit' : List PageId} (perm : visit.Perm visit') (nodup : visit.Nodup)
    (tx : TxId) (outcome : Outcome) {p : Pool} (hp : Faithful p) :
    completeVisiting visit tx outcome p = completeVisiting visit' tx outcome p := by
  have hplace := completeVisiting_inPlace visit tx outcome p
  have hplace' := completeVisiting_inPlace visit' tx outcome p
  have nodup' := perm.nodup nodup
  cases outcome with
  | commit =>
    obtain ⟨m, hrun, hm⟩ := writeEach_written nodup hp
    obtain ⟨m', hrun', hm'⟩ := writeEach_written nodup' hp
    have hend : completeVisiting visit tx .commit p = (.ok (), m.withLocks (m.locks.releaseAll tx).2) :=
      ended_run hrun tx
    have hend' : completeVisiting visit' tx .commit p = (.ok (), m'.withLocks (m'.locks.releaseAll tx).2) :=
      ended_run hrun' tx
    have hself : Alike p p := ⟨rfl, rfl, .refl p, hp, hp⟩
    have halike := hself.written nodup nodup' (fun _ _ => perm.mem_iff) hm hm'
    rw [hend] at hplace ⊢
    rw [hend'] at hplace' ⊢
    refine congrArg _ (hplace.unique hplace' halike.storage (fun id => ?_) ?_)
    · change m.page? id = m'.page? id
      rw [hm.pages, hm'.pages]
      simp only [perm.mem_iff]
    · rw [locks_withLocks, locks_withLocks, halike.locks]
  | abort =>
    obtain ⟨m, hrun, hm⟩ := revertEach_reverted tx nodup hp
    obtain ⟨m', hrun', hm'⟩ := revertEach_reverted tx nodup' hp
    have hend : completeVisiting visit tx .abort p = (.ok (), m.withLocks (m.locks.releaseAll tx).2) :=
      ended_run hrun tx
    have hend' : completeVisiting visit' tx .abort p = (.ok (), m'.withLocks (m'.locks.releaseAll tx).2) :=
      ended_run hrun' tx
    rw [hend] at hplace ⊢
    rw [hend'] at hplace' ⊢
    refine congrArg _ (hplace.unique hplace' (hm.storage.trans hm'.storage.symm) (fun id => ?_) ?_)
    · change m.page? id = m'.page? id
      rw [hm.pages, hm'.pages]
      simp only [perm.mem_iff]
    · rw [locks_withLocks, locks_withLocks, hm.locks, hm'.locks]

/-! ## The locks after any calls -/

theorem wellKept_insert (tx : TxId) (table : TableId) (row : Row) {p : Pool} (hp : Keyed p)
    (hl : p.locks.WellKept) : (Pool.insert tx table row p).2.locks.WellKept := by
  refine Step.Ends.mono (Q := fun _ q => q.locks.WellKept) (insert_ends tx table row hp) ?_
  rintro (e | place) q hq
  · exact (Quiets.grows hq hl).1
  · obtain ⟨page, m, hmoves, hsets, -⟩ := hq
    exact hsets.locks ▸ (Quiets.grows hmoves hl).1

theorem wellKept_delete (tx : TxId) (row : Row) {p : Pool} (hl : p.locks.WellKept) :
    (Pool.delete tx row p).2.locks.WellKept := by
  refine Step.Ends.mono (Q := fun _ q => q.locks.WellKept) (delete_ends tx row p) ?_
  rintro (e | ⟨⟩) q hq
  · exact (Quiets.grows (Quiets.of_looks hq) hl).1
  · obtain ⟨place, -, fields, page, m, hlooks, hsets⟩ := hq
    exact hsets.locks ▸ (Quiets.grows (Quiets.of_looks hlooks) hl).1

/-- Whatever is asked of a pool, and whatever is changed behind it, the locks stay well kept. -/
theorem wellKept_after {p : Pool} (hp : Keyed p) (hl : p.locks.WellKept) (c : Call) :
    (p.after c).locks.WellKept := by
  cases c with
  | fetch busy tx id mode =>
    exact (Quiets.grows (Quiets.of_looks (fetchBeside_ends busy tx id mode p).1) hl).1
  | insert tx table row => exact wellKept_insert tx table row hp hl
  | delete tx row => exact wellKept_delete tx row hl
  | release tx id => exact LockTable.wellKept_release hl tx id
  | flush tx =>
    have hsettles : Settles p (flush tx p).2 := flush_ends tx hp
    exact hsettles.locks ▸ hl
  | flushAll =>
    have hsettles : Settles p (flushAll p).2 := flushAll_ends hp
    exact hsettles.locks ▸ hl
  | complete tx outcome => exact complete_wellKept tx outcome hp hl
  | discard id => exact locks_discard p id ▸ hl
  | change => exact hl
  | elsewhere => exact hl

/-! ## Pools whose files nobody else writes -/

/-- What transactions ask of a pool. The values of a row are of the types of its columns. -/
def Asked : Call → Prop
  | .insert _ _ row => row.Typed
  | .change .. | .elsewhere .. => False
  | _ => True

instance : DecidablePred Asked
  | .insert _ _ row => inferInstanceAs (Decidable row.Typed)
  | .change .. | .elsewhere .. => .isFalse id
  | .fetch .. | .delete .. | .release .. | .flush .. | .flushAll | .complete .. | .discard .. =>
    .isTrue trivial

/-- The pools that come about from the first one by anything that is asked of it, with new tables becoming
known meanwhile. -/
inductive Undisturbed (first : Pool) : Pool → Prop where
  | start : Undisturbed first first
  | call {p : Pool} (before : Undisturbed first p) (c : Call) (asked : Asked c) :
      Undisturbed first (p.after c)
  | moreTables {p : Pool} (before : Undisturbed first p) {storage : Storage} (own : storage.OwnFiles)
      (more : p.storage.Extends storage) : Undisturbed first { p with storage }

theorem undisturbed_foldl {first p : Pool} (h : Undisturbed first p) {calls : List Call}
    (asked : ∀ c ∈ calls, Asked c) : Undisturbed first (calls.foldl after p) := by
  induction calls generalizing p with
  | nil => exact h
  | cons c rest ih =>
    rw [List.forall_mem_cons] at asked
    exact ih (h.call c asked.1) asked.2

theorem Faithful.withLocks {p : Pool} (h : Faithful p) (locks : LockTable) : Faithful (p.withLocks locks) :=
  ⟨h.own, h.pages⟩

/-- The pages in memory stay copies of those in the files. -/
theorem Faithful.after {p : Pool} (h : Faithful p) {c : Call} (asked : Asked c) : Faithful (p.after c) := by
  cases c with
  | fetch busy tx id mode => exact Looks.faithful (fetchBeside_ends busy tx id mode p).1 h
  | insert tx table row =>
    have hrequest : Request (· = tx) (fun _ _ => True) p _ :=
      Inserts.request rfl asked (insert_ends tx table row h.keyed) fun _ _ _ => trivial
    exact hrequest.faithful h
  | delete tx row =>
    refine Step.Ends.mono (Q := fun _ q => Faithful q) (delete_ends tx row p) ?_
    rintro (e | ⟨⟩) q hends
    · exact Looks.faithful hends h
    · obtain ⟨place, -, hdeletes⟩ := hends
      have hrequest : Request (· = tx) (fun _ _ => True) p q := Deletes.request rfl hdeletes trivial
      exact hrequest.faithful h
  | release tx id => exact h.withLocks _
  | flush tx =>
    obtain ⟨q, hq, hrun⟩ := flush_run tx h
    have hafter : p.after (.flush tx) = q := congrArg Prod.snd hrun
    exact hafter ▸ hq.faithful
  | flushAll =>
    obtain ⟨q, hq, hrun⟩ := flushAll_run h
    have hafter : p.after .flushAll = q := congrArg Prod.snd hrun
    exact hafter ▸ hq.faithful
  | complete tx outcome => exact (complete_faithful tx outcome h).2
  | discard id => exact faithful_discard h id
  | change => exact absurd asked id
  | elsewhere => exact absurd asked id

theorem Faithful.moreTables {p : Pool} (h : Faithful p) {storage : Storage} (own : storage.OwnFiles)
    (more : p.storage.Extends storage) : Faithful { p with storage } :=
  h.of_pages own fun _ _ hpage => .inl ⟨hpage, fun _ hstored => more.readPage h.own own hstored⟩

/-- What is kept all along. -/
structure Sure (p : Pool) : Prop where
  faithful : Faithful p
  locks : p.locks.WellKept

theorem Undisturbed.sure {first p : Pool} (h : Undisturbed first p) (hfirst : Sure first) : Sure p := by
  induction h with
  | start => exact hfirst
  | call _ c asked ih => exact ⟨ih.faithful.after asked, wellKept_after ih.faithful.keyed ih.locks c⟩
  | moreTables _ own more ih => exact ⟨ih.faithful.moreTables own more, ih.locks⟩

theorem sure_of_new {storage : Storage} {config : Config} {pool : Pool} (own : storage.OwnFiles)
    (new : Pool.new storage config = .ok pool) : Sure pool := by
  obtain ⟨rfl, -, -⟩ := eq_of_new new
  exact ⟨⟨own, fun _ _ hpage => nomatch hpage⟩, LockTable.wellKept_empty⟩

/-- The recency tells of the pages in memory, whatever was asked. -/
theorem Undisturbed.tracked {storage : Storage} {config : Config} {pool p : Pool} (h : Undisturbed pool p)
    (new : Pool.new storage config = .ok pool) : ∃ uses, Tracked uses p := by
  have hfirst := tracked_of_new new
  have hknown : Known pool p := by
    induction h with
    | start => exact ⟨[], .start⟩
    | call _ c _ ih => exact ih.after hfirst c
    | moreTables _ _ _ ih => exact ih.after hfirst (.elsewhere _)
  obtain ⟨uses, hserved⟩ := hknown
  exact ⟨uses, hserved.tracked hfirst⟩

/-! ## The laws -/

/-- A machine finds the place of a page in memory in its file. -/
theorem Faithful.sameInWords {p : Pool} (h : Faithful p) (sizes : p.storage.SizesInWords) {table : TableId}
    {number : UInt32} {page : Page} (hpage : p.page? ⟨table, number.toNat⟩ = some page) :
    ∃ file, p.catalog.tableFile? table = some file ∧ file.pages.SameInWords number := by
  obtain ⟨stored, hstored, -⟩ := h.pages _ page hpage
  obtain ⟨file, bs, hs⟩ := Storage.stored_of_readPage hstored
  have hreaches : file.pages.Reaches number.toNat :=
    PageFile.reaches_of_lt (sizes table file hs.known) number.toNat_lt
  exact ⟨file, hs.known, hreaches.sameInWords⟩

/-- Whatever was asked of a pool over tables with files of their own, whose pages have sizes of 32 bits, the end
of a transaction succeeds, and settles exactly the pages that the transaction changed, which a machine reads and
writes at their places in their files. The pool that it leaves does not hang on the order in which they are visited. -/
theorem an_end_settles_the_pages_of_its_transaction {storage : Storage} (own : storage.OwnFiles)
    {config : Config} {pool : Pool} (new : Pool.new storage config = .ok pool) {p : Pool}
    (reached : Undisturbed pool p) (sizes : p.storage.SizesInWords) (tx : TxId) (outcome : Outcome) :
    (∀ table (number : UInt32), ⟨table, number.toNat⟩ ∈ p.dirtiedBy tx →
      ∃ file, p.catalog.tableFile? table = some file ∧ file.pages.SameInWords number) ∧
    ∃ q, complete tx outcome p = (.ok (), q) ∧ Ended tx outcome p q ∧
      ∀ visit, visit.Perm (p.dirtiedBy tx) → completeVisiting visit tx outcome p = (.ok (), q) := by
  have hsure := reached.sure (sure_of_new own new)
  obtain ⟨q, hrun, hended⟩ := complete_ended tx outcome hsure.faithful hsure.locks
  refine ⟨fun table number hid => ?_, q, hrun, hended, fun visit perm => ?_⟩
  · obtain ⟨page, hpage, -⟩ := mem_dirtiedBy.mp hid
    exact hsure.faithful.sameInWords sizes hpage
  · have hnodup := perm.symm.nodup (nodup_dirtiedBy p tx)
    rw [completeVisiting_perm perm hnodup tx outcome hsure.faithful]
    exact hrun

/-- Room for two pages, over one empty table. -/
def roomForTwo : Pool := { config := { capacity := 2, pageSize := 64 }, storage := Storage.oneTable }

/-- Rows of one transaction that fill a page, and one more row. -/
def sixteenRows : List Call := List.replicate 16 (.insert 7 1 { schema := ⟨[⟨"n", .int⟩]⟩, fields := [.int 5] })

theorem two_pages_are_written_in_either_order :
    Storage.oneTable.OwnFiles ∧
    Pool.new Storage.oneTable { capacity := 2, pageSize := 64 } = .ok roomForTwo ∧
    Undisturbed roomForTwo (sixteenRows.foldl after roomForTwo) ∧
    (sixteenRows.foldl after roomForTwo).storage.SizesInWords ∧
    (sixteenRows.foldl after roomForTwo).dirtiedBy 7 = [⟨1, 0⟩, ⟨1, 1⟩] ∧
    ∃ q, complete 7 .commit (sixteenRows.foldl after roomForTwo) = (.ok (), q) ∧
      Ended 7 .commit (sixteenRows.foldl after roomForTwo) q ∧
      completeVisiting [⟨1, 1⟩, ⟨1, 0⟩] 7 .commit (sixteenRows.foldl after roomForTwo) = (.ok (), q) := by
  have own := Storage.ownFiles_oneTable
  have new : Pool.new Storage.oneTable { capacity := 2, pageSize := 64 } = .ok roomForTwo := rfl
  have reached : Undisturbed roomForTwo (sixteenRows.foldl after roomForTwo) :=
    undisturbed_foldl .start (by decide)
  have hdirty : (sixteenRows.foldl after roomForTwo).dirtiedBy 7 = [⟨1, 0⟩, ⟨1, 1⟩] := by decide +kernel
  have sizes : (sixteenRows.foldl after roomForTwo).storage.SizesInWords := by decide +kernel
  obtain ⟨-, q, hrun, hended, horder⟩ :=
    an_end_settles_the_pages_of_its_transaction own new reached sizes 7 .commit
  exact ⟨own, new, reached, sizes, hdirty, q, hrun, hended, horder _ (hdirty ▸ List.Perm.swap ..)⟩

end PageStore.Pool
