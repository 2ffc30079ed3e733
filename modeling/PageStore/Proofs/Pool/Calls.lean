-- The pages in memory after any calls on a pool, whoever makes them and whatever comes
-- of them. There are never more than there is room for, each stands at its own place, and
-- when there is no room for one more, the clean page that was used longest ago goes, or
-- none. Every operation uses pages only by getting them and by noting that it changed one.
import PageStore.Pool.Completion
import PageStore.Proofs.Pool.Uses

namespace PageStore.Pool

/-- The pool came about from the first one. -/
def Known (first p : Pool) : Prop := ∃ uses, Served first uses p

section Operations

variable {first p : Pool} (new : Tracked [] first)

include new in
theorem Known.keyed (h : Known first p) : Keyed p := by
  obtain ⟨uses, h⟩ := h
  exact (h.tracked new).keyed

theorem Known.elsewhere (h : Known first p) (storage : Storage) (locks : LockTable) :
    Known first { p with storage, locks } := by
  obtain ⟨uses, h⟩ := h
  exact ⟨uses, h.elsewhere storage locks⟩

theorem Known.withLocks (h : Known first p) (locks : LockTable) : Known first (p.withLocks locks) :=
  h.elsewhere p.storage locks

theorem Known.withPage (h : Known first p) (id : PageId) (f : Page → Page)
    (own : ∀ page, p.page? id = some page → (f page).id = id) : Known first (p.withPage id f) := by
  obtain ⟨uses, h⟩ := h
  exact ⟨uses, h.changed id f own⟩

/-- A page in memory is put in the place of the one that stood there. -/
theorem Known.replaced (h : Known first p) {id : PageId} {page after : Page}
    (there : p.page? id = some page) (own : after.id = id) :
    Known first (p.withPage id fun _ => after) ∧ ((p.withPage id fun _ => after).page? id).isSome := by
  refine ⟨h.withPage id _ fun _ _ => own, ?_⟩
  rw [page?_withPage, if_pos rfl, there]
  rfl

theorem Known.fetchBeside (h : Known first p) (busy : List PageId) (tx : TxId) (id : PageId)
    (mode : LockMode) : (fetchBeside busy tx id mode).Ends p fun r q =>
      Known first q ∧ ∀ page, r = .ok page → q.page? id = some page := by
  obtain ⟨uses, h⟩ := h
  refine Step.Ends.mono ((fetchBeside_ends busy tx id mode p).and
    (Q := fun r q => Pool.fetchBeside busy tx id mode p = (r, q)) rfl) ?_
  rintro r q ⟨⟨-, hgot⟩, hrun⟩
  refine ⟨?_, fun page hpage => (hgot page hpage).1⟩
  cases r with
  | ok page => exact ⟨uses ++ [id], h.got busy tx id mode hrun⟩
  | error e => exact ⟨uses, h.notGot busy tx id mode hrun⟩

theorem Known.noteChange (h : Known first p) (tx : TxId) {id : PageId} (cached : (p.page? id).isSome) :
    Known first (noteChange tx id p).2 := by
  obtain ⟨uses, h⟩ := h
  exact ⟨uses ++ [id], h.noted tx id cached⟩

/-! ## Rows -/

theorem Known.releaseUnless (h : Known first p) (heldBefore : Bool) (tx : TxId) (id : PageId) :
    (releaseUnless heldBefore tx id).Ends p fun _ q => Known first q := by
  unfold Pool.releaseUnless
  cases heldBefore with
  | true => exact h
  | false => exact h.withLocks _

/-- A place that was found is on a page in memory. -/
def Cached (q : Pool) (place : RecordId) : Prop := (q.page? place.page).isSome

include new in
theorem Known.tryInsertInto (h : Known first p) (tx : TxId) (id : PageId) (row : Row) :
    (tryInsertInto tx id row).Ends p fun r q =>
      Known first q ∧ ∀ place, r = .ok (some place) → Cached q place := by
  have hnone : ∀ {r : Except Error (Option RecordId)} {q : Pool}, Known first q →
      (∀ place, r ≠ .ok (some place)) →
      Known first q ∧ ∀ place, r = .ok (some place) → Cached q place :=
    fun hq hr => ⟨hq, fun place hplace => absurd hplace (hr place)⟩
  have hgive : ∀ q held, Known first q →
      Step.Ends (do Pool.releaseUnless held tx id; pure none) q fun r q =>
        Known first q ∧ ∀ place, r = .ok (some place) → Cached q place := by
    intro q held hq
    exact Step.Ends.bind (hq.releaseUnless held tx id) (fun _ _ hq' => hnone hq' (by simp))
      (fun _ _ hq' => hnone hq' (by simp))
  unfold Pool.tryInsertInto
  refine Step.Ends.of_ok (Step.read_run _ p) ?_
  refine Step.Ends.bind (h.fetchBeside [] tx id .shared) ?_ (fun _ _ hq => hnone hq.1 (by simp))
  rintro page q ⟨hq, -⟩
  split
  · exact hgive q _ hq
  · refine Step.Ends.bind (hq.fetchBeside [] tx id .exclusive) ?_ (fun _ _ hq' => hnone hq'.1 (by simp))
    rintro page q' ⟨hq', hgot⟩
    have hthere := hgot page rfl
    have hid : page.id = id := hq'.keyed new id page hthere
    split
    · rename_i place filled hput
      have hin := Page.inserted_of_insert hput
      have hown : (filled.mark (some tx)).id = id := by
        rw [hin.result]
        exact hid
      obtain ⟨hafter, hcached⟩ := hq'.replaced hthere hown
      refine ⟨hafter, ?_⟩
      rintro _ ⟨⟩
      rw [Cached, hin.page, hid]
      exact hcached
    · exact hgive q' _ hq'
    · exact hnone hq' (by simp)

include new in
theorem Known.insertIntoFirst (h : Known first p) (tx : TxId) (row : Row) (ids : List PageId) :
    (insertIntoFirst tx row ids).Ends p fun r q =>
      Known first q ∧ ∀ place, r = .ok (some place) → Cached q place := by
  induction ids generalizing p with
  | nil => exact ⟨h, fun _ hplace => by cases hplace⟩
  | cons id rest ih =>
    unfold Pool.insertIntoFirst
    refine Step.Ends.bind (h.tryInsertInto new tx id row) ?_ (fun _ _ hq => ⟨hq.1, fun _ hr => by cases hr⟩)
    rintro (_ | place) q ⟨hq, hplace⟩
    · exact ih hq
    · exact ⟨hq, by rintro _ ⟨⟩; exact hplace place rfl⟩

include new in
theorem Known.insertAppending (h : Known first p) (file : TableFile) (tx : TxId) (row : Row)
    (attempts : Nat) (last : PageId) :
    (insertAppending file tx row attempts last).Ends p fun r q =>
      Known first q ∧ ∀ place, r = .ok place → Cached q place := by
  induction attempts generalizing p last with
  | zero => exact ⟨h, fun _ hplace => by cases hplace⟩
  | succ attempts ih =>
    unfold Pool.insertAppending
    refine Step.Ends.of_ok (appendEmpty_run file p) ?_
    have hgrown : Known first (p.withDisk (file.grown p.disk)) := h.elsewhere _ p.locks
    refine Step.Ends.bind (hgrown.tryInsertInto new tx _ row) ?_
      (fun _ _ hq => ⟨hq.1, fun _ hr => by cases hr⟩)
    rintro (_ | place) q ⟨hq, hplace⟩
    · exact ih hq _
    · exact ⟨hq, by rintro _ ⟨⟩; exact hplace place rfl⟩

include new in
theorem Known.insertInto (h : Known first p) (file : TableFile) (tx : TxId) (row : Row) :
    (insertInto file tx row).Ends p fun r q =>
      Known first q ∧ ∀ place, r = .ok place → Cached q place := by
  have hfails : ∀ (e : Error), Known first p ∧
      ∀ place, (Except.error e : Except Error RecordId) = .ok place → Cached p place :=
    fun e => ⟨h, fun _ hplace => by cases hplace⟩
  unfold Pool.insertInto
  refine Step.Ends.check (fun _ => ?_) (fun _ => hfails _)
  refine Step.Ends.of_ok (Step.read_run _ p) ?_
  refine Step.Ends.check (fun _ => ?_) (fun _ => hfails _)
  refine Step.Ends.bind (h.insertIntoFirst new tx row _) ?_ (fun _ _ hq => ⟨hq.1, fun _ hr => by cases hr⟩)
  rintro (_ | place) q ⟨hq, hplace⟩
  · exact hq.insertAppending new file tx row _ _
  · exact ⟨hq, by rintro _ ⟨⟩; exact hplace place rfl⟩

theorem tableFile_same (table : TableId) (p : Pool) : (tableFile table).Ends p fun _ q => q = p := rfl

include new in
theorem Known.insert (h : Known first p) (tx : TxId) (table : TableId) (row : Row) :
    (insert tx table row).Ends p fun _ q => Known first q := by
  unfold Pool.insert
  refine Step.Ends.bind (tableFile_same table p) ?_ (fun _ _ hq => hq ▸ h)
  rintro file q rfl
  refine Step.Ends.check (fun _ => ?_) (fun _ => h)
  refine Step.Ends.bind (h.insertInto new file tx row) ?_ (fun _ _ hq => hq.1)
  rintro place q' ⟨hq', hcached⟩
  exact hq'.noteChange tx (hcached place rfl)

include new in
theorem Known.deleteFrom (h : Known first p) (file : TableFile) (tx : TxId) (row : Row) :
    (deleteFrom file tx row).Ends p fun r q =>
      Known first q ∧ ∀ id, r = .ok id → (q.page? id).isSome := by
  unfold Pool.deleteFrom
  refine Step.Ends.ofOption ?_ (fun _ => ⟨h, fun _ hid => by cases hid⟩)
  intro place _
  refine Step.Ends.check (fun _ => ?_) (fun _ => ⟨h, fun _ hid => by cases hid⟩)
  refine Step.Ends.bind (h.fetchBeside [] tx place.page .exclusive) ?_
    (fun _ _ hq => ⟨hq.1, fun _ hid => by cases hid⟩)
  rintro page q ⟨hq, hgot⟩
  have hthere := hgot page rfl
  refine Step.Ends.ofExcept ?_ (fun _ _ => ⟨hq, fun _ hid => by cases hid⟩)
  intro emptied hdelete
  cases hplace : row.place with
  | none =>
    rw [hplace] at hdelete
    cases hdelete
  | some place' =>
    rw [hplace] at hdelete
    have hown : (emptied.mark (some tx)).id = place.page := by
      rw [(Page.deleted_of_delete hdelete).result]
      exact hq.keyed new _ page hthere
    obtain ⟨hafter, hcached⟩ := hq.replaced hthere hown
    exact ⟨hafter, by rintro _ ⟨⟩; exact hcached⟩

include new in
theorem Known.delete (h : Known first p) (tx : TxId) (row : Row) :
    (delete tx row).Ends p fun _ q => Known first q := by
  unfold Pool.delete
  refine Step.Ends.ofOption ?_ (fun _ => h)
  intro place _
  refine Step.Ends.bind (tableFile_same _ p) ?_ (fun _ _ hq => hq ▸ h)
  rintro file q rfl
  refine Step.Ends.check (fun _ => ?_) (fun _ => h)
  refine Step.Ends.bind (h.deleteFrom new file tx row) ?_ (fun _ _ hq => hq.1)
  rintro id q' ⟨hq', hcached⟩
  exact hq'.noteChange tx (hcached id rfl)

/-! ## Writing and going back -/

include new in
theorem Known.writeBack (h : Known first p) (id : PageId) :
    (writeBack id).Ends p fun _ q => Known first q := by
  unfold Pool.writeBack
  refine Step.Ends.of_ok (Step.state_run p) ?_
  split
  · exact h
  · rename_i page hpage
    split
    · exact h
    · have hwritten : (onStorage (Storage.writePage page)).Ends p fun _ q =>
          Known first q ∧ q.page? id = some page :=
        ⟨h.elsewhere _ p.locks, hpage⟩
      refine Step.Ends.bind hwritten ?_ (fun _ _ hq => hq.1)
      rintro ⟨⟩ q ⟨hq, hthere⟩
      refine Step.Ends.ofExcept ?_ (fun _ _ => hq)
      intro clean hset
      obtain ⟨bs, -, rfl⟩ := Page.setBefore_spec hset
      have hown : ({ page.mark none with beforeImage := bs } : Page).id = id := hq.keyed new id page hthere
      exact (hq.replaced hthere hown).1

theorem Known.revertPage (h : Known first p) (tx : TxId) (id : PageId) :
    (revertPage tx id).Ends p fun _ q => Known first q := by
  unfold Pool.revertPage
  refine Step.Ends.of_ok (Step.state_run p) ?_
  split
  · exact h
  · rename_i page hpage
    split
    · exact h
    · refine Step.Ends.ofExcept ?_ (fun _ _ => h)
      intro stored hread
      exact (h.replaced hpage (Storage.id_of_readPage hread)).1

include new in
theorem Known.writeEach (h : Known first p) (visit : List PageId) :
    (writeEach visit).Ends p fun _ q => Known first q :=
  Step.Ends.bind (Step.Ends.each (fun id _ _ hs => hs.writeBack new id) h) (fun _ _ hq => hq)
    (fun _ _ hq => hq)

theorem Known.revertEach (h : Known first p) (tx : TxId) (visit : List PageId) :
    (revertEach tx visit).Ends p fun _ q => Known first q :=
  Step.Ends.bind (Step.Ends.each (fun id _ _ hs => hs.revertPage tx id) h) (fun _ _ hq => hq)
    (fun _ _ hq => hq)

include new in
theorem Known.complete (h : Known first p) (tx : TxId) (outcome : Outcome) :
    (complete tx outcome).Ends p fun _ q => Known first q := by
  unfold Pool.complete completeVisiting
  refine Step.Ends.of_ok (Step.state_run p) (Step.Ends.bind_attempt (P := fun _ q => Known first q) ?_ ?_)
  · cases outcome with
    | commit => exact h.writeEach new _
    | abort => exact h.revertEach tx _
  · intro r q hq
    exact hq.withLocks _

end Operations

/-! ## Any calls -/

/-- What can be asked of a pool. In between, whoever keeps a page may change it, and the tables and their
files may change behind the pool. -/
inductive Call where
  | fetch (busy : List PageId) (tx : TxId) (id : PageId) (mode : LockMode)
  | insert (tx : TxId) (table : TableId) (row : Row)
  | delete (tx : TxId) (row : Row)
  | release (tx : TxId) (id : PageId)
  | flush (tx : TxId)
  | flushAll
  | complete (tx : TxId) (outcome : Outcome)
  | discard (id : PageId)
  | change (id : PageId) (f : Page → Page) (own : ∀ page, (f page).id = page.id)
  | elsewhere (storage : Storage)

/-- The pool after a call, be it answered or refused. -/
def after (p : Pool) : Call → Pool
  | .fetch busy tx id mode => (fetchBeside busy tx id mode p).2
  | .insert tx table row => (Pool.insert tx table row p).2
  | .delete tx row => (Pool.delete tx row p).2
  | .release tx id => (Pool.release tx id p).2
  | .flush tx => (Pool.flush tx p).2
  | .flushAll => (Pool.flushAll p).2
  | .complete tx outcome => (Pool.complete tx outcome p).2
  | .discard id => (Pool.discard id p).2
  | .change id f _ => (setPage id f p).2
  | .elsewhere storage => { p with storage }

theorem Known.after {first p : Pool} (new : Tracked [] first) (h : Known first p) (c : Call) :
    Known first (p.after c) := by
  cases c with
  | fetch busy tx id mode => exact (h.fetchBeside busy tx id mode).1
  | insert tx table row => exact h.insert new tx table row
  | delete tx row => exact h.delete new tx row
  | release tx id => exact h.withLocks _
  | flush tx => exact h.writeEach new (p.dirtiedBy tx)
  | flushAll => exact h.writeEach new p.frames.keys
  | complete tx outcome => exact h.complete new tx outcome
  | discard id =>
    obtain ⟨uses, h⟩ := h
    exact ⟨uses, h.dropped id⟩
  | change id f own => exact h.withPage id f fun page hpage => (own page).trans (h.keyed new id page hpage)
  | elsewhere storage => exact h.elsewhere storage p.locks

theorem Known.foldl_after {first p : Pool} (new : Tracked [] first) (h : Known first p)
    (calls : List Call) : Known first (calls.foldl Pool.after p) := by
  induction calls generalizing p with
  | nil => exact h
  | cons c calls ih => exact ih (h.after new c)

theorem tracked_of_new {storage : Storage} {config : Config} {pool : Pool}
    (new : Pool.new storage config = .ok pool) : Tracked [] pool := by
  obtain ⟨rfl, -, -⟩ := eq_of_new new
  refine ⟨Nat.zero_le _, ?_, ?_, rfl, fun _ => rfl⟩
  · intro id page hpage
    cases hpage
  · intro id hcached
    cases hcached

/-! ## The laws -/

/-- Room for two pages, over a table of three. -/
def twoFrames : Pool where
  config := { capacity := 2, pageSize := 64 }
  storage := { Storage.oneTable with
    disk := { Storage.oneTable.disk with files := [Bytes.zeros 192] } }

/-- The first page, the second one, and the first one again. -/
def threeUses : List Call :=
  [.fetch [] 7 ⟨1, 0⟩ .shared, .fetch [] 7 ⟨1, 1⟩ .shared, .fetch [] 7 ⟨1, 0⟩ .shared]

end PageStore.Pool
