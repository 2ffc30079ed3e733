-- How many pages are held in memory is not to be seen. Two runs of the same actions on
-- pools of different sizes, over the same files, give the same answers, and leave the
-- same locks and the same files, as long as neither of them runs out of room.
import PageStore.Proofs.Pool.Alike
import PageStore.Proofs.Session.Lengths

namespace PageStore

/-! ## By table and place -/

namespace Pool

theorem Alike.insertFields {p p' : Pool} (h : Alike p p') (tx : TxId) (table : TableId)
    (fields : List Field) :
    Step.Agree (Database.insert tx table fields) p (Database.insert tx table fields) p'
      fun _ q q' => Alike q q' := by
  have hschema : Step.Agree (Database.schemaOf table) p (Database.schemaOf table) p'
      fun _ q q' => Alike q q' := by
    refine Step.Agree.of_run (r := p.catalog.schemaOf table) rfl ?_ h
    rw [h.catalog]
    rfl
  unfold Database.insert
  refine Step.Agree.bind hschema ?_ (fun _ _ _ h => h)
  intro schema q q' hq
  refine Step.Agree.ofExcept ?_ (fun _ _ => hq)
  intro row hrow
  exact hq.insert tx table (Row.typed_of_ofFields hrow).1

theorem Alike.deleteAt {p p' : Pool} (h : Alike p p') (tx : TxId) (place : RecordId) :
    Step.Agree (Database.delete tx place) p (Database.delete tx place) p' fun _ q q' => Alike q q' := by
  unfold Database.delete
  refine Step.Agree.bind (h.fetch [] [] tx place.page .exclusive) ?_ (fun _ _ _ h => h.1)
  rintro page q q' ⟨hq, -⟩
  refine Step.Agree.ofOption ?_ (fun _ => hq)
  intro row _
  refine Step.Agree.bind (hq.delete tx row) ?_ (fun _ _ _ h => h)
  intro _ t t' ht
  exact Step.Agree.of_run rfl rfl ht

end Pool

/-! ## Scans -/

namespace Scan

/-- The same walk over two pools that are alike. -/
structure Alike (s s' : Scan × Pool) : Prop where
  scan : s.1 = s'.1
  pool : Pool.Alike s.2 s'.2

theorem Alike.change {s s' : Scan × Pool} (h : Alike s s') (f : Scan → Scan) :
    Alike (f s.1, s.2) (f s'.1, s'.2) := ⟨congrArg f h.scan, h.pool⟩

theorem Alike.readUntilRow {s s' : Scan × Pool} (h : Alike s s') (numbers : List Nat) :
    Step.Agree (readUntilRow numbers) s (readUntilRow numbers) s' fun _ => Alike := by
  induction numbers generalizing s s' with
  | nil => exact Step.Agree.of_run rfl rfl h
  | cons number rest ih =>
    unfold Scan.readUntilRow
    have hmoved := h.change fun scan => { scan with nextPage := number + 1 }
    refine Step.Agree.of_ok (Step.update_run _ s) (Step.update_run _ s') ?_
    refine Step.Agree.of_ok (Step.read_run _ _) (by rw [Step.read_run, ← hmoved.scan]) ?_
    refine Step.Agree.bind (R := fun _ => Alike) ?_ ?_ (fun _ _ _ h => h)
    · refine Step.Agree.focus ((hmoved.pool.fetch [] [] _ _ .shared).mono ?_)
      exact fun r q q' hq => ⟨hmoved.scan, hq.1⟩
    · intro page t t' ht
      have hqueue := ht.change fun scan => { scan with queue := page.rows }
      refine Step.Agree.of_ok (Step.update_run _ t) (Step.update_run _ t') ?_
      split
      · exact ih hqueue
      · exact Step.Agree.of_run rfl rfl hqueue

theorem Alike.refill {s s' : Scan × Pool} (h : Alike s s') :
    Step.Agree refill s refill s' fun _ => Alike := by
  unfold Scan.refill
  refine Step.Agree.of_ok (Step.read_run _ s) (by rw [Step.read_run, ← h.scan]) ?_
  refine Step.Agree.bind (R := fun _ => Alike) ?_ ?_ (fun _ _ _ h => h)
  · exact Step.Agree.focus ((h.pool.tableFile _).mono fun r q q' hq => ⟨h.scan, hq.1⟩)
  · intro file t t' ht
    have hdisk : t.2.disk = t'.2.disk := ht.pool.disk
    have hpages : onPool (Step.read fun p => file.numPages p.disk) t' = (.ok (file.numPages t.2.disk), t') := by
      rw [hdisk]
      rfl
    exact Step.Agree.of_ok rfl hpages (ht.readUntilRow _)

theorem Alike.pop {s s' : Scan × Pool} (h : Alike s s') :
    Step.Agree pop s pop s' fun _ => Alike := by
  unfold Scan.pop
  refine Step.Agree.of_ok (Step.read_run _ s) (by rw [Step.read_run, ← h.scan]) ?_
  split
  · exact Step.Agree.of_run rfl rfl h
  · rename_i row rest _
    exact Step.Agree.of_run rfl rfl (h.change fun scan => { scan with queue := rest })

theorem Alike.next {s s' : Scan × Pool} (h : Alike s s') :
    Step.Agree next s next s' fun _ => Alike := by
  have hfinish : ∀ t t' : Scan × Pool, Alike t t' →
      Alike ({ t.1 with finished := true }, t.2) ({ t'.1 with finished := true }, t'.2) :=
    fun t t' ht => ht.change fun scan => { scan with finished := true }
  unfold Scan.next
  refine Step.Agree.of_ok (Step.read_run _ s) (by rw [Step.read_run, ← h.scan]) ?_
  split
  · split
    · exact Step.Agree.of_run rfl rfl h
    · -- A walk for which there is no room ends with that error.
      refine Step.Agree.bind_attempt h.refill (fun _ _ => rfl) (fun _ _ => rfl) ?_
      rintro (e | _ | _) t t' ht
      · exact Step.Agree.of_run rfl rfl (hfinish t t' ht)
      · exact Step.Agree.of_run rfl rfl (hfinish t t' ht)
      · exact ht.pop
  · exact h.pop

end Scan

/-! ## Actions of a client -/

namespace Session

/-- The same scans and opened files beside two pools that are alike. What pages the client keeps does
not count. -/
structure Alike (s s' : Session) : Prop where
  pool : Pool.Alike s.pool s'.pool
  scans : s.scans = s'.scans
  opened : s.opened = s'.opened

theorem Alike.onPool {α : Type} {s s' : Session} (h : Alike s s') {m m' : Step Pool α}
    {P : Except Error α → Pool → Pool → Prop} (hm : Step.Agree m s.pool m' s'.pool P)
    (hp : ∀ r q q', P r q q' → Pool.Alike q q') :
    Step.Agree (onPool m) s (onPool m') s' fun _ => Alike :=
  Step.Agree.focus (hm.mono fun r q q' hq => ⟨hp r q q' hq, h.scans, h.opened⟩)

/-- An operation on the pool, and an answer that it alone decides. -/
theorem Alike.answer {α : Type} {s s' : Session} (h : Alike s s') {m : Step Pool α} (f : α → Answer)
    (hm : Step.Agree m s.pool m s'.pool fun _ q q' => Pool.Alike q q') :
    Step.Agree (Session.onPool m >>= fun a => pure (f a)) s (Session.onPool m >>= fun a => pure (f a)) s'
      fun _ => Alike := by
  refine Step.Agree.bind (h.onPool hm fun _ _ _ hq => hq) ?_ (fun _ _ _ h => h)
  intro a t t' ht
  exact Step.Agree.of_run rfl rfl ht

theorem Alike.fileOf {s s' : Session} (h : Alike s s') (table : TableId) :
    Step.Agree (fileOf table) s (fileOf table) s' fun _ => Alike := by
  unfold Session.fileOf
  refine Step.Agree.state ?_
  rw [← h.opened]
  split
  · exact Step.Agree.of_run rfl rfl h
  · exact h.onPool (h.pool.tableFile table) fun _ _ _ hq => hq.1

theorem Alike.rowOver {s s' : Session} (h : Alike s s') (columns : Option (List Column))
    {schema : Step Session Schema} (hschema : Step.Agree schema s schema s' fun _ => Alike)
    (fields : List Field) :
    Step.Agree (rowOver columns schema fields) s (rowOver columns schema fields) s'
      fun r t t' => Alike t t' ∧ ∀ row, r = .ok row → row.Typed := by
  have hrow : ∀ schema t t', Alike t t' → Step.Agree (Step.ofExcept (Row.ofFields schema fields)) t
      (Step.ofExcept (Row.ofFields schema fields)) t'
      fun r t t' => Alike t t' ∧ ∀ row, r = .ok row → row.Typed :=
    fun schema t t' ht => Step.Agree.of_run rfl rfl ⟨ht, fun row hrow => (Row.typed_of_ofFields hrow).1⟩
  unfold Session.rowOver
  cases columns with
  | some columns =>
    exact Step.Agree.ofExcept (fun schema _ => hrow schema s s' h) (fun e _ => ⟨h, fun row hrow => nomatch hrow⟩)
  | none =>
    refine Step.Agree.bind hschema (fun schema t t' ht => hrow schema t t' ht) ?_
    exact fun e t t' ht => ⟨ht, fun row hrow => nomatch hrow⟩

theorem Alike.scanNext {s s' : Session} (h : Alike s s') (name : String) :
    Step.Agree (scanNext name) s (scanNext name) s' fun _ => Alike := by
  cases hscan : s.scans.get? name with
  | none =>
    exact Step.Agree.of_run (scanNext_missing hscan) (scanNext_missing (h.scans ▸ hscan)) h
  | some scan =>
    have hnext : Scan.Alike (scan, s.pool) (scan, s'.pool) := ⟨rfl, h.pool⟩
    have hfocus : Step.Agree (Step.focus (fun s => (scan, s.pool)) (setScan name) Scan.next) s
        (Step.focus (fun s => (scan, s.pool)) (setScan name) Scan.next) s' fun _ => Alike := by
      refine Step.Agree.focus (hnext.next.mono ?_)
      intro r t t' ht
      refine ⟨ht.pool, ?_, h.opened⟩
      rw [setScan, setScan, h.scans, ht.scan]
    unfold Step.Agree at hfocus ⊢
    rw [scanNext_run hscan, scanNext_run (h.scans ▸ hscan)]
    exact hfocus

/-- Pages and rows are asked for, walked over, written and dropped, locks are given back, and
transactions end. -/
def OnCache : Action → Prop
  | .fetch .. | .poolInsert .. | .poolDelete .. | .insert .. | .delete .. => True
  | .openScan .. | .nextRows .. | .rewind .. => True
  | .flush .. | .flushAll | .release .. | .discard .. | .commit .. | .abort .. => True
  | _ => False

theorem Alike.fetch {s s' : Session} (h : Alike s s') (tx : TxId) (id : PageId) (mode : LockMode)
    (keepAs : Option String) (busy : List String) :
    Step.Agree (perform (.fetch tx id mode keepAs busy)) s (perform (.fetch tx id mode keepAs busy)) s'
      fun _ => Alike := by
  simp only [Session.perform]
  refine Step.Agree.state ?_
  refine Step.Agree.bind (h.onPool (h.pool.fetch _ _ tx id mode) fun _ _ _ hq => hq.1) ?_ (fun _ _ _ h => h)
  intro page t t' ht
  obtain ⟨handles, hkeep⟩ := keepAs_run keepAs id t
  obtain ⟨handles', hkeep'⟩ := keepAs_run keepAs id t'
  refine Step.Agree.of_ok hkeep hkeep' (Step.Agree.of_run rfl rfl ?_)
  exact ⟨ht.pool, ht.scans, ht.opened⟩

theorem Alike.poolInsert {s s' : Session} (h : Alike s s') (tx : TxId) (table : TableId)
    (fields : List Field) (columns : Option (List Column)) :
    Step.Agree (perform (.poolInsert tx table fields columns)) s
      (perform (.poolInsert tx table fields columns)) s' fun _ => Alike := by
  simp only [Session.perform]
  have hschema : Step.Agree (TableFile.schema <$> Session.fileOf table) s
      (TableFile.schema <$> Session.fileOf table) s' fun _ => Alike :=
    Step.Agree.bind (h.fileOf table) (fun _ _ _ ht => Step.Agree.of_run rfl rfl ht) (fun _ _ _ h => h)
  refine Step.Agree.bind (h.rowOver columns hschema fields) ?_ (fun _ _ _ h => h.1)
  rintro row t t' ⟨ht, typed⟩
  exact ht.answer _ (ht.pool.insert tx table (typed row rfl))

theorem Alike.perform {s s' : Session} (h : Alike s s') {a : Action} (asked : OnCache a) :
    Step.Agree (perform a) s (perform a) s' fun _ => Alike := by
  cases a
  case fetch tx id mode keepAs busy => exact h.fetch tx id mode keepAs busy
  case insert tx table fields =>
    simp only [Session.perform]
    exact h.answer _ (h.pool.insertFields tx table fields)
  case poolInsert tx table fields columns => exact h.poolInsert tx table fields columns
  case delete tx place =>
    simp only [Session.perform]
    exact h.answer _ (h.pool.deleteAt tx place)
  case poolDelete tx place fields columns =>
    simp only [Session.perform]
    refine Step.Agree.ofExcept ?_ (fun _ _ => h)
    intro schema _
    refine Step.Agree.ofExcept ?_ (fun _ _ => h)
    intro row _
    exact h.answer _ (h.pool.delete tx _)
  case openScan name tx table =>
    have hscans := congrArg (fun scans => scans.insert name (Scan.start tx table)) h.scans
    exact Step.Agree.of_run rfl rfl ⟨h.pool, hscans, h.opened⟩
  case nextRows name count =>
    simp only [Session.perform]
    refine Step.Agree.bind (Step.Agree.each (fun _ _ _ ht => ht.scanNext name) _ h) ?_ (fun _ _ _ h => h)
    intro rows t t' ht
    exact Step.Agree.of_run rfl rfl ht
  case rewind name =>
    have hscans := congrArg (fun scans => scans.modify name Scan.rewind) h.scans
    exact Step.Agree.of_run rfl rfl ⟨h.pool, hscans, h.opened⟩
  case flush tx =>
    simp only [Session.perform]
    exact h.answer (fun _ => .nothing) (h.pool.flush tx)
  case flushAll =>
    simp only [Session.perform]
    exact h.answer (fun _ => .nothing) h.pool.flushAll
  case release tx id =>
    simp only [Session.perform]
    exact h.answer (fun _ => .nothing) (h.pool.release tx id)
  case discard id =>
    simp only [Session.perform]
    exact h.answer (fun _ => .nothing) (h.pool.discard id)
  case commit tx =>
    simp only [Session.perform]
    exact h.answer (fun _ => .nothing) (h.pool.commit tx)
  case abort tx =>
    simp only [Session.perform]
    exact h.answer (fun _ => .nothing) (h.pool.abort tx)
  all_goals exact absurd asked id

theorem Alike.run {s s' : Session} (h : Alike s s') {a : Action} (asked : OnCache a) :
    Step.Agree (run a) s (run a) s' fun _ => Alike := by
  rcases h.perform asked with hfull | hfull | ⟨hsame, hafter⟩
  · exact .inl hfull
  · exact .inr (.inl hfull)
  · exact .inr (.inr ⟨hsame, hafter.pool, hafter.scans, hafter.opened⟩)

theorem told_of_onCache {a : Action} (asked : OnCache a) : Told a := by
  cases a <;> first | exact trivial | exact absurd asked id

theorem Alike.grows {s s' : Session} (h : Alike s s') {a : Action} (asked : OnCache a) :
    s.pool.storage.Grows (Session.run a s).2.pool.storage := by
  have hdoes := run_does a h.pool.faithful.keyed
  refine grows_of_does (told_of_onCache asked) hdoes h.pool.faithful ?_
  rintro name columns schema rfl
  exact absurd asked id

/-! ## Whole runs -/

theorem play_append (begun rest : List Action) (s : Session) : play (begun ++ rest) s =
    ((play begun s).1 ++ (play rest (play begun s).2).1, (play rest (play begun s).2).2) := by
  induction begun generalizing s with
  | nil => rfl
  | cons a begun ih => simp only [List.cons_append, Session.play, ih]

theorem Alike.play {s s' : Session} (h : Alike s s') {actions : List Action}
    (asked : ∀ a ∈ actions, OnCache a) (room : ∀ r ∈ (play actions s).1, ¬ Step.full r)
    (room' : ∀ r ∈ (play actions s').1, ¬ Step.full r) :
    (play actions s).1 = (play actions s').1 ∧ Alike (play actions s).2 (play actions s').2 ∧
      s.pool.storage.Grows (play actions s).2.pool.storage := by
  induction actions generalizing s s' with
  | nil => exact ⟨rfl, h, .refl _⟩
  | cons a rest ih =>
    rw [List.forall_mem_cons] at asked
    obtain ⟨hroom, hrest⟩ := List.forall_mem_cons.mp room
    obtain ⟨hroom', hrest'⟩ := List.forall_mem_cons.mp room'
    rcases h.run asked.1 with hfull | hfull | ⟨hsame, hafter⟩
    · exact absurd hfull hroom
    · exact absurd hfull hroom'
    · obtain ⟨hanswers, hend, hgrows⟩ := ih hafter asked.2 hrest hrest'
      exact ⟨List.cons_eq_cons.mpr ⟨hsame, hanswers⟩, hend, (h.grows asked.1).trans hgrows⟩

/-- Bounds that hold in the end of one run held at every moment of both. -/
theorem begun_inWords {s s' : Session} (h : Alike s s') {begun rest : List Action}
    (asked : ∀ a ∈ begun ++ rest, OnCache a) (room : ∀ r ∈ (play (begun ++ rest) s).1, ¬ Step.full r)
    (room' : ∀ r ∈ (play (begun ++ rest) s').1, ¬ Step.full r)
    (inWords : (play (begun ++ rest) s).2.pool.storage.InWords) :
    (play begun s).2.pool.storage.InWords ∧ (play begun s').2.pool.storage.InWords := by
  rw [play_append] at room room' inWords
  rw [List.forall_mem_append] at asked room room'
  obtain ⟨-, hbegun, -⟩ := h.play asked.1 room.1 room'.1
  obtain ⟨-, -, hgrows⟩ := hbegun.play asked.2 room.2 room'.2
  have hwords := hgrows.inWords inWords
  exact ⟨hwords, hbegun.pool.storage ▸ hwords⟩

/-! ## The laws -/

/-- Two pools over the same tables, each with a file of its own, and of any two sizes: as long as neither
answers that there is no room, both give the same answers to the same actions, and leave the same locks
and the same bytes in all files. If words of a machine have room for all tables in the end, a machine
reads and writes the same at every moment, with either pool. -/
theorem the_size_of_the_cache_is_invisible {storage : Storage} (own : storage.OwnFiles)
    {config config' : Config} {pool pool' : Pool} (new : Pool.new storage config = .ok pool)
    (new' : Pool.new storage config' = .ok pool') {actions : List Action}
    (asked : ∀ a ∈ actions, OnCache a) (room : ∀ r ∈ (play actions { pool }).1, ¬ Step.full r)
    (room' : ∀ r ∈ (play actions { pool := pool' }).1, ¬ Step.full r)
    (inWords : (play actions { pool }).2.pool.storage.InWords) :
    (play actions { pool }).1 = (play actions { pool := pool' }).1 ∧
    (play actions { pool }).2.pool.locks = (play actions { pool := pool' }).2.pool.locks ∧
    (play actions { pool }).2.pool.disk = (play actions { pool := pool' }).2.pool.disk ∧
    ∀ begun, begun <+: actions → (play begun { pool }).2.pool.storage.SameInWords ∧
      (play begun { pool := pool' }).2.pool.storage.SameInWords := by
  have hfirst : Alike { pool } { pool := pool' } := ⟨Pool.alike_of_new own new new', rfl, rfl⟩
  obtain ⟨hanswers, hend, -⟩ := hfirst.play asked room room'
  refine ⟨hanswers, hend.pool.locks, hend.pool.disk, ?_⟩
  rintro begun ⟨rest, rfl⟩
  obtain ⟨hwords, hwords'⟩ := begun_inWords hfirst asked room room' inWords
  exact ⟨hwords.same, hwords'.same⟩

/-- A pool of some size over one empty table. -/
def poolOfSize (capacity : Nat) : Pool := { config := { capacity, pageSize := 64 }, storage := Storage.oneTable }

/-- Rows that fill a page of that table, one more row, and a look at the page that was filled. -/
def overTwoPages : List Action :=
  List.replicate 15 (.insert 7 1 [.int 5]) ++
    [.commit 7, .insert 7 1 [.int 6], .commit 7, .fetch 8 ⟨1, 0⟩ .shared none []]

/-- Where there is room for one page the first one is read in again, and where there is room for two it
is still there. -/
theorem a_page_read_in_again_is_the_page_kept :
    Storage.oneTable.OwnFiles ∧
    Pool.new Storage.oneTable { capacity := 1, pageSize := 64 } = .ok (poolOfSize 1) ∧
    Pool.new Storage.oneTable { capacity := 2, pageSize := 64 } = .ok (poolOfSize 2) ∧
    (∀ a ∈ overTwoPages, OnCache a) ∧
    (∀ r ∈ (play overTwoPages { pool := poolOfSize 1 }).1, ¬ Step.full r) ∧
    (∀ r ∈ (play overTwoPages { pool := poolOfSize 2 }).1, ¬ Step.full r) ∧
    (play overTwoPages { pool := poolOfSize 1 }).2.pool.storage.InWords ∧
    (play overTwoPages { pool := poolOfSize 1 }).2.pool.isCached ⟨1, 1⟩ = false ∧
    (play overTwoPages { pool := poolOfSize 2 }).2.pool.isCached ⟨1, 1⟩ = true ∧
    (play overTwoPages { pool := poolOfSize 1 }).1 = (play overTwoPages { pool := poolOfSize 2 }).1 := by
  have own := Storage.ownFiles_oneTable
  have new : Pool.new Storage.oneTable { capacity := 1, pageSize := 64 } = .ok (poolOfSize 1) := rfl
  have new' : Pool.new Storage.oneTable { capacity := 2, pageSize := 64 } = .ok (poolOfSize 2) := rfl
  have asked : ∀ a ∈ overTwoPages, OnCache a := by
    simp [overTwoPages, OnCache]
  have room : ∀ r ∈ (play overTwoPages { pool := poolOfSize 1 }).1, ¬ Step.full r := by decide +kernel
  have room' : ∀ r ∈ (play overTwoPages { pool := poolOfSize 2 }).1, ¬ Step.full r := by decide +kernel
  have inWords : (play overTwoPages { pool := poolOfSize 1 }).2.pool.storage.InWords := by decide +kernel
  have hgone : (play overTwoPages { pool := poolOfSize 1 }).2.pool.isCached ⟨1, 1⟩ = false := by
    decide +kernel
  have hkept : (play overTwoPages { pool := poolOfSize 2 }).2.pool.isCached ⟨1, 1⟩ = true := by
    decide +kernel
  exact ⟨own, new, new', asked, room, room', inWords, hgone, hkept,
    (the_size_of_the_cache_is_invisible own new new' asked room room' inWords).1⟩

end Session

end PageStore
