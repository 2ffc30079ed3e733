-- Pools in their ordinary state: tables and files as they were made, changed pages locked
-- by those who changed them, and pages in memory that are copies of those in the files.
-- Whatever transactions do, and whatever comes of it, a pool stays so.
import PageStore.Proofs.Pool.Settled
import PageStore.Proofs.Storage.Tables

namespace PageStore.Pool

structure Steady (p : Pool) : Prop where
  tidy : p.storage.Tidy
  positive : 0 < p.catalog.pageSize
  guarded : Guarded p
  faithful : Faithful p

/-- All tables have pages of the same size. -/
theorem Steady.pageSize_pos {p : Pool} (h : Steady p) {table : TableId} {file : TableFile}
    (known : p.catalog.tableFile? table = some file) : 0 < file.pageSize := by
  obtain ⟨entry, hentry, rfl⟩ := Storage.tableFile?_eq_some.mp known
  rw [(h.tidy.listed table entry hentry).size]
  exact h.positive

theorem pageSize_pos_of_valid {config : Config} (valid : config.validate = .ok ()) : 0 < config.pageSize := by
  unfold Config.validate at valid
  split at valid
  · cases valid
  · split at valid
    · cases valid
    · omega

theorem steady_of_new {storage : Storage} {config : Config} {p : Pool} (tidy : storage.Tidy)
    (new : Pool.new storage config = .ok p) : Steady p := by
  have hguarded := guarded_of_new new
  obtain ⟨rfl, valid, hsize⟩ := eq_of_new new
  refine ⟨tidy, ?_, hguarded, tidy.ownFiles, fun id page hpage => nomatch hpage⟩
  change 0 < storage.catalog.pageSize
  rw [hsize]
  exact pageSize_pos_of_valid valid

/-! ## Moves and changes -/

theorem Quiet.tidy {start : LockTable} {tx : TxId} {p q : Pool} (move : Quiet start tx p q)
    (h : p.storage.Tidy) : q.storage.Tidy := by
  cases move with
  | look move => cases move <;> exact h
  | giveBack => exact h
  | grow table file known => exact h.placed known _ _

theorem Quiets.tidy {start : LockTable} {tx : TxId} {p q : Pool} (moves : Quiets start tx p q)
    (h : p.storage.Tidy) : q.storage.Tidy := by
  induction moves with
  | refl => exact h
  | tail _ move ih => exact move.tidy ih

theorem Quiets.steady {tx : TxId} {p q : Pool} (moves : Quiets p.locks tx p q) (h : Steady p) :
    Steady q :=
  ⟨Quiets.tidy moves h.tidy, Quiets.catalog moves ▸ h.positive, Quiets.guarded moves h.guarded,
    Quiets.faithful moves h.faithful⟩

theorem Sets.steady {tx : TxId} {place : RecordId} {old new : Option (List Field)} {page : Page}
    {m q : Pool} (sets : Sets tx place old new page m q)
    (fit : ∀ fields, new = some fields → Row.Fit page.schema fields) (h : Steady m) : Steady q := by
  have hcatalog : q.catalog = m.catalog := congrArg Storage.catalog sets.storage
  exact ⟨sets.storage ▸ h.tidy, hcatalog ▸ h.positive, sets.guarded h.guarded, sets.faithful fit h.faithful⟩

/-! ## More tables -/

/-- Making a table, or failing to. -/
theorem createTable_steady (name : String) (schema : Schema) {p : Pool} (h : Steady p) :
    Steady { p with storage := (Storage.createTable name schema p.storage).2 } ∧
      Storage.Extends p.storage (Storage.createTable name schema p.storage).2 := by
  obtain ⟨htidy, hextends⟩ := Storage.createTable_ends name schema h.tidy
  have own := h.tidy.ownFiles
  have own' := htidy.ownFiles
  have hpositive : 0 < (Storage.createTable name schema p.storage).2.catalog.pageSize := by
    rw [hextends.pageSize]
    exact h.positive
  refine ⟨⟨htidy, hpositive, ⟨h.guarded.keyed, h.guarded.locks, h.guarded.owned⟩, ?_⟩, hextends⟩
  exact h.faithful.of_pages own' fun id page hpage =>
    .inl ⟨hpage, fun stored hstored => hextends.readPage own own' hstored⟩

/-! ## The end of a transaction -/

theorem tidy_putPage {s : Storage} (h : s.Tidy) (page : Page) :
    Storage.Tidy { s with disk := putPage s.catalog s.disk page } := by
  unfold Pool.putPage
  split
  · rename_i file bs known _
    exact h.placed known page.id.number bs
  · exact h

theorem tidy_putPages {s : Storage} (h : s.Tidy) (pages : List Page) :
    Storage.Tidy { s with disk := pages.foldl (putPage s.catalog) s.disk } := by
  induction pages generalizing s with
  | nil => exact h
  | cons page rest ih => exact ih (tidy_putPage h page)

/-- An end never fails. -/
theorem complete_faithful (tx : TxId) (outcome : Outcome) {p : Pool} (h : Faithful p) :
    (complete tx outcome p).1 = .ok () ∧ Faithful (complete tx outcome p).2 := by
  cases outcome with
  | commit =>
    obtain ⟨m, hm, hrun⟩ := commit_run tx h
    rw [hrun]
    exact ⟨rfl, hm.faithful.own, hm.faithful.pages⟩
  | abort =>
    obtain ⟨m, hm, hrun⟩ := abort_run tx h
    rw [hrun]
    exact ⟨rfl, hm.faithful.own, hm.faithful.pages⟩

theorem complete_steady (tx : TxId) (outcome : Outcome) {p : Pool} (h : Steady p) :
    Steady (complete tx outcome p).2 := by
  obtain ⟨hok, hfaithful⟩ := complete_faithful tx outcome h.faithful
  have hguarded := guarded_of_complete h.guarded hok
  have hstorage : (complete tx outcome p).2.storage.Tidy ∧
      (complete tx outcome p).2.catalog = p.catalog := by
    cases outcome with
    | commit =>
      obtain ⟨m, hm, hrun⟩ := commit_run tx h.faithful
      rw [hrun]
      refine ⟨?_, hm.catalog⟩
      rw [storage_withLocks, hm.storage]
      exact tidy_putPages h.tidy _
    | abort =>
      obtain ⟨m, hm, hrun⟩ := abort_run tx h.faithful
      rw [hrun]
      refine ⟨?_, congrArg Storage.catalog hm.storage⟩
      rw [storage_withLocks, hm.storage]
      exact h.tidy
  exact ⟨hstorage.1, hstorage.2 ▸ h.positive, hguarded, hfaithful⟩

end PageStore.Pool
