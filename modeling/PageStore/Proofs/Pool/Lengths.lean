-- What is asked of a pool makes no file shorter. A file keeps its length or gets one more
-- page at its end, and new tables come with empty files. So what stays true under these
-- three is true of every pool that was reached, and if a machine can number the pages of
-- the last pool it could all along.
import PageStore.Proofs.Pool.Ended

namespace PageStore

namespace Storage

/-- What is said of a storage stays true when files keep their lengths, when a file grows by a page and when
tables are added. -/
structure Lasting (K : Storage → Prop) : Prop where
  kept : ∀ s s', K s → s'.catalog = s.catalog → (∀ table file, s.catalog.tableFile? table = some file →
    (file.content s'.disk).length = (file.content s.disk).length) → K s'
  grown : ∀ s table file, K s → s.OwnFiles → s.catalog.tableFile? table = some file →
    K (s.placed file (file.numPages s.disk) (Bytes.zeros file.pageSize))
  added : ∀ s s', K s → s.Extends s' → K s'

theorem lasting_paged : Lasting Paged where
  kept s s' h catalog lengths := by
    refine h.of_lengths fun table file known => .inl ?_
    rw [catalog] at known
    exact ⟨known, lengths table file known⟩
  grown _ _ _ h own known := h.grown own known
  added s s' h more := by
    refine h.of_lengths fun table file known => ?_
    cases hold : s.catalog.tableFile? table with
    | none => exact .inr (more.fresh table file known hold)
    | some file' =>
      obtain ⟨known', hcontent⟩ := more.kept table file' hold
      obtain rfl : file' = file := Option.some.inj (known'.symm.trans known)
      exact .inl ⟨rfl, congrArg List.length hcontent⟩

/-- No table is forgotten, and the file of none becomes shorter. -/
def Grows (s s' : Storage) : Prop :=
  ∀ table file, s.catalog.tableFile? table = some file →
    s'.catalog.tableFile? table = some file ∧ (file.content s.disk).length ≤ (file.content s'.disk).length

theorem Grows.refl (s : Storage) : s.Grows s := fun _ _ known => ⟨known, Nat.le_refl _⟩

theorem Grows.trans {s s' s'' : Storage} (h : s.Grows s') (h' : s'.Grows s'') : s.Grows s'' := by
  intro table file known
  obtain ⟨known', hle⟩ := h table file known
  obtain ⟨known'', hle'⟩ := h' table file known'
  exact ⟨known'', Nat.le_trans hle hle'⟩

theorem lasting_grows (first : Storage) : Lasting first.Grows where
  kept s s' h catalog lengths := by
    intro table file known
    obtain ⟨hknown, hle⟩ := h table file known
    exact ⟨catalog ▸ hknown, lengths table file hknown ▸ hle⟩
  grown s grown file h own known := by
    intro other file' known'
    obtain ⟨hknown, hle⟩ := h other file' known'
    refine ⟨hknown, Nat.le_trans hle ?_⟩
    rw [content_placed own known hknown]
    split
    · rename_i heq
      subst heq
      obtain rfl : file = file' := Option.some.inj (known.symm.trans hknown)
      rw [PageFile.length_overwrite]
      exact Nat.le_max_left ..
    · exact Nat.le_refl _
  added s s' h more := by
    intro table file known
    obtain ⟨hknown, hle⟩ := h table file known
    obtain ⟨hknown', hcontent⟩ := more.kept table file hknown
    exact ⟨hknown', hcontent ▸ hle⟩

/-- New tables come with files of their own. -/
theorem grows_of_extends {s s' : Storage} (h : s.Extends s') : s.Grows s' :=
  (lasting_grows s).added s s' (.refl s) h

/-- Who can count the pages of the longer files can count those of the shorter ones. -/
theorem Grows.inWords {s s' : Storage} (h : s.Grows s') (inWords : s'.InWords) : s.InWords where
  sizes table file known := inWords.sizes table file (h table file known).1
  counted table file known := by
    obtain ⟨known', hle⟩ := h table file known
    exact Nat.lt_of_le_of_lt (Nat.div_le_div_right hle) (inWords.counted table file known')

end Storage

namespace Pool

open Storage

section Lasting

variable {K : Storage → Prop} (lasting : Lasting K)

include lasting

theorem Quiets.lasts {start : LockTable} {tx : TxId} {p q : Pool} (h : Quiets start tx p q)
    (hp : Faithful p) (hk : K p.storage) : K q.storage := by
  induction h with
  | refl => exact hk
  | tail moves move ih =>
    cases move with
    | look move =>
      cases move with
      | lock => exact ih
      | use => exact ih
      | drop => exact ih
      | load => exact ih
    | giveBack => exact ih
    | grow table file known => exact lasting.grown _ table file ih (Quiets.faithful moves hp).own known

theorem lasts_of_inserts {tx : TxId} {row : Row} {p q : Pool} {r : Except Error RecordId}
    (h : Inserts tx row p r q) (hp : Faithful p) (hk : K p.storage) : K q.storage := by
  cases r with
  | error e => exact Quiets.lasts lasting h hp hk
  | ok place =>
    obtain ⟨page, m, hmoves, hsets, -⟩ := h
    exact hsets.storage ▸ Quiets.lasts lasting hmoves hp hk

theorem flush_lasts (tx : TxId) {p : Pool} (hp : Faithful p) (hk : K p.storage) : K (flush tx p).2.storage := by
  obtain ⟨q, hq, hrun⟩ := flush_run tx hp
  rw [hrun]
  exact lasting.kept _ _ hk hq.catalog hq.lengths

theorem flushAll_lasts {p : Pool} (hp : Faithful p) (hk : K p.storage) : K (flushAll p).2.storage := by
  obtain ⟨q, hq, hrun⟩ := flushAll_run hp
  rw [hrun]
  exact lasting.kept _ _ hk hq.catalog hq.lengths

theorem complete_lasts (tx : TxId) (outcome : Outcome) {p : Pool} (hp : Faithful p) (hk : K p.storage) :
    K (complete tx outcome p).2.storage := by
  cases outcome with
  | commit =>
    obtain ⟨m, hm, hrun⟩ := commit_run tx hp
    rw [hrun, storage_withLocks]
    exact lasting.kept _ _ hk hm.catalog hm.lengths
  | abort =>
    obtain ⟨m, hm, hrun⟩ := abort_run tx hp
    rw [hrun, storage_withLocks, hm.storage]
    exact hk

omit lasting in
theorem storage_of_deletes {α : Type} {tx : TxId} {place : RecordId} {p q : Pool} {r : Except Error α}
    (h : Deletes tx place p r q) : q.storage = p.storage := by
  cases r with
  | error e => exact Looks.catalog h
  | ok answer =>
    obtain ⟨fields, page, m, hlooks, hsets⟩ := h
    exact hsets.storage.trans (Looks.catalog hlooks)

/-- One call, be it answered or refused. -/
theorem lasts_after {p : Pool} (hp : Sure p) (hk : K p.storage) {c : Call} (asked : Asked c) :
    K (p.after c).storage := by
  cases c with
  | fetch busy tx id mode =>
    have hlooks : Looks tx p (fetchBeside busy tx id mode p).2 := (fetchBeside_ends busy tx id mode p).1
    have hstorage : (p.after (.fetch busy tx id mode)).storage = p.storage := Looks.catalog hlooks
    exact hstorage ▸ hk
  | insert tx table row =>
    refine Step.Ends.mono (Q := fun _ q => K q.storage) (insert_ends tx table row hp.faithful.keyed) ?_
    exact fun r q h => lasts_of_inserts lasting h hp.faithful hk
  | delete tx row =>
    refine Step.Ends.mono (Q := fun _ q => K q.storage) (delete_ends tx row p) ?_
    rintro (e | ⟨⟩) q h
    · exact Looks.catalog h ▸ hk
    · obtain ⟨place, -, hdeletes⟩ := h
      exact storage_of_deletes (r := .ok ()) hdeletes ▸ hk
  | release => exact hk
  | flush tx => exact flush_lasts lasting tx hp.faithful hk
  | flushAll => exact flushAll_lasts lasting hp.faithful hk
  | complete tx outcome => exact complete_lasts lasting tx outcome hp.faithful hk
  | discard id =>
    have hstorage : (p.after (.discard id)).storage = p.storage := storage_discard p id
    exact hstorage ▸ hk
  | change => exact absurd asked id
  | elsewhere => exact absurd asked id

theorem Undisturbed.lasts {first p : Pool} (h : Undisturbed first p) (hfirst : Sure first)
    (hk : K first.storage) : K p.storage := by
  induction h with
  | start => exact hk
  | call before c asked ih => exact lasts_after lasting (before.sure hfirst) ih asked
  | moreTables before own more ih => exact lasting.added _ _ ih more

end Lasting

variable {first p : Pool}

theorem Undisturbed.paged (h : Undisturbed first p) (hfirst : Sure first) (hpaged : first.storage.Paged) :
    p.storage.Paged := h.lasts lasting_paged hfirst hpaged

theorem Undisturbed.grows (h : Undisturbed first p) (hfirst : Sure first) : first.storage.Grows p.storage :=
  h.lasts (lasting_grows _) hfirst (.refl _)

/-- It is enough to ask for the bounds in the end. -/
theorem Undisturbed.inWords (h : Undisturbed first p) (hfirst : Sure first) (inWords : p.storage.InWords) :
    first.storage.InWords := (h.grows hfirst).inWords inWords

theorem paged_of_new {storage : Storage} {config : Config} {pool : Pool} (paged : storage.Paged)
    (new : Pool.new storage config = .ok pool) : pool.storage.Paged := by
  obtain ⟨rfl, -, -⟩ := eq_of_new new
  exact paged

end Pool

end PageStore
