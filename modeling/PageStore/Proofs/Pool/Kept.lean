-- How a pool keeps a ledger. The files hold the committed rows, and nothing else; a
-- page in memory holds the committed rows with the changes of the one transaction
-- whose mark it has. Each move of a transaction, each change, and each end of a
-- transaction keeps this.
import PageStore.Proofs.Ledger
import PageStore.Proofs.Pool.Steady

namespace PageStore.Pool

/-- Who changed the page in memory, if it is there and changed. -/
def changer? (p : Pool) (id : PageId) : Option TxId := (p.page? id).bind Page.dirtiedBy

/-- The row at a place: of the page in memory, or else of the one in its file. -/
def rowAt? (p : Pool) (place : RecordId) : Option (List Field) :=
  match p.page? place.page with
  | some page => page.fieldsAt place.slot
  | none => p.storage.rowAt? place

/-- What carries the ledger from one action to the next. -/
structure Keeps (p : Pool) (l : Ledger) : Prop extends Steady p where
  whole : p.storage.Whole
  stored : ∀ place, p.storage.rowAt? place = l.committed place
  dirty : ∀ id page tx, p.page? id = some page → page.dirtiedBy = some tx →
    ∀ slot, page.fieldsAt slot = l.committed.after (l.changes tx) ⟨id, slot⟩
  noted : ∀ tx, ∀ c ∈ l.changes tx, ∃ page, p.page? c.place.page = some page ∧ page.dirtiedBy = some tx

/-- A transaction has changed nothing on a page that does not have its mark. -/
theorem Keeps.unchanged {p : Pool} {l : Ledger} (h : Keeps p l) {tx : TxId} {id : PageId}
    (hid : ∀ page, p.page? id = some page → page.dirtiedBy ≠ some tx) (rows : Rows) (slot : Nat) :
    rows.after (l.changes tx) ⟨id, slot⟩ = rows ⟨id, slot⟩ := by
  apply Rows.after_of_other
  intro c hc heq
  obtain ⟨page, hpage, hdirty⟩ := h.noted tx c hc
  rw [heq] at hpage
  exact hid page hpage hdirty

/-- A new directory has no rows, and so has an empty ledger. -/
theorem keeps_new (directory : String) {config : Config} {p : Pool}
    (new : Pool.new { catalog := { onDisk := true, pageSize := config.pageSize }, disk := { directory } }
      config = .ok p) : Keeps p {} := by
  have hsteady := steady_of_new (Storage.tidy_new directory config.pageSize) new
  obtain ⟨rfl, -, -⟩ := eq_of_new new
  refine ⟨hsteady, ⟨?_, ?_⟩, fun _ => rfl, ?_, ?_⟩
  · intro table file known
    cases known
  · intro table file n known
    cases known
  · intro id page tx hpage
    cases hpage
  · intro tx c hc
    cases hc

/-! ## Quiet moves -/

theorem Quiet.keeps_storage {start : LockTable} {tx : TxId} {p q : Pool} (move : Quiet start tx p q)
    {l : Ledger} (h : Keeps p l) : q.storage.Whole ∧
      ∀ place, q.storage.rowAt? place = p.storage.rowAt? place := by
  cases move with
  | look move => cases move <;> exact ⟨h.whole, fun _ => rfl⟩
  | giveBack => exact ⟨h.whole, fun _ => rfl⟩
  | grow table file known =>
    exact ⟨h.whole.grown h.faithful.own known (h.pageSize_pos known),
      fun place => Storage.rowAt?_grown h.faithful.own known place⟩

theorem Quiets.keeps {tx : TxId} {p q : Pool} (hmoves : Quiets p.locks tx p q) {l : Ledger}
    (h : Keeps p l) : Keeps q l := by
  induction hmoves with
  | refl => exact h
  | @tail m q moves move ih =>
    obtain ⟨hwhole, hrows⟩ := move.keeps_storage ih
    have hsame : SameDirty m q := move.sameDirty
    have hsteady : Steady q := Quiets.steady (moves.tail move) h.toSteady
    refine ⟨hsteady, hwhole, fun place => (hrows place).trans (ih.stored place), ?_, ?_⟩
    · intro id page u hpage hdirty
      exact ih.dirty id page u ((hsame id page u hdirty).mpr hpage) hdirty
    · intro u c hc
      obtain ⟨page, hpage, hdirty⟩ := ih.noted u c hc
      exact ⟨page, (hsame _ page u hdirty).mp hpage, hdirty⟩

theorem Looks.keeps {tx : TxId} {p q : Pool} (hmoves : Looks tx p q) {l : Ledger} (h : Keeps p l) :
    Keeps q l := Quiets.keeps (Quiets.of_looks hmoves) h

/-! ## Changes -/

/-- A page that nobody but `tx` may have changed holds the committed rows with the changes of `tx`. -/
theorem Keeps.fieldsAt {m : Pool} {l : Ledger} (h : Keeps m l) {tx : TxId} {id : PageId} {page : Page}
    (hpage : m.page? id = some page) (hmine : ∀ u, page.dirtiedBy = some u → u = tx) (slot : Nat) :
    page.fieldsAt slot = l.committed.after (l.changes tx) ⟨id, slot⟩ := by
  cases hd : page.dirtiedBy with
  | some u =>
    obtain rfl := hmine u hd
    exact h.dirty id page u hpage hd slot
  | none =>
    have hrow : m.storage.rowAt? ⟨id, slot⟩ = page.fieldsAt slot :=
      Storage.rowAt?_of_ok (h.faithful.clean hpage hd)
    have hnot : ∀ page', m.page? id = some page' → page'.dirtiedBy ≠ some tx := by
      intro page' hpage'
      rw [hpage, Option.some.injEq] at hpage'
      simp [← hpage', hd]
    rw [h.unchanged hnot, ← h.stored, hrow]

/-- All changes that are noted are on pages with the mark of their transaction. -/
theorem Sets.noted {tx : TxId} {place : RecordId} {old new : Option (List Field)} {page : Page}
    {m q : Pool} (hsets : Sets tx place old new page m q) {l : Ledger} (h : Keeps m l) (u : TxId) :
    ∀ c ∈ (l.note tx ⟨place, new⟩).changes u,
      ∃ page', q.page? c.place.page = some page' ∧ page'.dirtiedBy = some u := by
  -- The page has the mark of `tx` now, and had no other one before.
  have hthere : ∃ page', q.page? place.page = some page' ∧ page'.dirtiedBy = some tx :=
    ⟨_, (hsets.page? place.page).trans (if_pos rfl), rfl⟩
  intro c hc
  simp only [Ledger.note, Ledger.changes_withChanges] at hc
  have hcase : (u = tx ∧ c.place = place) ∨ c ∈ l.changes u := by
    split at hc
    · rename_i hu
      rcases List.mem_append.mp hc with hold | hnew
      · exact .inr (hu ▸ hold)
      · exact .inl ⟨hu, congrArg Change.place (List.mem_singleton.mp hnew)⟩
    · exact .inr hc
  rcases hcase with ⟨rfl, rfl⟩ | hold
  · exact hthere
  · obtain ⟨page', hpage', hdirty⟩ := h.noted u c hold
    by_cases heq : place.page = c.place.page
    · rw [← heq, hsets.there, Option.some.injEq] at hpage'
      rw [← hpage'] at hdirty
      rw [← heq, hsets.mark_eq h.guarded hdirty]
      exact hthere
    · refine ⟨page', ?_, hdirty⟩
      rw [hsets.page?, if_neg heq]
      exact hpage'

/-- One slot is set, and the ledger notes it. -/
theorem Sets.keeps {tx : TxId} {place : RecordId} {old new : Option (List Field)} {page : Page}
    {m q : Pool} (hsets : Sets tx place old new page m q)
    (hfit : ∀ fields, new = some fields → Row.Fit page.schema fields) {l : Ledger} (h : Keeps m l) :
    Keeps q (l.note tx ⟨place, new⟩) := by
  have hstorage := hsets.storage
  refine ⟨hsets.steady hfit h.toSteady, hstorage ▸ h.whole, ?_, ?_, hsets.noted h⟩
  · intro other
    rw [hstorage]
    exact h.stored other
  · intro id page' u hpage hdirty slot
    rw [hsets.page?] at hpage
    split at hpage
    · rename_i heq
      cases hpage
      cases hdirty
      subst heq
      rw [Page.fieldsAt_mark, Page.fieldsAt_withSlot hsets.slot,
        h.fieldsAt hsets.there (fun _ => hsets.mark_eq h.guarded)]
      simp only [Ledger.note, Ledger.changes_withChanges, if_true, Ledger.committed_withChanges,
        Rows.after_append, Rows.set_on_page]
    · rename_i hne
      rw [h.dirty id page' u hpage hdirty]
      simp only [Ledger.note, Ledger.changes_withChanges, Ledger.committed_withChanges]
      split
      · rename_i hu
        rw [hu, Rows.after_append, Rows.set_on_other_page _ _ hne]
      · rfl

/-! ## More tables -/

theorem createTable_keeps (name : String) (schema : Schema) {p : Pool} {l : Ledger} (h : Keeps p l) :
    Keeps { p with storage := (Storage.createTable name schema p.storage).2 } l := by
  obtain ⟨hsteady, hextends⟩ := createTable_steady name schema h.toSteady
  have own := h.tidy.ownFiles
  have own' := hsteady.tidy.ownFiles
  refine ⟨hsteady, hextends.whole own own' h.whole, ?_, h.dirty, h.noted⟩
  intro place
  rw [← h.stored place]
  exact hextends.rowAt? own own' (fun _ _ known => hsteady.pageSize_pos known) place

/-! ## The end of a transaction -/

theorem Written.whole {visit : List PageId} {p q : Pool} (h : Written visit p q) (hp : Faithful p)
    (hw : p.storage.Whole) : q.storage.Whole := by
  refine hw.of_reads ?_ ?_
  · intro table file known
    rw [show q.storage.catalog = p.storage.catalog from h.catalog] at known
    exact .inl ⟨known, h.lengths table file known⟩
  · intro id page hread
    by_cases hid : id ∈ visit
    · cases hpage : p.page? id with
      | some page' => exact ⟨_, (h.visited hp hid hpage).2.2⟩
      | none =>
        refine ⟨page, (h.others id fun _ => ?_).trans hread⟩
        rw [dirty?, hpage]
        rfl
    · exact ⟨page, (h.unvisited hid).2.trans hread⟩

/-- When `tx` ends, the changed pages that are left are those of others, as they were. -/
def Leaves (tx : TxId) (p q : Pool) : Prop :=
  ∀ id page u, page.dirtiedBy = some u → (q.page? id = some page ↔ p.page? id = some page ∧ u ≠ tx)

theorem leaves_of_dirty? {tx : TxId} {p q : Pool}
    (h : ∀ id, q.dirty? id = if id ∈ p.dirtiedBy tx then none else p.dirty? id) : Leaves tx p q := by
  intro id page u hdirty
  rw [← dirty?_eq_some_of_mark hdirty, ← dirty?_eq_some_of_mark hdirty, h]
  split
  · rename_i hmem
    constructor
    · intro hnone
      cases hnone
    · -- A page of the list has the mark of `tx`.
      rintro ⟨hpage, hu⟩
      obtain ⟨page', hpage', hdirty'⟩ := mem_dirtiedBy.mp hmem
      rw [(dirty?_eq_some.mp hpage).1, Option.some.injEq] at hpage'
      rw [hpage', hdirty'] at hdirty
      exact absurd (Option.some.inj hdirty).symm hu
  · rename_i hmem
    constructor
    · intro hpage
      refine ⟨hpage, ?_⟩
      rintro rfl
      exact hmem (mem_dirtiedBy.mpr ⟨page, (dirty?_eq_some.mp hpage).1, hdirty⟩)
    · exact And.left

/-- The changes of others are noted as before. -/
theorem Leaves.noted {tx : TxId} {p q : Pool} (hleaves : Leaves tx p q) {l : Ledger} (h : Keeps p l)
    (u : TxId) : ∀ c ∈ (l.withChanges tx []).changes u,
      ∃ page, q.page? c.place.page = some page ∧ page.dirtiedBy = some u := by
  intro c hc
  rw [Ledger.changes_withChanges] at hc
  split at hc
  · cases hc
  · rename_i hu
    obtain ⟨page, hpage, hdirty⟩ := h.noted u c hc
    exact ⟨page, (hleaves _ page u hdirty).mpr ⟨hpage, hu⟩, hdirty⟩

/-- The files after the pages of `tx` were written. -/
theorem Written.rowAt? {tx : TxId} {p m : Pool} (hm : Written (p.dirtiedBy tx) p m) {l : Ledger}
    (h : Keeps p l) (place : RecordId) :
    m.storage.rowAt? place = l.committed.after (l.changes tx) place := by
  by_cases hid : place.page ∈ p.dirtiedBy tx
  · obtain ⟨page, hpage, hdirty⟩ := mem_dirtiedBy.mp hid
    obtain ⟨-, -, hread⟩ := hm.visited h.faithful hid hpage
    rw [Storage.rowAt?_of_ok hread, fieldsAt_settled]
    exact h.dirty _ page tx hpage hdirty place.slot
  · have hnot : ∀ page, p.page? place.page = some page → page.dirtiedBy ≠ some tx :=
      fun page hpage hdirty => hid (mem_dirtiedBy.mpr ⟨page, hpage, hdirty⟩)
    rw [h.unchanged hnot, ← h.stored, Storage.rowAt?, (hm.unvisited hid).2, Storage.rowAt?]

/-- After a commit the files hold the rows with the changes of the transaction. -/
theorem commit_keeps (tx : TxId) {p : Pool} {l : Ledger} (h : Keeps p l) :
    (complete tx .commit p).1 = .ok () ∧ Keeps (complete tx .commit p).2 (l.commit tx) := by
  obtain ⟨m, hm, hrun⟩ := commit_run tx h.faithful
  have hsteady := complete_steady tx .commit h.toSteady
  have hleaves : Leaves tx p m := leaves_of_dirty? (hm.dirty?_eq h.faithful)
  rw [hrun] at hsteady ⊢
  refine ⟨rfl, hsteady, hm.whole h.faithful h.whole, hm.rowAt? h, ?_, hleaves.noted h⟩
  intro id page u hpage hdirty slot
  obtain ⟨hbefore, hu⟩ := (hleaves id page u hdirty).mp hpage
  have hnot : ∀ page', p.page? id = some page' → page'.dirtiedBy ≠ some tx := by
    intro page' hpage' hmine
    rw [hbefore, Option.some.injEq] at hpage'
    rw [hpage', hmine] at hdirty
    exact hu (Option.some.inj hdirty).symm
  rw [h.dirty id page u hbefore hdirty slot]
  simp only [Ledger.commit, Ledger.changes_withChanges, if_neg hu]
  exact Rows.after_congr (h.unchanged hnot l.committed slot).symm _

/-- After an abort the files are as before, and nothing is left of the changes of the transaction. -/
theorem abort_keeps (tx : TxId) {p : Pool} {l : Ledger} (h : Keeps p l) :
    (complete tx .abort p).1 = .ok () ∧ Keeps (complete tx .abort p).2 (l.abort tx) := by
  obtain ⟨m, hm, hrun⟩ := abort_run tx h.faithful
  have hsteady := complete_steady tx .abort h.toSteady
  have hleaves : Leaves tx p m := leaves_of_dirty? (hm.dirty?_eq h.faithful)
  rw [hrun] at hsteady ⊢
  refine ⟨rfl, hsteady, hm.storage ▸ h.whole, ?_, ?_, hleaves.noted h⟩
  · intro place
    rw [storage_withLocks, hm.storage]
    exact h.stored place
  · intro id page u hpage hdirty slot
    obtain ⟨hbefore, hu⟩ := (hleaves id page u hdirty).mp hpage
    rw [h.dirty id page u hbefore hdirty slot]
    simp only [Ledger.abort, Ledger.changes_withChanges, if_neg hu, Ledger.committed_withChanges]

/-! ## What the ledger says -/

/-- The files are made of pages that can be read and hold the committed rows; the pages as they are in
memory hold these rows with the changes of the transaction that changed them, if one did; and no
transaction has noted a change on any other page. -/
structure Recorded (p : Pool) (l : Ledger) : Prop where
  whole : p.storage.Whole
  stored : ∀ place, p.storage.rowAt? place = l.committed place
  held : ∀ place, p.rowAt? place = l.rowsFor (p.changer? place.page) place
  noted : ∀ tx, ∀ c ∈ l.changes tx, p.changer? c.place.page = some tx

theorem Keeps.recorded {p : Pool} {l : Ledger} (h : Keeps p l) : Recorded p l := by
  refine ⟨h.whole, h.stored, ?_, ?_⟩
  · intro place
    unfold Pool.rowAt? changer?
    cases hpage : p.page? place.page with
    | none => exact h.stored place
    | some page =>
      simp only [Option.bind_some]
      cases hd : page.dirtiedBy with
      | none =>
        have hrow : p.storage.rowAt? place = page.fieldsAt place.slot :=
          Storage.rowAt?_of_ok (h.faithful.clean hpage hd)
        exact hrow.symm.trans (h.stored place)
      | some tx => exact h.dirty place.page page tx hpage hd place.slot
  · intro tx c hc
    obtain ⟨page, hpage, hdirty⟩ := h.noted tx c hc
    rw [changer?, hpage]
    exact hdirty

end PageStore.Pool
