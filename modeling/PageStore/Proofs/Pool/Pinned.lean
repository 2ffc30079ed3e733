-- Pages that a transaction has read and keeps locked. As long as it changes no row of their
-- table and does not end they are to be seen as they were, whatever else is done to the
-- pool. So who reads the table again comes to the same pages first, and behind them only
-- to pages that the table did not have before.
import PageStore.Proofs.Pool.Lengths
import PageStore.Proofs.Pool.Steady
import PageStore.Proofs.Pool.TwoPhase

namespace PageStore

namespace Pool

open LockTable

/-- These are the first pages of a table, as they are to be seen, and the transaction has them locked. -/
structure Pinned (tx : TxId) (table : TableId) (pages : List Page) (p : Pool) : Prop where
  seen : ∀ n page, pages[n]? = some page → p.seen ⟨table, n⟩ = .ok page
  locked : ∀ n page, pages[n]? = some page → covers (p.locks.mode? tx ⟨table, n⟩) .shared = true

variable {tx : TxId} {table : TableId} {pages before : List Page} {p q : Pool}

theorem pinned_nil (tx : TxId) (table : TableId) (p : Pool) : Pinned tx table [] p :=
  ⟨fun _ _ h => (nomatch h), fun _ _ h => (nomatch h)⟩

theorem Pinned.mono (h : Pinned tx table pages p)
    (seen : ∀ n page, p.seen ⟨table, n⟩ = .ok page →
      covers (p.locks.mode? tx ⟨table, n⟩) .shared = true → q.seen ⟨table, n⟩ = .ok page)
    (locked : ∀ n, covers (p.locks.mode? tx ⟨table, n⟩) .shared = true →
      covers (q.locks.mode? tx ⟨table, n⟩) .shared = true) : Pinned tx table pages q :=
  ⟨fun n page hn => seen n page (h.seen n page hn) (h.locked n page hn),
    fun n page hn => locked n (h.locked n page hn)⟩

/-- One more page that was read and is locked. -/
theorem Pinned.push (h : Pinned tx table pages p) {page : Page}
    (seen : p.seen ⟨table, pages.length⟩ = .ok page)
    (locked : covers (p.locks.mode? tx ⟨table, pages.length⟩) .shared = true) :
    Pinned tx table (pages ++ [page]) p := by
  have hcases : ∀ n other, (pages ++ [page])[n]? = some other →
      pages[n]? = some other ∨ n = pages.length ∧ page = other := by
    intro n other hn
    rcases Nat.lt_trichotomy n pages.length with hlt | heq | hgt
    · left
      rwa [List.getElem?_append_left hlt] at hn
    · right
      subst heq
      simpa using hn
    · rw [List.getElem?_eq_none (by simp; omega)] at hn
      cases hn
  constructor
  · intro n other hn
    rcases hcases n other hn with hold | ⟨rfl, rfl⟩
    · exact h.seen n other hold
    · exact seen
  · intro n other hn
    rcases hcases n other hn with hold | ⟨rfl, rfl⟩
    · exact h.locked n other hold
    · exact locked

/-! ## Where the pages are -/

theorem id_of_seen (keyed : Keyed p) {id : PageId} {page : Page} (h : p.seen id = .ok page) : page.id = id := by
  cases hcached : p.page? id with
  | some cached =>
    rw [seen_of_page hcached] at h
    exact Except.ok.inj h ▸ keyed id cached hcached
  | none => exact Storage.id_of_readPage (seen_of_absent hcached ▸ h)

theorem Pinned.length_le (h : Pinned tx table pages p) (hp : Faithful p) {file : TableFile}
    (known : p.catalog.tableFile? table = some file) (hpos : 0 < file.pageSize) :
    pages.length ≤ file.numPages p.disk := by
  cases hlast : pages.length with
  | zero => exact Nat.zero_le _
  | succ last =>
    have hlt : last < pages.length := by omega
    have hseen := h.seen last pages[last] (List.getElem?_eq_getElem hlt)
    exact (inFile_of_seen hp known hseen).number_lt hpos

/-- Of two such lists the longer one begins with the other. -/
theorem Pinned.begins (h : Pinned tx table pages p) (hbefore : Pinned tx table before p)
    (hlength : before.length ≤ pages.length) : ∃ more, pages = before ++ more := by
  have hprefix : before <+: pages := by
    rw [List.prefix_iff_getElem?]
    intro n hn
    have hlt : n < pages.length := by omega
    have hold := hbefore.seen n before[n] (List.getElem?_eq_getElem hn)
    have hnew := h.seen n pages[n] (List.getElem?_eq_getElem hlt)
    rw [hold] at hnew
    rw [List.getElem?_eq_getElem hlt, Except.ok.inj hnew]
  obtain ⟨more, hmore⟩ := hprefix
  exact ⟨more, hmore.symm⟩

/-- The rows behind the first pages lie on pages of higher numbers. -/
theorem Pinned.place_of_mem {more : List Page} (h : Pinned tx table (before ++ more) p) (keyed : Keyed p)
    {row : Row} (hrow : row ∈ more.flatMap Page.rows) : ∃ place, row.place = some place ∧
      place.page.table = table ∧ before.length ≤ place.page.number ∧
      place.page.number < (before ++ more).length := by
  obtain ⟨page, hpage, hrow⟩ := List.mem_flatMap.mp hrow
  obtain ⟨n, hn⟩ := List.getElem?_of_mem hpage
  have hat : (before ++ more)[before.length + n]? = some page := by
    rw [List.getElem?_append_right (by omega)]
    simpa using hn
  obtain ⟨slot, hplace⟩ := Page.place_of_mem_rows hrow
  have hid := id_of_seen keyed (h.seen _ page hat)
  have hlt : before.length + n < (before ++ more).length := (List.getElem?_eq_some_iff.mp hat).1
  refine ⟨_, hplace, ?_, ?_, ?_⟩
  · rw [hid]
  · rw [hid]
    exact Nat.le_add_right _ _
  · rwa [hid]

/-! ## What is done beside -/

/-- What neither changes a row of the table for the transaction nor ends the transaction. -/
inductive Apart (tx : TxId) (table : TableId) (p q : Pool) : Prop where
  | quiet (u : TxId) (moves : Quiets p.locks u p q)
  | change (u : TxId) {place : RecordId} {old new : Option (List Field)} {page : Page} {m : Pool}
      (moves : Quiets p.locks u p m) (sets : Sets u place old new page m q)
      (fit : ∀ fields, new = some fields → Row.Fit page.schema fields)
      (elsewhere : u = tx → place.page.table ≠ table)
  | create (name : String) (schema : Schema)
      (result : q = { p with storage := (Storage.createTable name schema p.storage).2 })
  | complete (u : TxId) (other : u ≠ tx) (outcome : Outcome) (result : q = (complete u outcome p).2)

theorem apart_refl (tx : TxId) (table : TableId) (p : Pool) : Apart tx table p p := .quiet tx .refl

theorem Apart.steady (h : Apart tx table p q) (hp : Steady p) : Steady q := by
  cases h with
  | quiet u moves => exact Quiets.steady moves hp
  | change u moves sets fit => exact sets.steady fit (Quiets.steady moves hp)
  | create name schema result => exact result ▸ (createTable_steady name schema hp).1
  | complete u _ outcome result => exact result ▸ complete_steady u outcome hp

/-- No file becomes shorter. -/
theorem Apart.grows (h : Apart tx table p q) (hp : Steady p) : p.storage.Grows q.storage := by
  have lasting := Storage.lasting_grows p.storage
  cases h with
  | quiet u moves => exact Quiets.lasts lasting moves hp.faithful (.refl _)
  | change u moves sets => exact sets.storage ▸ Quiets.lasts lasting moves hp.faithful (.refl _)
  | create name schema result =>
    subst result
    exact Storage.grows_of_extends (createTable_steady name schema hp).2
  | complete u _ outcome result => exact result ▸ complete_lasts lasting u outcome hp.faithful (.refl _)

theorem Pinned.quiets (h : Pinned tx table pages p) (faithful : Faithful p) (locks : p.locks.WellKept)
    {u : TxId} (moves : Quiets p.locks u p q) : Pinned tx table pages q := by
  obtain ⟨-, hgrows⟩ := Quiets.grows moves locks
  apply h.mono
  · intro n page hseen _
    exact Quiets.seen moves faithful hseen
  · intro n hlocked
    exact hgrows.kept tx _ _ hlocked

/-- The page behind the first ones was read. -/
theorem Pinned.read (h : Pinned tx table pages p) (faithful : Faithful p) (locks : p.locks.WellKept)
    {page : Page} (run : fetch tx ⟨table, pages.length⟩ .shared p = (.ok page, q)) :
    Pinned tx table (pages ++ [page]) q := by
  obtain ⟨hpage, hcovers⟩ := got_of_fetch run
  have hkept := h.quiets faithful locks (Quiets.of_looks (looks_of_fetch run))
  exact hkept.push (seen_of_page hpage) hcovers

/-- Who changes a page has it locked alone, and so does not change the pages that another one has locked. -/
theorem Pinned.sets (h : Pinned tx table pages p) (hp : Steady p) {u : TxId} {place : RecordId}
    {old new : Option (List Field)} {page : Page} (sets : Sets u place old new page p q)
    (elsewhere : u = tx → place.page.table ≠ table) : Pinned tx table pages q := by
  apply h.mono
  · intro n other hseen hlocked
    rw [sets.seen, hseen]
    intro heq
    have hheld : p.locks.mode? tx place.page ≠ none := heq ▸ ne_none_of_covers hlocked
    have hsame : tx = u := only_holder hp.guarded.locks sets.locked hheld
    exact elsewhere hsame.symm (by rw [heq])
  · intro n hlocked
    rwa [sets.locks]

theorem Pinned.create (h : Pinned tx table pages p) (hp : Steady p) (name : String) (schema : Schema) :
    Pinned tx table pages { p with storage := (Storage.createTable name schema p.storage).2 } := by
  obtain ⟨hsteady, hextends⟩ := createTable_steady name schema hp
  generalize hq : ({ p with storage := (Storage.createTable name schema p.storage).2 } : Pool) = q at hsteady ⊢
  have hpage : ∀ id, q.page? id = p.page? id := by
    subst hq
    exact fun _ => rfl
  have hstorage : q.storage = (Storage.createTable name schema p.storage).2 := by rw [← hq]
  rw [← hstorage] at hextends
  apply h.mono
  · intro n page hseen _
    cases hcached : p.page? ⟨table, n⟩ with
    | some cached =>
      rw [← hseen, seen_of_page hcached]
      exact seen_of_page ((hpage _).trans hcached)
    | none =>
      rw [seen_of_absent hcached] at hseen
      rw [seen_of_absent ((hpage _).trans hcached)]
      exact hextends.readPage hp.tidy.ownFiles hsteady.tidy.ownFiles hseen
  · intro n hlocked
    subst hq
    exact hlocked

/-- A transaction that ends shows its changes only on pages that nobody else has locked. -/
theorem Pinned.complete (h : Pinned tx table pages p) (hp : Steady p) {u : TxId} (other : u ≠ tx)
    (outcome : Outcome) : Pinned tx table pages (Pool.complete u outcome p).2 := by
  apply h.mono
  · intro n page hseen hlocked
    rw [complete_seen u outcome hp.faithful, hseen]
    intro hdirty
    obtain ⟨changed, hchanged, hmark⟩ := mem_dirtiedBy.mp hdirty
    have howner := hp.guarded.owned _ changed u hchanged hmark
    exact other (only_holder hp.guarded.locks howner (ne_none_of_covers hlocked)).symm
  · intro n hlocked
    rwa [complete_mode? u outcome hp.guarded.keyed hp.guarded.locks, if_neg (Ne.symm other)]

theorem Apart.pinned (h : Apart tx table p q) (hp : Steady p) (pinned : Pinned tx table pages p) :
    Pinned tx table pages q := by
  cases h with
  | quiet u moves => exact pinned.quiets hp.faithful hp.guarded.locks moves
  | change u moves sets _ elsewhere =>
    have hkept := pinned.quiets hp.faithful hp.guarded.locks moves
    exact hkept.sets (Quiets.steady moves hp) sets elsewhere
  | create name schema result => exact result ▸ pinned.create hp name schema
  | complete u other outcome result => exact result ▸ pinned.complete hp other outcome

end Pool

/-! ## Scans -/

namespace Scan

open Pool

/-- What is known of a scan that read the first pages of a table: these are their rows, and the pages are
pinned, as the pages of a scan before it are. -/
structure Reads (tx : TxId) (table : TableId) (before : List Page) (n : Nat) (rows : List Row)
    (p : Pool) : Prop where
  steady : Steady p
  before : Pinned tx table before p
  pages : ∃ pages, pages.length = n ∧ rows = pages.flatMap Page.rows ∧ Pinned tx table pages p

variable {tx : TxId} {table : TableId} {before : List Page} {n : Nat} {rows : List Row} {p q : Pool}

theorem reads_start (steady : Steady p) (pinned : Pinned tx table before p) :
    Reads tx table before 0 [] p := ⟨steady, pinned, [], rfl, rfl, pinned_nil tx table p⟩

theorem Reads.apart (h : Reads tx table before n rows p) (apart : Apart tx table p q) :
    Reads tx table before n rows q := by
  obtain ⟨pages, hlength, hrows, hpinned⟩ := h.pages
  exact ⟨apart.steady h.steady, apart.pinned h.steady h.before, pages, hlength, hrows,
    apart.pinned h.steady hpinned⟩

theorem walk_reads (tx : TxId) (table : TableId) (before : List Page) :
    Walk tx table (Reads tx table before) where
  got n rows p page q h hrun := by
    obtain ⟨hsteady, hbefore, pages, rfl, rfl, hpinned⟩ := h
    have hapart : Apart tx table p q := .quiet tx (Quiets.of_looks (looks_of_fetch hrun))
    refine ⟨hapart.steady hsteady, hapart.pinned hsteady hbefore, pages ++ [page], ?_, ?_, ?_⟩
    · simp
    · simp
    · exact hpinned.read hsteady.faithful hsteady.guarded.locks hrun
  notGot n rows p e q h hrun := h.apart (.quiet tx (Quiets.of_looks (looks_of_fetch hrun)))

/-- A scan that read all pages left all of them pinned. -/
theorem Complete.pinned (h : Complete table (Reads tx table before) rows p) :
    ∃ file pages, p.catalog.tableFile? table = some file ∧ file.numPages p.disk ≤ pages.length ∧
      rows = pages.flatMap Page.rows ∧ Pinned tx table pages p := by
  obtain ⟨n, file, ⟨-, -, pages, rfl, hrows, hpinned⟩, known, hnum⟩ := h
  exact ⟨file, pages, known, hnum, hrows, hpinned⟩

/-- Its rows begin with those of the pages that were read before. -/
theorem Complete.continues (h : Complete table (Reads tx table before) rows p) :
    ∃ file more, p.catalog.tableFile? table = some file ∧ rows = before.flatMap Page.rows ++ more ∧
      ∀ row ∈ more, ∃ place, row.place = some place ∧ place.page.table = table ∧
        before.length ≤ place.page.number ∧ place.page.number < file.numPages p.disk := by
  obtain ⟨n, file, ⟨hsteady, hbefore, pages, rfl, rfl, hpinned⟩, known, hnum⟩ := h
  have hfirst := hbefore.length_le hsteady.faithful known (hsteady.pageSize_pos known)
  have hlength : before.length ≤ pages.length := by omega
  obtain ⟨more, rfl⟩ := hpinned.begins hbefore hlength
  have hlast := hpinned.length_le hsteady.faithful known (hsteady.pageSize_pos known)
  refine ⟨file, more.flatMap Page.rows, known, List.flatMap_append, fun row hrow => ?_⟩
  obtain ⟨place, hplace, htable, hbehind, hlt⟩ := hpinned.place_of_mem hsteady.guarded.keyed hrow
  exact ⟨place, hplace, htable, hbehind, Nat.lt_of_lt_of_le hlt hlast⟩

end Scan

end PageStore
