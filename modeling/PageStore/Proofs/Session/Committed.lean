-- What is committed is what the files hold. However transactions that make tables, put
-- rows in, take rows out, walk over tables and end are mixed with one another, and
-- whichever of their requests fail, the files hold exactly the committed rows, and the
-- pages in memory hold no more than the changes of their own transaction besides.
import PageStore.Proofs.Pool.Kept
import PageStore.Proofs.Session.Lengths

namespace PageStore.Session

open Pool

/-- Tables are made, rows are put in, taken out and walked over, and transactions end. -/
def Transactional : Action → Prop
  | .createTable .. | .insert .. | .delete .. => True
  | .scan .. | .openScan .. | .nextRows .. | .rewind .. => True
  | .commit .. | .abort .. => True
  | _ => False

/-- The session after some actions, and the ledger of what was answered to them. -/
def watch (actions : List Action) (first : Session) : Session × Ledger :=
  actions.foldl (fun t a => ((run a t.1).2, t.2.record a (run a t.1).1)) (first, {})

/-! ## What one action keeps -/

theorem puts_keeps_ledger {tx : TxId} {table : TableId} {fields : List Field} {p q : Pool}
    {r : Except Error Answer} (hputs : Puts tx fields p r q) {l : Ledger} (h : Keeps p l) :
    Keeps q (l.record (.insert tx table fields) r) := by
  obtain ⟨r', rfl, ⟨row, typed, rfl, hin⟩ | ⟨⟨e, rfl⟩, rfl⟩⟩ := hputs
  · cases r' with
    | ok place =>
      obtain ⟨page, m, hmoves, hsets, hinserted⟩ := hin
      refine hsets.keeps ?_ (Quiets.keeps hmoves h)
      rintro fields ⟨⟩
      exact hinserted.fit typed
    | error e => exact Quiets.keeps hin h
  · exact h

theorem deletes_keeps_ledger {tx : TxId} {place : RecordId} {p q : Pool} {r : Except Error Answer}
    (hdeletes : Deletes tx place p r q) {l : Ledger} (h : Keeps p l) :
    Keeps q (l.record (.delete tx place) r) := by
  cases r with
  | ok answer =>
    obtain ⟨fields, page, m, hlooks, hsets⟩ := hdeletes
    exact hsets.keeps (fun _ h => nomatch h) (Looks.keeps hlooks h)
  | error e => exact Looks.keeps hdeletes h

/-- A commit never fails. -/
theorem commit_keeps_ledger {tx : TxId} {p q : Pool} {r : Except Error Answer}
    (hdoes : Does p (.commit tx) r q) {l : Ledger} (h : Keeps p l) :
    r = .ok .nothing ∧ Keeps q (l.commit tx) := by
  obtain ⟨hok, hkeeps⟩ := commit_keeps tx h
  obtain ⟨rfl, rfl⟩ := Prod.mk.inj hdoes
  rw [hok]
  exact ⟨rfl, hkeeps⟩

/-- An abort never fails. -/
theorem abort_keeps_ledger {tx : TxId} {p q : Pool} {r : Except Error Answer}
    (hdoes : Does p (.abort tx) r q) {l : Ledger} (h : Keeps p l) :
    r = .ok .nothing ∧ Keeps q (l.abort tx) := by
  obtain ⟨hok, hkeeps⟩ := abort_keeps tx h
  obtain ⟨rfl, rfl⟩ := Prod.mk.inj hdoes
  rw [hok]
  exact ⟨rfl, hkeeps⟩

theorem keeps_of_does_ledger {p q : Pool} {a : Action} {r : Except Error Answer} (hdoes : Does p a r q)
    (asked : Transactional a) {l : Ledger} (h : Keeps p l) : Keeps q (l.record a r) := by
  cases a
  case createTable name columns =>
    rcases hdoes with rfl | ⟨schema, rfl⟩
    · exact h
    · exact createTable_keeps name schema h
  case insert => exact puts_keeps_ledger hdoes h
  case delete => exact deletes_keeps_ledger hdoes h
  case scan => exact Looks.keeps hdoes h
  case openScan =>
    cases hdoes
    exact h
  case nextRows =>
    obtain ⟨tx, hlooks⟩ := hdoes
    exact Looks.keeps hlooks h
  case rewind =>
    cases hdoes
    exact h
  case commit =>
    obtain ⟨rfl, hkeeps⟩ := commit_keeps_ledger hdoes h
    exact hkeeps
  case abort =>
    obtain ⟨rfl, hkeeps⟩ := abort_keeps_ledger hdoes h
    exact hkeeps
  all_goals exact absurd asked id

theorem told_of_transactional {a : Action} (asked : Transactional a) : Told a := by
  cases a <;> first | exact trivial | exact absurd asked id

theorem keeps_of_run (a : Action) (asked : Transactional a) {s : Session} {l : Ledger}
    (h : Keeps s.pool l) : Keeps (run a s).2.pool (l.record a (run a s).1) :=
  keeps_of_does_ledger (run_does a h.guarded.keyed) asked h

theorem grows_of_run (a : Action) (asked : Transactional a) {s : Session} {l : Ledger}
    (h : Keeps s.pool l) : s.pool.storage.Grows (run a s).2.pool.storage := by
  have hdoes := run_does a h.guarded.keyed
  exact grows_of_does (told_of_transactional asked) hdoes h.faithful fun name _ schema _ =>
    Storage.grows_of_extends (createTable_steady name schema h.toSteady).2

/-! ## Whole runs -/

/-- The pool keeps the ledger from any moment on, and no file becomes shorter. -/
theorem keeps_of_foldl {actions : List Action} (asked : ∀ a ∈ actions, Transactional a) (t : Session × Ledger)
    (ht : Keeps t.1.pool t.2) :
    let u := actions.foldl (fun t a => ((run a t.1).2, t.2.record a (run a t.1).1)) t
    Keeps u.1.pool u.2 ∧ t.1.pool.storage.Grows u.1.pool.storage := by
  induction actions generalizing t with
  | nil => exact ⟨ht, .refl _⟩
  | cons a rest ih =>
    rw [List.forall_mem_cons] at asked
    obtain ⟨hkeeps, hgrows⟩ := ih asked.2 ((run a t.1).2, _) (keeps_of_run a asked.1 ht)
    exact ⟨hkeeps, (grows_of_run a asked.1 ht).trans hgrows⟩

theorem keeps_of_watch {actions : List Action} (asked : ∀ a ∈ actions, Transactional a)
    {first : Session} (h : Keeps first.pool {}) :
    Keeps (watch actions first).1.pool (watch actions first).2 := (keeps_of_foldl asked (first, {}) h).1

/-- Bounds that hold in the end held at every moment. -/
theorem inWords_of_begun {actions begun : List Action} (asked : ∀ a ∈ actions, Transactional a)
    {first : Session} (h : Keeps first.pool {}) (inWords : (watch actions first).1.pool.storage.InWords)
    (hbegun : begun <+: actions) : (watch begun first).1.pool.storage.InWords := by
  obtain ⟨rest, rfl⟩ := hbegun
  have hkeeps := keeps_of_watch (fun a ha => asked a (List.mem_append_left rest ha)) h
  obtain ⟨-, hgrows⟩ := keeps_of_foldl (fun a ha => asked a (List.mem_append_right begun ha)) _ hkeeps
  unfold watch at inWords hgrows ⊢
  rw [List.foldl_append] at inWords
  exact hgrows.inWords inWords

/-- An empty directory can be opened. -/
theorem ofDisk_empty (directory : String) {config : Config} (valid : config.validate = .ok ()) :
    ∃ first, Session.ofDisk { directory } config = .ok first ∧ Keeps first.pool {} := by
  obtain ⟨pool, hnew⟩ : ∃ pool, Pool.new
      { catalog := { onDisk := true, pageSize := config.pageSize }, disk := { directory } } config =
        .ok pool := by
    unfold Pool.new
    rw [valid]
    simp [bind, Except.bind]
  have hload : Storage.load config.pageSize { directory } =
      (.ok { onDisk := true, pageSize := config.pageSize }, { directory }) := rfl
  refine ⟨{ pool }, ?_, keeps_new directory hnew⟩
  unfold Session.ofDisk Database.load
  rw [Step.bind_of_ok hload, Step.bind_of_ok (Step.state_run _), hnew]
  rfl

/-! ## The laws -/

/-- Over any mix of transactions on a directory that was empty, the files hold exactly the committed
rows, the pages in memory hold them with the changes of the one transaction that changed the page, a
commit adds the changes of its transaction to what the files hold, and an abort drops them. If words of a
machine have room for all tables in the end, a machine has read and written the same at every moment. -/
theorem the_files_hold_the_committed_rows (directory : String) {config : Config}
    (valid : config.validate = .ok ()) :
    ∃ first, Session.ofDisk { directory } config = .ok first ∧
      ∀ actions : List Action, (∀ a ∈ actions, Transactional a) → ∀ s l, watch actions first = (s, l) →
        s.pool.storage.InWords →
        (∀ begun, begun <+: actions → (watch begun first).1.pool.storage.SameInWords) ∧ Recorded s.pool l ∧
        ∀ tx, ((run (.commit tx) s).1 = .ok .nothing ∧
            Recorded (run (.commit tx) s).2.pool (l.commit tx)) ∧
          (run (.abort tx) s).1 = .ok .nothing ∧ Recorded (run (.abort tx) s).2.pool (l.abort tx) := by
  obtain ⟨first, hfirst, hkeeps⟩ := ofDisk_empty directory valid
  refine ⟨first, hfirst, ?_⟩
  intro actions asked s l hwatch inWords
  have h : Keeps s.pool l := by
    have := keeps_of_watch asked hkeeps
    rw [hwatch] at this
    exact this
  have hwords : (watch actions first).1.pool.storage.InWords := by
    rwa [hwatch]
  refine ⟨fun _ hbegun => (inWords_of_begun asked hkeeps hwords hbegun).same, h.recorded, fun tx => ⟨?_, ?_⟩⟩
  · obtain ⟨hanswer, hafter⟩ := commit_keeps_ledger (run_does (.commit tx) h.guarded.keyed) h
    exact ⟨hanswer, hafter.recorded⟩
  · obtain ⟨hanswer, hafter⟩ := abort_keeps_ledger (run_does (.abort tx) h.guarded.keyed) h
    exact ⟨hanswer, hafter.recorded⟩

/-- An empty directory, opened with room for one page in memory. -/
def emptyDirectory : Session :=
  { pool := { config := { capacity := 1, pageSize := 64 },
              storage := { catalog := { onDisk := true, pageSize := 64 }, disk := { directory := "" } } } }

/-- A table of numbers, one row in it, and the commit of that row. -/
def oneRowCommitted : List Action := [.createTable "t" [⟨"n", .int⟩], .insert 1 1 [.int 5], .commit 1]

theorem one_committed_row_is_in_the_file :
    ({ capacity := 1, pageSize := 64 } : Config).validate = .ok () ∧
    (∀ a ∈ oneRowCommitted, Transactional a) ∧
    Session.ofDisk { directory := "" } { capacity := 1, pageSize := 64 } = .ok emptyDirectory ∧
    (watch oneRowCommitted emptyDirectory).1.pool.storage.InWords ∧
    (watch oneRowCommitted emptyDirectory).1.pool.storage.rowAt? ⟨⟨1, 0⟩, 0⟩ = some [.int 5] := by
  have valid : ({ capacity := 1, pageSize := 64 } : Config).validate = .ok () := rfl
  have asked : ∀ a ∈ oneRowCommitted, Transactional a := by
    simp [oneRowCommitted, Transactional]
  have hopen : Session.ofDisk { directory := "" } { capacity := 1, pageSize := 64 } = .ok emptyDirectory := rfl
  have hcommitted : (watch oneRowCommitted emptyDirectory).2.committed ⟨⟨1, 0⟩, 0⟩ = some [.int 5] := by
    decide +kernel
  obtain ⟨first, hfirst, hlaw⟩ := the_files_hold_the_committed_rows "" valid
  obtain rfl : emptyDirectory = first := Except.ok.inj (hopen.symm.trans hfirst)
  have inWords : (watch oneRowCommitted emptyDirectory).1.pool.storage.InWords := by decide +kernel
  have hrecorded : Recorded (watch oneRowCommitted emptyDirectory).1.pool
      (watch oneRowCommitted emptyDirectory).2 := (hlaw oneRowCommitted asked _ _ rfl inWords).2.1
  refine ⟨valid, asked, hopen, inWords, ?_⟩
  rw [hrecorded.stored, hcommitted]

end PageStore.Session
