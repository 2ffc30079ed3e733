-- Repeatable reads. A transaction that reads a whole table twice, and changes nothing in it
-- in the meantime, gets the same rows again, whatever it does elsewhere and whatever
-- others do. Only pages that the table did not have the first time can add rows, and
-- these come behind all others.
import PageStore.Proofs.Pool.Pinned
import PageStore.Proofs.Session.Parts
import PageStore.Proofs.Session.Requests

namespace PageStore.Session

open Pool

/-! ## What may be done meanwhile -/

/-- The operations of a database, but for those that consist of others: tables are made and found, rows are
put in, taken out and walked over, and transactions end. -/
def OfDatabase : Action → Prop
  | .createTable .. | .findTable .. | .listTables | .schemaOf .. => True
  | .insert .. | .delete .. => True
  | .scan .. | .openScan .. | .nextRows .. | .rewind .. => True
  | .commit .. | .abort .. => True
  | _ => False

/-- The action puts a row into the table or takes one out, or tries to, for the transaction, or it ends
the transaction. -/
def Touches (tx : TxId) (table : TableId) : Action → Prop
  | .insert u of _ => u = tx ∧ of = table
  | .delete u place => u = tx ∧ place.page.table = table
  | .commit u | .abort u => u = tx
  | _ => False

/-- Any operation of a database, also a transaction with a body. -/
def Operates (a : Action) : Prop := ∀ part ∈ parts a, OfDatabase part

/-- An operation of a database that leaves the table to the transaction as it is. -/
def Spares (tx : TxId) (table : TableId) (a : Action) : Prop :=
  ∀ part ∈ parts a, OfDatabase part ∧ ¬ Touches tx table part

/-- Nothing is asked of the scan of this name. -/
def Passes (name : String) (a : Action) : Prop := ∀ part ∈ parts a, ¬ Names (.scan name) part

/-- No action touches all transactions. -/
theorem exists_untouched (a : Action) : ∃ tx, ∀ table, ¬ Touches tx table a := by
  cases a
  case insert u of fields => exact ⟨u + 1, fun table h => absurd h.1 (Nat.ne_of_lt (Nat.lt_succ_self u))⟩
  case delete u place => exact ⟨u + 1, fun table h => absurd h.1 (Nat.ne_of_lt (Nat.lt_succ_self u))⟩
  case commit u => exact ⟨u + 1, fun table h => absurd h (Nat.ne_of_lt (Nat.lt_succ_self u))⟩
  case abort u => exact ⟨u + 1, fun table h => absurd h (Nat.ne_of_lt (Nat.lt_succ_self u))⟩
  all_goals exact ⟨0, fun _ h => h⟩

/-! ## What comes of it -/

/-- What an operation of a database makes of a session, if it leaves a table to a transaction as it is. -/
structure Beside (tx : TxId) (table : TableId) (a : Action) (s t : Session) : Prop where
  pool : Apart tx table s.pool t.pool
  scans : ∀ name, ¬ Names (.scan name) a → t.scans.get? name = s.scans.get? name
  former : t.former = s.former

section Beside

variable {tx : TxId} {table : TableId} {a : Action} {s t : Session}

/-- Nothing but the pool changes. -/
theorem beside_of_pool {q : Pool} (pool : Apart tx table s.pool q) :
    Beside tx table a s { s with pool := q } := ⟨pool, fun _ _ => rfl, rfl⟩

theorem beside_refl (tx : TxId) (table : TableId) (a : Action) (s : Session) : Beside tx table a s s :=
  ⟨apart_refl tx table s.pool, fun _ _ => rfl, rfl⟩

theorem insert_beside {u : TxId} {of : TableId} {fields : List Field} (hs : Steady s.pool)
    (spared : ¬ (u = tx ∧ of = table)) :
    (perform (.insert u of fields)).Ends s fun _ t => Beside tx table (.insert u of fields) s t := by
  simp only [perform]
  have hends := Database.insert_ends u of fields hs.guarded.keyed
  have hplace := Database.insert_table u of fields hs.guarded.keyed
  refine onPool_ends ((hends.and hplace).mono fun r q h => beside_of_pool ?_)
  obtain ⟨⟨row, typed, -, hin⟩ | ⟨-, rfl⟩, hplace⟩ := h
  · cases r with
    | error e => exact .quiet u hin
    | ok place =>
      obtain ⟨page, m, hmoves, hsets, hinserted⟩ := hin
      refine .change u hmoves hsets ?_ ?_
      · rintro fields ⟨⟩
        exact hinserted.fit typed
      · intro hu htable
        exact spared ⟨hu, (hplace hs.tidy.ownFiles place rfl).symm.trans htable⟩
  · exact apart_refl tx table s.pool

theorem delete_beside {u : TxId} {place : RecordId} (hs : Steady s.pool)
    (spared : ¬ (u = tx ∧ place.page.table = table)) :
    (perform (.delete u place)).Ends s fun _ t => Beside tx table (.delete u place) s t := by
  simp only [perform]
  refine onPool_ends ((Database.delete_ends u place hs.guarded.keyed).mono fun r q h => beside_of_pool ?_)
  cases r with
  | error e => exact .quiet u (Quiets.of_looks h)
  | ok row =>
    obtain ⟨fields, page, m, hlooks, hsets⟩ := h
    refine .change u (Quiets.of_looks hlooks) hsets (fun _ hnone => by cases hnone) ?_
    exact fun hu htable => spared ⟨hu, htable⟩

theorem complete_beside (u : TxId) (outcome : Outcome) (spared : u ≠ tx) (s : Session) :
    (onPool (complete u outcome) >>= fun _ => pure Answer.nothing).Ends s fun _ t => Beside tx table a s t :=
  onPool_ends (f := fun _ => Answer.nothing) (beside_of_pool (.complete u spared outcome rfl))

theorem perform_beside (a : Action) (asked : OfDatabase a) (spared : ¬ Touches tx table a)
    (hs : Steady s.pool) : (perform a).Ends s fun _ t => Beside tx table a s t := by
  cases a
  case createTable name columns =>
    simp only [perform]
    refine Step.Ends.ofExcept (fun schema _ => ?_) (fun _ _ => beside_refl _ _ _ s)
    exact onPool_ends (beside_of_pool (.create name schema rfl))
  case findTable name =>
    simp only [perform]
    have hfind : (Database.table name).Ends s.pool fun _ q => q = s.pool := by
      unfold Database.table
      refine Step.Ends.of_ok (Step.state_run _) ?_
      cases s.pool.catalog.idOf? name <;> rfl
    refine onPool_ends (hfind.mono fun _ q hq => ?_)
    rw [hq]
    exact beside_refl _ _ _ s
  case listTables => exact beside_refl _ _ _ s
  case schemaOf of =>
    simp only [perform]
    exact onPool_ends (m := Database.schemaOf of) (f := Answer.schema) (beside_refl _ _ _ s)
  case insert u of fields => exact insert_beside hs spared
  case delete u place => exact delete_beside hs spared
  case scan u of =>
    simp only [perform]
    refine onPool_ends ((Database.scan_ends u of s.pool).mono fun _ q hlooks => ?_)
    exact beside_of_pool (.quiet u (Quiets.of_looks hlooks))
  case openScan name u of =>
    refine ⟨apart_refl _ _ _, fun other hother => ?_, rfl⟩
    have hne : name ≠ other := fun heq => hother (by rw [heq]; rfl)
    exact (Assoc.get?_insert ..).trans (if_neg hne)
  case rewind name =>
    refine ⟨apart_refl _ _ _, fun other hother => ?_, rfl⟩
    have hne : name ≠ other := fun heq => hother (by rw [heq]; rfl)
    exact (Assoc.get?_modify ..).trans (if_neg hne)
  case nextRows name count =>
    obtain ⟨u, own⟩ := exists_tx s name
    refine (nextRows_ends count own).mono fun _ t h => ⟨.quiet u (Quiets.of_looks h.looks), ?_, h.former⟩
    exact fun other hother => h.others other fun heq => hother (by rw [heq]; rfl)
  case commit u =>
    simp only [perform]
    exact complete_beside u .commit spared s
  case abort u =>
    simp only [perform]
    exact complete_beside u .abort spared s
  all_goals exact absurd asked id

end Beside

/-! ## What is kept -/

/-- What every run of a database keeps. -/
structure Settled (s : Session) : Prop where
  former : s.former = []
  pool : Steady s.pool

/-- And no file becomes shorter. -/
theorem Settled.run {s : Session} (h : Settled s) {a : Action} (asked : Operates a) :
    Settled (run a s).2 ∧ s.pool.storage.Grows (Session.run a s).2.pool.storage := by
  refine run_of_parts (I := fun t => Settled t ∧ s.pool.storage.Grows t.pool.storage)
    ⟨fun _ h => h.1.former, fun _ _ h => ⟨⟨h.1.former, h.1.pool⟩, h.2⟩⟩ ?_ ⟨h, .refl _⟩
  rintro part hpart t ⟨ht, hgrows⟩
  obtain ⟨tx, spared⟩ := exists_untouched part
  refine (perform_beside part (asked part hpart) (spared 0) ht.pool).mono fun _ u hbeside => ?_
  exact ⟨⟨hbeside.former.trans ht.former, hbeside.pool.steady ht.pool⟩, hgrows.trans (hbeside.pool.grows ht.pool)⟩

theorem Settled.play {s : Session} (h : Settled s) {actions : List Action}
    (asked : ∀ a ∈ actions, Operates a) :
    Settled (play actions s).2 ∧ s.pool.storage.Grows (Session.play actions s).2.pool.storage := by
  refine play_keeps (I := fun t => Settled t ∧ s.pool.storage.Grows t.pool.storage) ?_ asked ⟨h, .refl _⟩
  rintro a t ha ⟨ht, hgrows⟩
  obtain ⟨hafter, hlonger⟩ := ht.run ha
  exact ⟨hafter, hgrows.trans hlonger⟩

/-- The pages of a table that a transaction has read. -/
structure Pins (tx : TxId) (table : TableId) (pages : List Page) (s : Session) : Prop where
  settled : Settled s
  pinned : Pinned tx table pages s.pool

section Pins

variable {tx : TxId} {table : TableId} {pages : List Page} {s : Session}

theorem Pins.run (h : Pins tx table pages s) {a : Action} (asked : Spares tx table a) :
    Pins tx table pages (run a s).2 := by
  refine run_of_parts (I := Pins tx table pages)
    ⟨fun _ h => h.settled.former, fun _ _ h => ⟨⟨h.settled.former, h.settled.pool⟩, h.pinned⟩⟩ ?_ h
  intro part hpart s hs
  obtain ⟨hof, spared⟩ := asked part hpart
  refine (perform_beside part hof spared hs.settled.pool).mono fun _ t h => ?_
  have hsteady := h.pool.steady hs.settled.pool
  exact ⟨⟨h.former.trans hs.settled.former, hsteady⟩, h.pool.pinned hs.settled.pool hs.pinned⟩

theorem Pins.play (h : Pins tx table pages s) {actions : List Action}
    (asked : ∀ a ∈ actions, Spares tx table a) : Pins tx table pages (play actions s).2 :=
  play_keeps (fun _ _ ha hs => hs.run ha) asked h

end Pins

/-! ## Reading a table -/

/-- A new scan of the table for the transaction, called by calls that did not fail, gave these rows and is
not over. Between the calls others work, and the transaction itself works elsewhere. -/
inductive Reading (tx : TxId) (table : TableId) (name : String) (s : Session) : List Row → Session → Prop where
  | start (opened : s.scans.get? name = some (Scan.start tx table)) : Reading tx table name s [] s
  | next {rows others : List Row} {t : Session} (reading : Reading tx table name s rows t) (count : Nat)
      (answered : (run (.nextRows name count) t).1 = .ok (.pulled (others.map some))) :
      Reading tx table name s (rows ++ others) (run (.nextRows name count) t).2
  | meanwhile {rows : List Row} {t : Session} (reading : Reading tx table name s rows t) (a : Action)
      (spares : Spares tx table a) (passes : Passes name a) : Reading tx table name s rows (run a t).2

/-- The transaction reads the whole table, by a scan that begins on `s` and is over on `t`, without error:
in one go, or by calls between which other things are done. -/
inductive Drained (tx : TxId) (table : TableId) (s : Session) : List Row → Session → Prop where
  | atOnce {rows : List Row} (answered : (run (.scan tx table) s).1 = .ok (.rows rows)) :
      Drained tx table s rows (run (.scan tx table) s).2
  | byCalls {name : String} {rows : List Row} {t : Session} (reading : Reading tx table name s rows t)
      (count : Nat) {values : List (Option Row)}
      (answered : (run (.nextRows name count) t).1 = .ok (.pulled values)) (ended : none ∈ values) :
      Drained tx table s (rows ++ values.filterMap id) (run (.nextRows name count) t).2

/-- The scan of this name met no error and gave these rows; whether it is over is known. -/
structure Pulled (tx : TxId) (table : TableId) (before : List Page) (name : String) (rows : List Row)
    (ended : Prop) (s : Session) : Prop where
  former : s.former = []
  scan : ∃ c, s.scans.get? name = some c ∧ (c.finished = true ↔ ended) ∧
    Scan.Unbroken tx table (Scan.Reads tx table before) rows (c, s.pool)

section Pulled

variable {tx : TxId} {table : TableId} {before : List Page} {name : String} {rows : List Row}
  {s t : Session}

/-- What a call gave is behind what the calls before it gave. -/
theorem filterMap_snoc {α : Type} (values : List (Option α)) (value : Option α) :
    (values ++ [value]).filterMap id = values.filterMap id ++ value.toList := by
  cases value <;> simp

/-- One more call. -/
theorem Pulled.scanNext {values : List (Option Row)}
    (h : Pulled tx table before name (rows ++ values.filterMap id) (none ∈ values) s) :
    (scanNext name).Ends s fun r t => ∀ value, r = .ok value →
      Pulled tx table before name (rows ++ (values ++ [value]).filterMap id) (none ∈ values ++ [value]) t := by
  obtain ⟨former, c, hc, hover, hunbroken⟩ := h
  have hnext : (Step.focus (fun s => (c, s.pool)) (setScan name) Scan.next).Ends s fun r t =>
      ∀ value, r = .ok value →
        Pulled tx table before name (rows ++ (values ++ [value]).filterMap id) (none ∈ values ++ [value]) t := by
    refine Step.Ends.focus ?_
    rintro value hvalue
    have hrun : Scan.next (c, s.pool) = (.ok value, (Scan.next (c, s.pool)).2) := Prod.ext hvalue rfl
    obtain ⟨hafter, hfinished⟩ := hunbroken.next (Scan.walk_reads tx table before) hrun
    refine ⟨former, _, (scans_setScan name s _ name).trans (if_pos rfl), ?_, ?_⟩
    · rw [hfinished, List.mem_append, ← hover]
      cases value with
      | none => simp
      | some row =>
        -- A scan that is over gives no row.
        have hgoing : c.finished ≠ true := by
          intro hfinished
          have hnothing := Scan.next_over hfinished (hunbroken.gave.ended hfinished).1
          rw [hrun] at hnothing
          cases congrArg Prod.fst hnothing
        simp [hgoing]
    · rw [filterMap_snoc, ← List.append_assoc]
      exact hafter
  rwa [Step.Ends, ← scanNext_run hc] at hnext

theorem Pulled.nextRows (count : Nat) (h : Pulled tx table before name rows False s) :
    (perform (.nextRows name count)).Ends s fun r t => ∀ values, r = .ok (.pulled values) →
      Pulled tx table before name (rows ++ values.filterMap id) (none ∈ values) t := by
  simp only [perform]
  have hstart : Pulled tx table before name (rows ++ ([] : List (Option Row)).filterMap id)
      (none ∈ ([] : List (Option Row))) s := by
    simpa using h
  have heach := Step.Ends.each_answers (f := fun _ => Session.scanNext name) (l := List.range count)
    (P := fun r t => ∀ values, r = .ok values →
      Pulled tx table before name (rows ++ values.filterMap id) (none ∈ values) t)
    (fun _ _ values t ht => ?_) (s := s) (fun values hvalues => Except.ok.inj hvalues ▸ hstart)
  · refine Step.Ends.bind heach ?_ (fun _ _ _ _ h => by cases h)
    rintro values t ht _ ⟨⟩
    exact ht values rfl
  · refine (ht values rfl).scanNext.mono ?_
    rintro (e | value) t' hpulled _ ⟨⟩
    exact hpulled value rfl

/-- What others do keeps the rows, as long as the scan is not over. -/
theorem Pulled.run (h : Pulled tx table before name rows False s) {a : Action} (spares : Spares tx table a)
    (passes : Passes name a) : Pulled tx table before name rows False (run a s).2 := by
  refine run_of_parts (I := Pulled tx table before name rows False)
    ⟨fun _ h => h.former, fun _ _ h => ⟨h.former, h.scan⟩⟩ ?_ h
  rintro part hpart s ⟨former, c, hc, hover, hunbroken⟩
  obtain ⟨hof, spared⟩ := spares part hpart
  have hgoing : c.finished = false := by simpa using hover
  have hsteady : Steady s.pool := (hunbroken.gave.going hgoing).steady
  refine (perform_beside part hof spared hsteady).mono fun _ t hbeside => ?_
  refine ⟨hbeside.former.trans former, c, (hbeside.scans name (passes part hpart)).trans hc, hover, ?_, ?_⟩
  · exact hunbroken.gave.of_pool fun _ _ h => h.apart hbeside.pool
  · exact fun hfinished => (hover.mp hfinished).elim

theorem Spares.operates {a : Action} (h : Spares tx table a) : Operates a := fun part hpart => (h part hpart).1

theorem operates_nextRows (name : String) (count : Nat) : Operates (.nextRows name count) := by
  intro part hpart
  simp only [parts, List.mem_singleton] at hpart
  subst hpart
  exact trivial

theorem operates_scan (tx : TxId) (table : TableId) : Operates (.scan tx table) := by
  intro part hpart
  simp only [parts, List.mem_singleton] at hpart
  subst hpart
  exact trivial

theorem Reading.grows (h : Reading tx table name s rows t) (settled : Settled s) :
    Settled t ∧ s.pool.storage.Grows t.pool.storage := by
  induction h with
  | start => exact ⟨settled, .refl _⟩
  | next _ count _ ih =>
    obtain ⟨hafter, hlonger⟩ := ih.1.run (operates_nextRows name count)
    exact ⟨hafter, ih.2.trans hlonger⟩
  | meanwhile _ a spares _ ih =>
    obtain ⟨hafter, hlonger⟩ := ih.1.run spares.operates
    exact ⟨hafter, ih.2.trans hlonger⟩

theorem Drained.grows (h : Drained tx table s rows t) (settled : Settled s) :
    Settled t ∧ s.pool.storage.Grows t.pool.storage := by
  cases h with
  | atOnce => exact settled.run (operates_scan tx table)
  | @byCalls name _ _ reading count =>
    obtain ⟨hbefore, hgrows⟩ := reading.grows settled
    obtain ⟨hafter, hlonger⟩ := hbefore.run (operates_nextRows name count)
    exact ⟨hafter, hgrows.trans hlonger⟩

theorem Reading.pulled (h : Reading tx table name s rows t) (settled : Settled s)
    (pinned : Pinned tx table before s.pool) : Pulled tx table before name rows False t := by
  induction h with
  | start opened =>
    refine ⟨settled.former, _, opened, ⟨fun h => (nomatch h), False.elim⟩, ?_⟩
    exact Scan.unbroken_start (Scan.reads_start settled.pool pinned)
  | @next rows others t reading count answered ih =>
    have hafter : Pulled tx table before name (rows ++ others) False (perform (.nextRows name count) t).2 := by
      simpa using ih.nextRows count _ answered
    exact ⟨hafter.former, hafter.scan⟩
  | meanwhile reading a spares passes ih => exact ih.run spares passes

theorem Drained.complete (h : Drained tx table s rows t) (settled : Settled s)
    (pinned : Pinned tx table before s.pool) :
    t.former = [] ∧ Scan.Complete table (Scan.Reads tx table before) rows t.pool := by
  cases h with
  | atOnce answered =>
    have hstart : Scan.Gave tx table (Scan.Reads tx table before) [] (Scan.start tx table, s.pool) :=
      Scan.gave_start (Scan.reads_start settled.pool pinned)
    obtain ⟨-, hall⟩ := Scan.drain_gives (Scan.walk_reads tx table before) hstart
    have hscan : (Database.scan tx table).Ends s.pool fun r q => ∀ rows, r = .ok rows →
        Scan.Complete table (Scan.Reads tx table before) rows q :=
      fun rows hrows => (hall rows hrows).2 rfl
    have hperform : (perform (.scan tx table)).Ends s fun r t => ∀ rows, r = .ok (.rows rows) →
        t.former = [] ∧ Scan.Complete table (Scan.Reads tx table before) rows t.pool := by
      simp only [perform]
      refine onPool_ends (hscan.mono ?_)
      rintro (e | rows) q hrows _ ⟨⟩
      exact ⟨settled.former, hrows rows rfl⟩
    exact hperform _ answered
  | byCalls reading count answered ended =>
    obtain ⟨former, c, -, hover, hunbroken⟩ := (reading.pulled settled pinned).nextRows count _ answered
    exact ⟨former, hunbroken.whole (hover.mpr ended)⟩

end Pulled

/-! ## The law -/

/-- Take any run of a database, in which a transaction reads a whole table, and later reads it again, and
from the beginning of the first time to the end of the second neither changes a row of it nor ends. Then,
whatever else is done before, meanwhile and between, the rows of the second time are those of the first
time, followed by rows on pages that the table did not have when the first time was over. The pages are
counted with words of a machine, that have room for all tables in the end. -/
theorem a_table_that_is_read_again_begins_with_the_same_rows {storage : Storage} {config : Config}
    {pool : Pool} (tidy : storage.Tidy) (new : Pool.new storage config = .ok pool) {actions : List Action}
    (asked : ∀ a ∈ actions, Operates a) {s : Session} (reached : (play actions { pool }).2 = s)
    {tx : TxId} {table : TableId} {rows : List Row} {t : Session} (first : Drained tx table s rows t)
    {between : List Action} (spares : ∀ a ∈ between, Spares tx table a) {s' : Session}
    (later : (play between t).2 = s') {rows' : List Row} {t' : Session}
    (second : Drained tx table s' rows' t') (inWords : t'.pool.storage.InWords) :
    ∃ file more, t.pool.catalog.tableFile? table = some file ∧
      (file.numPagesWord t.pool.disk).toNat = file.numPages t.pool.disk ∧ rows' = rows ++ more ∧
      ∀ row ∈ more, ∃ place, row.place = some place ∧ place.page.table = table ∧
        file.numPages t.pool.disk ≤ place.page.number ∧
        place.page.number < (file.numPagesWord t'.pool.disk).toNat := by
  have hs : Settled s := by
    have hfirst : Settled { pool } := ⟨rfl, steady_of_new tidy new⟩
    exact reached ▸ (hfirst.play asked).1
  obtain ⟨former, hcomplete⟩ := first.complete hs (pinned_nil tx table s.pool)
  have hsteady : Steady t.pool := by
    obtain ⟨_, _, hreads, -⟩ := hcomplete
    exact hreads.steady
  obtain ⟨file, pages, known, hnum, rfl, hpinned⟩ := hcomplete.pinned
  have hpins : Pins tx table pages t := ⟨⟨former, hsteady⟩, hpinned⟩
  have hpins' : Pins tx table pages s' := later ▸ hpins.play spares
  obtain ⟨-, hcomplete'⟩ := second.complete hpins'.settled hpins'.pinned
  obtain ⟨file', more, known', hrows, hmore⟩ := hcomplete'.continues
  -- between the first time and the end no file became shorter
  obtain ⟨-, hbetween⟩ := hpins.settled.play fun a ha => (spares a ha).operates
  have hgrows := (later ▸ hbetween).trans (second.grows hpins'.settled).2
  obtain rfl : file = file' := Option.some.inj ((hgrows table file known).1.symm.trans known')
  have hfirst := (hgrows.inWords inWords).counted.numPages known
  have hlast := inWords.counted.numPages known'
  refine ⟨file, more, known, hfirst, hrows, fun row hrow => ?_⟩
  obtain ⟨place, hplace, htable, hbehind, hlt⟩ := hmore row hrow
  exact ⟨place, hplace, htable, Nat.le_trans hnum hbehind, Nat.lt_of_lt_of_eq hlt hlast.symm⟩

/-- An empty directory whose pages have room for one row of eight numbers. -/
def bareStorage : Storage := { catalog := { onDisk := true, pageSize := 64 }, disk := { directory := "" } }

/-- A pool over it with room for one page in memory. -/
def barePool : Pool := { config := { capacity := 1, pageSize := 64 }, storage := bareStorage }

/-- The same number eight times, on the page of this number. -/
def wideRow (page : Nat) (n : Int32) : Row :=
  { schema := ⟨List.replicate 8 ⟨"n", .int⟩⟩, fields := List.replicate 8 (.int n), place := some ⟨⟨1, page⟩, 0⟩ }

/-- A transaction that puts such a row in and ends. -/
def putWide (tx : TxId) (n : Int32) : Action := .transaction tx [.insert tx 1 (List.replicate 8 (.int n))] false

/-- One row is committed, and a scan is opened. -/
def wideOpened : List Action :=
  [.createTable "t" (List.replicate 8 ⟨"n", .int⟩), putWide 7 5, .openScan "w" 8 1]

theorem answer_nextRows (name : String) (count : Nat) (s : Session) : (run (.nextRows name count) s).1 =
    (Step.each (fun _ => scanNext name) (List.range count) s).1.map Answer.pulled := by
  change (perform (.nextRows name count) s).1 = _
  simp only [perform]
  rw [Step.bind_run]
  rcases Step.each (fun _ => scanNext name) (List.range count) s with ⟨_ | _, t⟩ <;> rfl

theorem answer_scan (tx : TxId) (table : TableId) (s : Session) :
    (run (.scan tx table) s).1 = (Database.scan tx table s.pool).1.map Answer.rows := by
  change (perform (.scan tx table) s).1 = _
  simp only [perform, onPool]
  rcases hrun : Database.scan tx table s.pool with ⟨r, p⟩
  rw [Step.bind_run, Step.focus_run hrun]
  cases r <;> rfl

/-- The second of two rows comes while the table is read for the first time, the third one after that. -/
theorem a_row_that_is_appended_comes_last :
    bareStorage.Tidy ∧ Pool.new bareStorage { capacity := 1, pageSize := 64 } = .ok barePool ∧
    (∀ a ∈ wideOpened, Operates a) ∧ (∀ a ∈ [putWide 10 7], Spares 8 1 a) ∧
    ∃ s t s' t', (play wideOpened { pool := barePool }).2 = s ∧
      Drained 8 1 s [wideRow 0 5, wideRow 1 6] t ∧ (play [putWide 10 7] t).2 = s' ∧
      Drained 8 1 s' [wideRow 0 5, wideRow 1 6, wideRow 2 7] t' ∧ t'.pool.storage.InWords ∧
      ∃ file, t.pool.catalog.tableFile? 1 = some file ∧ file.numPages t.pool.disk ≤ 2 := by
  have htidy : bareStorage.Tidy := Storage.tidy_new "" 64
  have hnew : Pool.new bareStorage { capacity := 1, pageSize := 64 } = .ok barePool := rfl
  have hasked : ∀ a ∈ wideOpened, Operates a := by
    simp [wideOpened, putWide, Operates, parts, partsOfAll, OfDatabase]
  have hspares : ∀ tx ≠ 8, ∀ n, Spares 8 1 (putWide tx n) := by
    intro tx htx n
    simp [putWide, Spares, parts, partsOfAll, OfDatabase, Touches, htx]
  have hpasses : Passes "w" (putWide 9 6) := by
    simp [putWide, Passes, parts, partsOfAll, Names]
  -- The scan is called once, another row is committed, and the scan is called until it is over.
  generalize hs : (play wideOpened { pool := barePool }).2 = s
  generalize ht : (run (.nextRows "w" 1) s).2 = t
  generalize hu : (run (putWide 9 6) t).2 = u
  generalize hv : (run (.nextRows "w" 2) u).2 = v
  have hopened : s.scans.get? "w" = some (Scan.start 8 1) := by
    subst hs
    decide +kernel
  have hone : (Step.each (fun _ => scanNext "w") (List.range 1) s).1 = .ok [some (wideRow 0 5)] := by
    subst hs
    exact Step.eq_ok_of_toOption (by decide +kernel)
  have htwo : (Step.each (fun _ => scanNext "w") (List.range 2) u).1 = .ok [some (wideRow 1 6), none] := by
    subst hu ht hs
    exact Step.eq_ok_of_toOption (by decide +kernel)
  have hfirst : Drained 8 1 s [wideRow 0 5, wideRow 1 6] v := by
    have hstarted : Reading 8 1 "w" s ([] ++ [wideRow 0 5]) t := by
      rw [← ht]
      exact .next (.start hopened) 1 (by rw [answer_nextRows, hone]; rfl)
    have hmeanwhile : Reading 8 1 "w" s ([] ++ [wideRow 0 5]) u := by
      rw [← hu]
      exact .meanwhile hstarted _ (hspares 9 (by decide) 6) hpasses
    have hover := Drained.byCalls hmeanwhile 2 (by rw [answer_nextRows, htwo]; rfl) (by simp)
    rw [hv] at hover
    exact hover
  have hbetween : ∀ a ∈ [putWide 10 7], Spares 8 1 a := by
    simpa using hspares 10 (by decide) 7
  have hscan : (Database.scan 8 1 (play [putWide 10 7] v).2.pool).1 =
      .ok [wideRow 0 5, wideRow 1 6, wideRow 2 7] := by
    subst hv hu ht hs
    exact Step.eq_ok_of_toOption (by decide +kernel)
  have hsecond : Drained 8 1 (play [putWide 10 7] v).2 [wideRow 0 5, wideRow 1 6, wideRow 2 7]
      (run (.scan 8 1) (play [putWide 10 7] v).2).2 := .atOnce (by rw [answer_scan, hscan]; rfl)
  have hwords : (run (.scan 8 1) (play [putWide 10 7] v).2).2.pool.storage.InWords := by
    subst hv hu ht hs
    decide +kernel
  obtain ⟨file, more, known, -, hrows, hmore⟩ := a_table_that_is_read_again_begins_with_the_same_rows
    htidy hnew hasked hs hfirst hbetween rfl hsecond hwords
  refine ⟨htidy, hnew, hasked, hbetween, s, v, _, _, rfl, hfirst, rfl, hsecond, hwords, file, known, ?_⟩
  obtain rfl : [wideRow 2 7] = more :=
    List.append_cancel_left (show [wideRow 0 5, wideRow 1 6] ++ [wideRow 2 7] = _ from hrows)
  obtain ⟨place, hplace, -, hnumber, -⟩ := hmore _ (List.mem_singleton_self _)
  cases hplace
  exact hnumber

end PageStore.Session
