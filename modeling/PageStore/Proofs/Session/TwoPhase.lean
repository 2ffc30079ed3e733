-- Strict two-phase locking. Between two of its ends a transaction only takes locks: on
-- the page of each row that it reads, and alone on the page of each row that it changes.
-- It keeps them all until its next end, whatever it and the others do in between, and
-- whichever of their actions fail.
import PageStore.Proofs.Session.Marks
import PageStore.Proofs.Session.Requests

namespace PageStore

/-- The rows that a call of a walk gave. -/
def CallAnswer.walked : CallAnswer → List Row
  | .row value => value.toList
  | .rows values => values
  | .nothing | .schema _ => []

/-- The rows that a walk over a table gave. -/
def Answer.walked : Answer → List Row
  | .rows values => values
  | .pulled values => values.filterMap id
  | .call answer => answer.walked
  | .calls answers => (answers.filterMap Except.toOption).flatMap CallAnswer.walked
  | _ => []

namespace Session

open Pool LockTable

/-! ## Runs -/

/-- What every run keeps. -/
structure Orderly (s : Session) : Prop where
  keyed : Keyed s.pool
  wellKept : s.pool.locks.WellKept
  stand : OperatorsStand s

/-- Actions that may be asked while a transaction goes on. -/
def Before (tx : TxId) (actions : List Action) : Prop := ∀ a ∈ actions, InTransaction a ∧ ¬ Ends a tx

section Action

variable {s : Session} {a : Action}

theorem Orderly.run (h : Orderly s) (asked : InTransaction a) : Orderly (run a s).2 := by
  have heffect := run_effect a asked h.keyed h.stand
  cases heffect.works with
  | requests made =>
    exact ⟨Requests.keyed made h.keyed, (Requests.grows made h.wellKept).1, heffect.stand⟩
  | ends tx outcome _ result =>
    refine ⟨?_, ?_, heffect.stand⟩
    · rw [result]
      exact (complete_locks tx outcome h.keyed).1
    · rw [result]
      exact complete_wellKept tx outcome h.keyed h.wellKept

theorem Orderly.play (h : Orderly s) {actions : List Action} (asked : ∀ a ∈ actions, InTransaction a) :
    Orderly (play actions s).2 :=
  play_keeps (fun _ _ ha hs => hs.run ha) asked h

theorem others_run (h : Orderly s) (asked : InTransaction a) {u : TxId} (hu : ¬ Acts s a u) (id : PageId) :
    (run a s).2.pool.locks.mode? u id = s.pool.locks.mode? u id := by
  cases (run_effect a asked h.keyed h.stand).works with
  | requests made => exact (Requests.grows made h.wellKept).2.others u id hu
  | ends tx outcome ends result =>
    rw [result, complete_mode? tx outcome h.keyed h.wellKept, if_neg]
    rintro rfl
    exact hu (acts_of_ends s ends)

theorem kept_run (h : Orderly s) (asked : InTransaction a) {u : TxId} (hu : ¬ Ends a u) {id : PageId}
    {mode : LockMode} (held : covers (s.pool.locks.mode? u id) mode = true) :
    covers ((run a s).2.pool.locks.mode? u id) mode = true := by
  cases (run_effect a asked h.keyed h.stand).works with
  | requests made => exact (Requests.grows made h.wellKept).2.kept u id mode held
  | ends tx outcome ends result =>
    rw [result, complete_mode? tx outcome h.keyed h.wellKept, if_neg]
    · exact held
    · rintro rfl
      exact hu ends

end Action

theorem released_of_end {s : Session} (h : Orderly s) {a : Action} {tx : TxId} (ends : Ends a tx)
    (id : PageId) : (run a s).2.pool.locks.mode? tx id = none := by
  have hend : ∃ outcome, (run a s).2.pool = (complete tx outcome s.pool).2 := by
    rcases eq_of_ends ends with rfl | rfl
    · exact ⟨.commit, (Prod.mk.inj (run_does (.commit tx) h.keyed)).2⟩
    · exact ⟨.abort, (Prod.mk.inj (run_does (.abort tx) h.keyed)).2⟩
  obtain ⟨outcome, hpool⟩ := hend
  rw [hpool, complete_mode? tx outcome h.keyed h.wellKept, if_pos rfl]

/-- The transaction has locked the page, and will have it locked in this mode until its next end. -/
def LockedUntilEnd (s : Session) (tx : TxId) (id : PageId) (mode : LockMode) : Prop :=
  ∀ rest, Before tx rest → covers ((play rest s).2.pool.locks.mode? tx id) mode = true

def RowsLockedUntilEnd (s : Session) (tx : TxId) (rows : List Row) : Prop :=
  ∀ row ∈ rows, ∃ place, row.place = some place ∧ LockedUntilEnd s tx place.page .shared

theorem Orderly.until {s : Session} (h : Orderly s) {tx : TxId} {id : PageId} {mode : LockMode}
    (held : covers (s.pool.locks.mode? tx id) mode = true) : LockedUntilEnd s tx id mode := by
  intro rest before
  have hrest := play_keeps (I := fun s => Orderly s ∧ covers (s.pool.locks.mode? tx id) mode = true)
    (fun a s ha hs => ⟨hs.1.run ha.1, kept_run hs.1 ha.1 ha.2 hs.2⟩) before ⟨h, held⟩
  exact hrest.2

theorem Orderly.rowsUntil {s : Session} (h : Orderly s) {tx : TxId} {rows : List Row}
    (held : s.pool.locks.HoldsRows tx rows) : RowsLockedUntilEnd s tx rows := by
  intro row hrow
  obtain ⟨place, hplace, hlocked⟩ := held row hrow
  exact ⟨place, hplace, h.until hlocked⟩

/-! ## Rows put in and taken out -/

theorem locked_of_insert {s : Session} (h : Orderly s) {tx : TxId} {table : TableId} {fields : List Field}
    {place : RecordId} (answered : (run (.insert tx table fields) s).1 = .ok (.place place)) :
    (run (.insert tx table fields) s).2.pool.locks.mode? tx place.page = some .exclusive := by
  obtain ⟨r, hr, hputs⟩ : Puts tx fields s.pool (run (.insert tx table fields) s).1
      (run (.insert tx table fields) s).2.pool := run_does (.insert tx table fields) h.keyed
  rw [answered] at hr
  cases r with
  | error e => cases hr
  | ok place' =>
    cases hr
    rcases hputs with ⟨row, -, -, page, m, -, hsets, -⟩ | ⟨⟨e, he⟩, -⟩
    · rw [hsets.locks, hsets.locked]
    · cases he

theorem locked_of_delete {s : Session} (h : Orderly s) {tx : TxId} {place : RecordId} {answer : Answer}
    (answered : (run (.delete tx place) s).1 = .ok answer) :
    (run (.delete tx place) s).2.pool.locks.mode? tx place.page = some .exclusive := by
  have hdeletes : Deletes tx place s.pool (run (.delete tx place) s).1 (run (.delete tx place) s).2.pool :=
    run_does (.delete tx place) h.keyed
  rw [answered] at hdeletes
  obtain ⟨fields, page, m, -, hsets⟩ := hdeletes
  rw [hsets.locks, hsets.locked]

/-- A row that is there and was not, or is not there and was, is on a page that one of those who change rows
of its table has locked. -/
theorem locked_of_change {s : Session} (h : Orderly s) (faithful : Faithful s.pool) {a : Action}
    (asked : InTransaction a) (goes : ∀ u, ¬ Ends a u) {place : RecordId}
    (changed : (run a s).2.pool.rowAt? place ≠ s.pool.rowAt? place) :
    ∃ u, Acts s a u ∧ Changes s a u place.page.table ∧
      covers ((run a s).2.pool.locks.mode? u place.page) .exclusive = true := by
  cases (run_effect a asked h.keyed h.stand).works with
  | requests made =>
    rcases Requests.rowAt? made faithful h.wellKept place with hsame | hlocked
    · exact absurd hsame changed
    · exact hlocked
  | ends tx _ ends => exact absurd ends (goes tx)

theorem faithful_run {s : Session} (h : Orderly s) (faithful : Faithful s.pool) {a : Action}
    (asked : InTransaction a) : Faithful (run a s).2.pool := by
  cases (run_effect a asked h.keyed h.stand).works with
  | requests made => exact Requests.faithful made faithful
  | ends tx outcome _ result =>
    rw [result]
    exact (complete_faithful tx outcome faithful).2

theorem faithful_play {s : Session} (h : Orderly s) (faithful : Faithful s.pool) {actions : List Action}
    (asked : ∀ a ∈ actions, InTransaction a) : Faithful (play actions s).2.pool := by
  have hplay := play_keeps (I := fun s => Orderly s ∧ Faithful s.pool)
    (fun a s ha hs => ⟨hs.1.run ha, faithful_run hs.1 hs.2 ha⟩) asked ⟨h, faithful⟩
  exact hplay.2

/-! ## Walks -/

/-- A walk over the table for the transaction; the rows that it gave are locked. -/
def Goes (w : Walker) (tx : TxId) (table : TableId) (s : Session) : Prop :=
  ∃ c rows, s.walk? w = some c ∧ Scan.Holds tx table rows (c, s.pool)

/-- What a part of an action makes of a walk, and of the rows that it gave. -/
def Gives (w : Walker) (tx : TxId) (table : TableId) (r : Except Error (List Row)) (t : Session) : Prop :=
  ∃ c rows, t.walk? w = some c ∧ Scan.Holds tx table rows (c, t.pool) ∧
    ∀ others, r = .ok others → ∀ row ∈ others, row ∈ rows

section Walks

variable {w : Walker} {tx : TxId} {table : TableId} {s t : Session}

theorem Goes.gives (h : Goes w tx table s) : Gives w tx table (.ok []) s := by
  obtain ⟨c, rows, hc, hholds⟩ := h
  refine ⟨c, rows, hc, hholds, ?_⟩
  rintro _ ⟨⟩ row hrow
  cases hrow

theorem Gives.goes {r : Except Error (List Row)} (h : Gives w tx table r t) : Goes w tx table t := by
  obtain ⟨c, rows, hc, hholds, -⟩ := h
  exact ⟨c, rows, hc, hholds⟩

theorem Gives.holdsRows {rows : List Row} (h : Gives w tx table (.ok rows) t) :
    t.pool.locks.HoldsRows tx rows := by
  obtain ⟨c, all, -, hholds, hamong⟩ := h
  exact hholds.mem (hamong rows rfl)

/-- One more call of a scan. -/
theorem Gives.scanNext {name : String} {values : List (Option Row)}
    (h : Gives (.scan name) tx table (.ok (values.filterMap id)) s) :
    (scanNext name).Ends s fun r t =>
      Gives (.scan name) tx table ((r.map fun value => values ++ [value]).map (List.filterMap id)) t := by
  obtain ⟨c, rows, hc, hholds, hamong⟩ := h
  have hnext : (Step.focus (fun s => (c, s.pool)) (setScan name) Scan.next).Ends s fun r t =>
      Gives (.scan name) tx table ((r.map fun value => values ++ [value]).map (List.filterMap id)) t := by
    refine Step.Ends.focus (hholds.next.mono fun r t ht => ?_)
    refine ⟨t.1, _, (scans_setScan name s t name).trans (if_pos rfl), ht, ?_⟩
    intro others hothers row hrow
    cases r with
    | error e => cases hothers
    | ok value =>
      cases hothers
      rw [List.filterMap_append, List.mem_append] at hrow
      rcases hrow with hold | hnew
      · exact List.mem_append_left _ (hamong _ rfl row hold)
      · cases value with
        | none => cases hnew
        | some last => exact List.mem_append_right _ hnew
  rwa [Step.Ends, ← scanNext_run hc] at hnext

theorem Goes.nextRows {name : String} (count : Nat) (h : Goes (.scan name) tx table s) :
    (perform (.nextRows name count)).Ends s fun r t => Gives (.scan name) tx table (r.map Answer.walked) t := by
  simp only [perform]
  have heach := Step.Ends.each_answers (f := fun _ => Session.scanNext name) (l := List.range count)
    (P := fun r t => Gives (.scan name) tx table (r.map (List.filterMap id)) t)
    (fun _ _ values t ht => Gives.scanNext ht) (s := s)
    (show Gives (.scan name) tx table (.ok (([] : List (Option Row)).filterMap id)) s from h.gives)
  refine Step.Ends.bind heach ?_ ?_
  · exact fun values t ht => ht
  · exact fun e t ht => ht

end Walks

/-! ## Operators that walk -/

/-- A scan as an operator. -/
def walking (u : TxId) (of : TableId) (schema : Schema) (c : Scan) : Operator :=
  { plan := .scan u of schema, cursor := c }

theorem walking_of_walk? {s : Session} {name : String} {c : Scan} (h : s.walk? (.operator name) = some c) :
    ∃ u of schema, s.operators.get? name = some (walking u of schema c) := by
  unfold walk? at h
  dsimp only at h
  split at h
  · rename_i u of schema cursor hget
    cases h
    exact ⟨u, of, schema, hget⟩
  · cases h

section Operators

variable {u : TxId} {of : TableId} {schema : Schema} {tx : TxId} {table : TableId} {rows : List Row}
  {c : Scan} {p : Pool}

/-- What a call of a scan leaves: the rows that it gave before are locked, and these others are too. -/
def CallGives (tx : TxId) (table : TableId) (rows : List Row) (given : Except Error (List Row))
    (t : Scan × Pool) : Prop :=
  ∃ all, Scan.Holds tx table all t ∧ (∀ row ∈ rows, row ∈ all) ∧
    ∀ others, given = .ok others → ∀ row ∈ others, row ∈ all

theorem callGives_nothing (h : Scan.Holds tx table rows (c, p)) : CallGives tx table rows (.ok []) (c, p) :=
  ⟨rows, h, fun _ hrow => hrow, by rintro _ ⟨⟩ row ⟨⟩⟩

theorem next_callGives (h : Scan.Holds tx table rows (c, p)) :
    Scan.next.Ends (c, p) fun r t => CallGives tx table rows (r.map Option.toList) t := by
  refine h.next.mono fun r t ht => ⟨_, ht, fun row hrow => List.mem_append_left _ hrow, ?_⟩
  intro others hothers row hrow
  rcases r with e | _ | last
  · cases hothers
  · cases hothers
    cases hrow
  · cases hothers
    exact List.mem_append_right _ hrow

/-- All rows are collected from the start, wherever the scan stood. -/
theorem collect_callGives (schema : Schema) (h : Scan.Holds tx table rows (c.rewind, p)) :
    (Scan.source schema).collect.Ends (c, p) fun r t => CallGives tx table rows r t := by
  unfold Source.collect Source.drain
  have hrewind : (Scan.source schema).init (c, p) = (.ok (), (c.rewind, p)) := rfl
  refine Step.Ends.of_ok hrewind (Step.Ends.of_ok (Step.state_run _) ?_)
  refine (Scan.collect_gives (Scan.walk_locked tx table) _ h).mono ?_
  rintro r t ⟨⟨others, hgave⟩, hall⟩
  cases r with
  | error e =>
    exact ⟨_, hgave, fun row hrow => List.mem_append_left _ hrow, fun _ h => nomatch h⟩
  | ok others =>
    refine ⟨_, (hall others rfl).1, fun row hrow => List.mem_append_left _ hrow, ?_⟩
    rintro _ ⟨⟩ row hrow
    exact List.mem_append_right _ hrow

theorem map_walked {α : Type} (r : Except Error α) (f : α → CallAnswer) :
    (r.map f).map CallAnswer.walked = r.map fun a => (f a).walked := by
  cases r <;> rfl

/-- What one call of an operator that is a scan comes to. -/
def OperatorGives (u : TxId) (of : TableId) (schema : Schema) (tx : TxId) (table : TableId) (rows : List Row)
    (result : Except Error CallAnswer × Operator × Pool) : Prop :=
  ∃ t : Scan × Pool, result.2 = (walking u of schema t.1, t.2) ∧
    CallGives tx table rows (result.1.map CallAnswer.walked) t

theorem collect_operatorGives (schema : Schema) (h : Scan.Holds tx table rows (c.rewind, p)) :
    OperatorGives u of schema tx table rows ((walking u of schema c).call p .collect) := by
  refine ⟨((Scan.source schema).collect (c, p)).2, rfl, ?_⟩
  have hcollect := collect_callGives schema h
  unfold Step.Ends at hcollect
  change CallGives tx table rows
    ((((Scan.source schema).collect (c, p)).1.map CallAnswer.rows).map CallAnswer.walked) _
  rwa [map_walked, show (fun rows => (CallAnswer.rows rows).walked) = id from rfl, Except.map_id]

theorem call_operatorGives (schema : Schema) (h : Scan.Holds tx table rows (c, p)) (call : OperatorCall) :
    OperatorGives u of schema tx table rows ((walking u of schema c).call p call) := by
  cases call with
  | init => exact ⟨(c.rewind, p), rfl, callGives_nothing h.rewind⟩
  | next =>
    refine ⟨(Scan.next (c, p)).2, rfl, ?_⟩
    have hnext := next_callGives h
    unfold Step.Ends at hnext
    change CallGives tx table rows (((Scan.next (c, p)).1.map CallAnswer.row).map CallAnswer.walked) _
    rwa [map_walked]
  | collect => exact collect_operatorGives schema h.rewind
  | schema => exact ⟨(c, p), rfl, callGives_nothing h⟩

/-- All calls, whatever comes of the single ones. -/
theorem callAll_gives (schema : Schema) (calls : List OperatorCall) (h : Scan.Holds tx table rows (c, p)) :
    ∃ t, (Operator.callAll calls (walking u of schema c) p).2 = (walking u of schema t.1, t.2) ∧
      CallGives tx table rows (.ok (Answer.walked
        (.calls (Operator.callAll calls (walking u of schema c) p).1))) t := by
  induction calls generalizing rows c p with
  | nil => exact ⟨(c, p), rfl, callGives_nothing h⟩
  | cons call rest ih =>
    obtain ⟨⟨c', q⟩, hcall, all, hall, hkept, hgiven⟩ : OperatorGives u of schema tx table rows
      ((walking u of schema c).call p call) := call_operatorGives schema h call
    obtain ⟨t, hrest, all', hall', hkept', hgiven'⟩ := ih hall
    have hrun : Operator.callAll (call :: rest) (walking u of schema c) p =
        (((walking u of schema c).call p call).1 :: (Operator.callAll rest (walking u of schema c') q).1,
          (Operator.callAll rest (walking u of schema c') q).2) := by
      have hafter := hcall
      rcases hcall' : (walking u of schema c).call p call with ⟨r, o, q'⟩
      rw [hcall'] at hafter
      cases hafter
      rw [Operator.callAll, hcall']
    rw [hrun]
    refine ⟨t, hrest, all', hall', fun row hrow => hkept' row (hkept row hrow), ?_⟩
    rintro _ ⟨⟩ row hrow
    rw [Answer.walked, List.filterMap_cons] at hrow
    cases hr : ((walking u of schema c).call p call).1 with
    | error e =>
      rw [hr] at hrow
      exact hgiven' _ rfl row hrow
    | ok answer =>
      rw [hr] at hrow hgiven
      rcases List.mem_append.mp hrow with hnow | hlater
      · exact hkept' row (hgiven _ rfl row hnow)
      · exact hgiven' _ rfl row hlater

end Operators

theorem callOperator_gives {name : String} {call : OperatorCall} {s : Session} {u : TxId} {of : TableId}
    {schema : Schema} {c : Scan} (hget : s.operators.get? name = some (walking u of schema c)) {tx : TxId}
    {table : TableId} {rows : List Row}
    (hcall : OperatorGives u of schema tx table rows ((walking u of schema c).call s.pool call)) :
    (perform (.callOperator name call)).Ends s fun r t =>
      Gives (.operator name) tx table (r.map Answer.walked) t := by
  obtain ⟨⟨c', q⟩, hcall, all, hall, -, hgiven⟩ := hcall
  simp only [perform]
  refine Step.Ends.of_ok (Step.state_run s) ?_
  rw [hget]
  refine Step.Ends.of_ok rfl ?_
  rcases hrun : (walking u of schema c).call s.pool call with ⟨r, o, q'⟩
  rw [hrun] at hcall hgiven
  cases hcall
  have hafter : Session.walk? { s with
      pool := q, operators := s.operators.insert name (walking u of schema c') } (.operator name) = some c' := by
    simp only [walk?, Assoc.get?_insert, if_true, walking]
  refine Step.Ends.of_ok (Step.update_run _ s) ?_
  cases r with
  | error e => exact ⟨c', all, hafter, hall, fun _ h => by cases h⟩
  | ok answer => exact ⟨c', all, hafter, hall, hgiven⟩

theorem Goes.callOperator {name : String} (call : OperatorCall) {tx : TxId} {table : TableId} {s : Session}
    (h : Goes (.operator name) tx table s) : (perform (.callOperator name call)).Ends s fun r t =>
      Gives (.operator name) tx table (r.map Answer.walked) t := by
  obtain ⟨c, rows, hc, hholds⟩ := h
  obtain ⟨u, of, schema, hget⟩ := walking_of_walk? hc
  exact callOperator_gives hget (call_operatorGives schema hholds call)

/-! ## Walks in a run -/

section Runs

variable {w : Walker} {tx : TxId} {table : TableId} {s : Session} {a : Action}

/-- An action that is about a walk gives its rows, or none. -/
theorem Goes.named (h : Goes w tx table s) (names : Names w a) (kept : ¬ Opens w a) :
    Gives w tx table ((run a s).1.map Answer.walked) (run a s).2 := by
  cases a
  case openScan => exact absurd names kept
  case openOperator => exact absurd names kept
  case nextRows name count =>
    obtain rfl : w = .scan name := names
    exact h.nextRows count
  case callOperator name call =>
    obtain rfl : w = .operator name := names
    exact h.callOperator call
  case rewind name =>
    obtain rfl : w = .scan name := names
    obtain ⟨c, rows, hc, hholds⟩ := h
    have hafter : (s.scans.modify name Scan.rewind).get? name = some c.rewind := by
      rw [Assoc.get?_modify, if_pos rfl, show s.scans.get? name = some c from hc]
      rfl
    exact ⟨c.rewind, rows, hafter, hholds.rewind, by rintro _ ⟨⟩ row ⟨⟩⟩
  all_goals exact absurd names id

theorem Goes.run (h : Goes w tx table s) (orderly : Orderly s) (asked : InTransaction a)
    (goes : ¬ Ends a tx) (kept : ¬ Opens w a) : Goes w tx table (run a s).2 := by
  by_cases names : Names w a
  · exact (h.named names kept).goes
  · obtain ⟨works, -, walks⟩ := run_effect a asked orderly.keyed orderly.stand
    obtain ⟨c, rows, hc, hholds⟩ := h
    refine ⟨c, rows, (walks w names).trans hc, hholds.of_pool fun _ rows h => ?_⟩
    cases works with
    | requests made => exact h.requests made
    | ends u outcome ends result =>
      rw [result]
      refine h.complete ?_ outcome
      rintro rfl
      exact goes ends

theorem Goes.play (h : Goes w tx table s) (orderly : Orderly s) {actions : List Action}
    (before : Before tx actions) (kept : ∀ a ∈ actions, ¬ Opens w a) :
    Goes w tx table (play actions s).2 := by
  have hplay := play_keeps (I := fun s => Orderly s ∧ Goes w tx table s)
    (A := fun a => (InTransaction a ∧ ¬ Ends a tx) ∧ ¬ Opens w a)
    (fun a s ha hs => ⟨hs.1.run ha.1.1, hs.2.run hs.1 ha.1.1 ha.1.2 ha.2⟩)
    (fun a ha => ⟨before a ha, kept a ha⟩) ⟨orderly, h⟩
  exact hplay.2

end Runs

/-- The action begins a walk over the table and gives its rows. -/
def WalksOver (s : Session) (tx : TxId) (table : TableId) : Action → Prop
  | .scan u of => u = tx ∧ of = table
  | .exec query _ => query = .scan tx table
  | .callOperator name .collect => ∃ c, s.walk? (.operator name) = some c ∧ c.tx = tx ∧ c.table = table
  | _ => False

theorem holdsRows_of_walksOver {s : Session} (h : Orderly s) {tx : TxId} {table : TableId} {a : Action}
    (walks : WalksOver s tx table a) {answer : Answer} (answered : (run a s).1 = .ok answer) :
    (run a s).2.pool.locks.HoldsRows tx answer.walked := by
  have hstart : Scan.Holds tx table [] (Scan.start tx table, s.pool) :=
    Scan.holds_start h.keyed h.wellKept
  have hends : (perform a).Ends s fun r t =>
      ∀ answer, r = .ok answer → t.pool.locks.HoldsRows tx answer.walked := by
    cases a
    case scan u of =>
      obtain ⟨rfl, rfl⟩ := walks
      simp only [perform]
      obtain ⟨-, hall⟩ := Scan.drain_gives (Scan.walk_locked u of) hstart
      have hscan : (Database.scan u of).Ends s.pool fun r q =>
          ∀ rows, r = .ok rows → q.locks.HoldsRows u rows :=
        fun rows hrows => (Scan.Holds.locked (hall rows hrows).1).rows
      refine onPool_ends (hscan.mono ?_)
      rintro (e | rows) q hrows _ ⟨⟩
      exact hrows rows rfl
    case exec query calls =>
      obtain rfl : query = .scan tx table := walks
      simp only [perform]
      refine Step.Ends.bind (planOf_ends _ s) ?_ (fun _ _ _ _ h => by cases h)
      rintro plan t ⟨rfl, hplan⟩
      have hplan := hplan plan rfl
      cases hschema : t.pool.catalog.schemaOf table with
      | error e =>
        rw [Query.plan, hschema] at hplan
        cases hplan
      | ok schema =>
        rw [Query.plan, hschema] at hplan
        cases hplan
        let first := walking tx table schema (Scan.start tx table)
        obtain ⟨t', hrun, all, hall, -, hgiven⟩ : ∃ t', (Operator.callAll calls first t.pool).2 =
            (walking tx table schema t'.1, t'.2) ∧ CallGives tx table [] (.ok (Answer.walked
              (.calls (Operator.callAll calls first t.pool).1))) t' := callAll_gives schema calls hstart
        rintro _ ⟨⟩
        have hpool : (Operator.callAll calls (walking tx table schema (Scan.start tx table)) t.pool).2.2 =
            t'.2 := congrArg Prod.snd hrun
        change LockTable.HoldsRows (Operator.callAll calls (walking tx table schema (Scan.start tx table))
          t.pool).2.2.locks tx _
        rw [hpool]
        exact hall.mem (hgiven _ rfl)
    case callOperator name call =>
      cases call
      case collect =>
        obtain ⟨c, hc, rfl, rfl⟩ := walks
        obtain ⟨u, of, schema, hget⟩ := walking_of_walk? hc
        refine (callOperator_gives hget (collect_operatorGives schema hstart)).mono ?_
        rintro r t hgives answer rfl
        exact hgives.holdsRows
      all_goals exact absurd walks id
    all_goals exact absurd walks id
  exact hends answer answered

/-! ## The laws -/

/-- How the locks behave, whatever is asked of a session next. -/
structure TwoPhase (s : Session) : Prop where
  /-- Nobody's locks are changed by what is done for others. -/
  others : ∀ a u id, InTransaction a → ¬ Acts s a u →
    (run a s).2.pool.locks.mode? u id = s.pool.locks.mode? u id
  /-- Only its own end takes a lock from a transaction, or makes it weaker. -/
  kept : ∀ a u id mode, InTransaction a → ¬ Ends a u →
    covers (s.pool.locks.mode? u id) mode = true → covers ((run a s).2.pool.locks.mode? u id) mode = true
  /-- A commit and an abort, whatever they answer, leave no lock to their transaction. -/
  released : ∀ a u id, Ends a u → (run a s).2.pool.locks.mode? u id = none
  inserted : ∀ tx table fields place, (run (.insert tx table fields) s).1 = .ok (.place place) →
    LockedUntilEnd (run (.insert tx table fields) s).2 tx place.page .exclusive
  deleted : ∀ tx place answer, (run (.delete tx place) s).1 = .ok answer →
    LockedUntilEnd (run (.delete tx place) s).2 tx place.page .exclusive
  /-- Rows of a walk that begins and ends with one action. -/
  scanned : ∀ tx table a answer, WalksOver s tx table a → (run a s).1 = .ok answer →
    RowsLockedUntilEnd (run a s).2 tx answer.walked
  /-- Rows of a walk that begins here, or begins here again, and goes on later. -/
  walked : ∀ w tx table, s.walk? w = some (Scan.start tx table) →
    ∀ between, Before tx between → (∀ a ∈ between, ¬ Opens w a) →
    ∀ a answer, Names w a → ¬ Opens w a → (run a (play between s).2).1 = .ok answer →
      RowsLockedUntilEnd (run a (play between s).2).2 tx answer.walked
  /-- Rows of any scan that begins here, also of one inside of a tree of operators. -/
  inside : ∀ tx table c rows p, Scan.Walked tx table s.pool c rows p → p.locks.HoldsRows tx rows

theorem Orderly.twoPhase {s : Session} (h : Orderly s) : TwoPhase s where
  others _ _ id asked hu := others_run h asked hu id
  kept _ _ _ _ asked hu held := kept_run h asked hu held
  released a u id ends := released_of_end h ends id
  inserted tx table fields place answered := by
    refine (h.run (a := .insert tx table fields) trivial).until ?_
    rw [locked_of_insert h answered]
    rfl
  deleted tx place answer answered := by
    refine (h.run (a := .delete tx place) trivial).until ?_
    rw [locked_of_delete h answered]
    rfl
  scanned tx table a answer walks answered := by
    have asked : InTransaction a := by cases a <;> trivial
    exact (h.run asked).rowsUntil (holdsRows_of_walksOver h walks answered)
  walked w tx table hwalk between before kept a answer names opens answered := by
    have asked := inTransaction_of_names names
    have hstart : Goes w tx table s := ⟨_, [], hwalk, Scan.holds_start h.keyed h.wellKept⟩
    have horderly := h.play fun a ha => (before a ha).1
    have hgives := (hstart.play h before kept).named names opens
    rw [answered] at hgives
    exact (horderly.run asked).rowsUntil hgives.holdsRows
  inside tx table c rows p walked := (walked.holds h.keyed h.wellKept).locked.rows

theorem orderly_of_new {storage : Storage} {config : Config} {pool : Pool}
    (new : Pool.new storage config = .ok pool) : Orderly { pool } := by
  have hguarded := guarded_of_new new
  exact ⟨hguarded.keyed, hguarded.locks, fun _ _ h => nomatch h⟩

/-- A committed row, and a scan that has not begun. -/
def scanOpened : List Action := [.insert 7 1 [.int 5], .commit 7, .openScan "w" 8 1]

/-- One more row, put in by an operator for one transaction, below a join that walks over the table for
another one, and is refused. -/
def putInBelow : Query :=
  .join ⟨0, .equal, 0⟩ (.insert 9 1 (.values [⟨"n", .int⟩] [[.int 6]] none none)) (.scan 8 1)

def putIn : Action := .exec putInBelow [.init, .next]

end Session

end PageStore
