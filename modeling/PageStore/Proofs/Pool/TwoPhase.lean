-- Two phases of locking, request by request. Until a transaction ends its requests take
-- locks and give none back, but those that the same request took; they leave everybody
-- else's locks alone, and show only on pages that are locked to be changed. The end of a
-- transaction gives all its locks back, and no others.
import PageStore.Proofs.Pool.Visible
import PageStore.Proofs.Scan

namespace PageStore

namespace LockTable

/-- The locks are those of before, but that these transactions may hold more pages, and hold pages in a
stronger mode. -/
structure Grows (who : TxId → Prop) (t t' : LockTable) : Prop where
  others : ∀ u id, ¬ who u → t'.mode? u id = t.mode? u id
  kept : ∀ u id mode, covers (t.mode? u id) mode = true → covers (t'.mode? u id) mode = true

theorem Grows.refl (who : TxId → Prop) (t : LockTable) : Grows who t t :=
  ⟨fun _ _ _ => rfl, fun _ _ _ h => h⟩

theorem Grows.trans {who : TxId → Prop} {t m t' : LockTable} (h : Grows who t m) (h' : Grows who m t') :
    Grows who t t' :=
  ⟨fun u id hu => (h'.others u id hu).trans (h.others u id hu),
    fun u id mode hm => h'.kept u id mode (h.kept u id mode hm)⟩

theorem Grows.mono {who who' : TxId → Prop} {t t' : LockTable} (h : Grows who t t')
    (hwho : ∀ u, who u → who' u) : Grows who' t t' :=
  ⟨fun u id hu => h.others u id fun hw => hu (hwho u hw), h.kept⟩

theorem covers_greater {held : Option LockMode} (asked : LockMode) {mode : LockMode}
    (h : covers held mode = true) : covers (some (Modes.greater held asked)) mode = true := by
  rcases held with _ | _ | _
  · cases h
  · cases mode
    · cases asked <;> rfl
    · cases h
  · rfl

theorem grows_tryGrant {t : LockTable} (h : t.WellKept) (tx : TxId) (id : PageId) (mode : LockMode) :
    Grows (· = tx) t (t.tryGrant tx id mode).2 := by
  obtain ⟨-, hafter, -⟩ := tryGrant_spec h ⟨tx, id, mode⟩
  refine ⟨fun u other hu => ?_, fun u other mode' hm => ?_⟩
  · rw [hafter]
    split
    · simp only [Modes.grant, Modes.set, hu, false_and, if_false]
    · rfl
  · rw [hafter]
    split
    · simp only [Modes.grant, Modes.set]
      split
      · rename_i heq
        rw [heq.1, heq.2] at hm
        exact covers_greater mode hm
      · exact hm
    · exact hm

end LockTable

namespace Pool

open LockTable

/-- The locks are well kept all along, and those of one transaction grow. Locks that are given back on the
way were not there at the start. -/
theorem Quiets.grows {tx : TxId} {p q : Pool} (h : Quiets p.locks tx p q) (hp : p.locks.WellKept) :
    q.locks.WellKept ∧ Grows (· = tx) p.locks q.locks := by
  induction h with
  | refl => exact ⟨hp, .refl _ _⟩
  | tail _ move ih =>
    obtain ⟨hm, hgrows⟩ := ih
    cases move with
    | look move =>
      cases move with
      | lock id mode =>
        exact ⟨(tryGrant_spec hm ⟨tx, id, mode⟩).2.2, hgrows.trans (grows_tryGrant hm tx id mode)⟩
      | use => exact ⟨hm, hgrows⟩
      | drop => exact ⟨hm, hgrows⟩
      | load => exact ⟨hm, hgrows⟩
    | giveBack id fresh =>
      refine ⟨wellKept_release hm tx id, fun u other hu => ?_, fun u other mode hheld => ?_⟩
      · rw [locks_withLocks, mode?_release, ← hgrows.others u other hu]
        simp only [Modes.set, hu, false_and, if_false]
      · rw [locks_withLocks, mode?_release, Modes.set]
        split
        · rename_i heq
          rw [heq.1, heq.2, fresh] at hheld
          cases hheld
        · exact hgrows.kept u other mode hheld
    | grow => exact ⟨hm, hgrows⟩

/-! ## Requests of transactions -/

/-- What one request of one of these transactions comes to: it looks for pages, and it may set one slot of
a page that it has locked, if its rows of that table are to be changed. -/
inductive Request (who : TxId → Prop) (into : TxId → TableId → Prop) (p q : Pool) : Prop where
  | quiet (tx : TxId) (mine : who tx) (moves : Quiets p.locks tx p q)
  | change (tx : TxId) (mine : who tx) {place : RecordId} {old new : Option (List Field)} {page : Page}
      {m : Pool} (moves : Quiets p.locks tx p m) (sets : Sets tx place old new page m q)
      (fit : ∀ fields, new = some fields → Row.Fit page.schema fields)
      (table : p.storage.OwnFiles → into tx place.page.table)

abbrev Requests (who : TxId → Prop) (into : TxId → TableId → Prop) : Pool → Pool → Prop :=
  Relation.ReflTransGen (Request who into)

section Made

variable {who : TxId → Prop} {into : TxId → TableId → Prop} {tx : TxId} {p q : Pool} (mine : who tx)

include mine

theorem Looks.request (h : Looks tx p q) : Request who into p q := .quiet tx mine (Quiets.of_looks h)

theorem Inserts.request {row : Row} {r : Except Error RecordId} (typed : row.Typed)
    (h : Inserts tx row p r q)
    (table : ∀ place, r = .ok place → p.storage.OwnFiles → into tx place.page.table) : Request who into p q := by
  cases r with
  | error e => exact .quiet tx mine h
  | ok place =>
    obtain ⟨page, m, hmoves, hsets, hinserted⟩ := h
    refine .change tx mine hmoves hsets ?_ (table place rfl)
    rintro fields ⟨⟩
    exact hinserted.fit typed

theorem Deletes.request {α : Type} {place : RecordId} {r : Except Error α} (h : Deletes tx place p r q)
    (table : into tx place.page.table) : Request who into p q := by
  cases r with
  | error e => exact Looks.request mine h
  | ok a =>
    obtain ⟨fields, page, m, hmoves, hsets⟩ := h
    exact .change tx mine (Quiets.of_looks hmoves) hsets (fun _ hnone => nomatch hnone) fun _ => table

end Made

section Request

variable {who who' : TxId → Prop} {into into' : TxId → TableId → Prop} {p q : Pool}

theorem Request.mono (h : Request who into p q) (hwho : ∀ u, who u → who' u)
    (hinto : ∀ u table, into u table → into' u table) : Request who' into' p q := by
  cases h with
  | quiet tx mine moves => exact .quiet tx (hwho tx mine) moves
  | change tx mine moves sets fit table =>
    exact .change tx (hwho tx mine) moves sets fit fun own => hinto tx _ (table own)

theorem Request.keyed (h : Request who into p q) (hp : Keyed p) : Keyed q := by
  cases h with
  | quiet tx mine moves => exact Quiets.keyed moves hp
  | change tx mine moves sets => exact sets.keyed (Quiets.keyed moves hp)

theorem Request.faithful (h : Request who into p q) (hp : Faithful p) : Faithful q := by
  cases h with
  | quiet tx mine moves => exact Quiets.faithful moves hp
  | change tx mine moves sets fit => exact sets.faithful fit (Quiets.faithful moves hp)

/-- A request adds to the locks of its own transaction. -/
theorem Request.grows (h : Request who into p q) (hp : p.locks.WellKept) :
    q.locks.WellKept ∧ Grows who p.locks q.locks := by
  cases h with
  | quiet tx mine moves =>
    obtain ⟨hq, hgrows⟩ := Quiets.grows moves hp
    exact ⟨hq, hgrows.mono fun u hu => hu ▸ mine⟩
  | change tx mine moves sets =>
    obtain ⟨hm, hgrows⟩ := Quiets.grows moves hp
    rw [sets.locks]
    exact ⟨hm, hgrows.mono fun u hu => hu ▸ mine⟩

/-- What is to be seen at a place changes only for a transaction that changes rows of the table, and has
locked the page. -/
theorem Request.rowAt? (h : Request who into p q) (hp : Faithful p) (place : RecordId) :
    q.rowAt? place = p.rowAt? place ∨
      ∃ u, who u ∧ into u place.page.table ∧ q.locks.mode? u place.page = some .exclusive := by
  cases h with
  | quiet tx mine moves => exact .inl (Quiets.rowAt? moves hp place)
  | @change tx mine changed _ _ _ m moves sets _ table =>
    by_cases hplace : place = changed
    · subst hplace
      exact .inr ⟨tx, mine, table hp.own, by rw [sets.locks, sets.locked]⟩
    · exact .inl ((sets.rowAt? hplace).trans (Quiets.rowAt? moves hp place))

theorem Requests.mono (h : Requests who into p q) (hwho : ∀ u, who u → who' u)
    (hinto : ∀ u table, into u table → into' u table) : Requests who' into' p q :=
  Relation.ReflTransGen.mono (fun _ _ move => move.mono hwho hinto) _ _ h

theorem Requests.keyed (h : Requests who into p q) (hp : Keyed p) : Keyed q := by
  induction h with
  | refl => exact hp
  | tail _ move ih => exact move.keyed ih

theorem Requests.faithful (h : Requests who into p q) (hp : Faithful p) : Faithful q := by
  induction h with
  | refl => exact hp
  | tail _ move ih => exact move.faithful ih

theorem Requests.grows (h : Requests who into p q) (hp : p.locks.WellKept) :
    q.locks.WellKept ∧ Grows who p.locks q.locks := by
  induction h with
  | refl => exact ⟨hp, .refl _ _⟩
  | tail _ move ih =>
    obtain ⟨hm, hgrows⟩ := ih
    obtain ⟨hq, hgrows'⟩ := move.grows hm
    exact ⟨hq, hgrows.trans hgrows'⟩

theorem Requests.rowAt? (h : Requests who into p q) (hp : Faithful p) (hl : p.locks.WellKept)
    (place : RecordId) : q.rowAt? place = p.rowAt? place ∨
      ∃ u, who u ∧ into u place.page.table ∧ covers (q.locks.mode? u place.page) .exclusive = true := by
  induction h with
  | refl => exact .inl rfl
  | @tail m q moves move ih =>
    obtain ⟨-, hgrows⟩ := move.grows (Requests.grows moves hl).1
    rcases ih with hsame | ⟨u, hu, htable, hlocked⟩
    · rcases move.rowAt? (Requests.faithful moves hp) place with hsame' | ⟨u, hu, htable, hlocked⟩
      · exact .inl (hsame'.trans hsame)
      · exact .inr ⟨u, hu, htable, by rw [hlocked]; rfl⟩
    · exact .inr ⟨u, hu, htable, hgrows.kept u _ _ hlocked⟩

end Request

/-! ## What makes requests -/

/-- A pool after requests, beside what it takes to make the next one. -/
structure Made (who : TxId → Prop) (into : TxId → TableId → Prop) (p q : Pool) : Prop where
  requests : Requests who into p q
  keyed : Keyed q

section Made

variable {who : TxId → Prop} {into : TxId → TableId → Prop} {tx : TxId} {p q : Pool}

theorem Made.request {q' : Pool} (h : Made who into p q) (made : Request who into q q') : Made who into p q' :=
  ⟨h.requests.tail made, made.keyed h.keyed⟩

theorem Made.fetch (h : Made who into p q) (mine : who tx) (id : PageId) (mode : LockMode) :
    Made who into p (Pool.fetch tx id mode q).2 :=
  h.request (Looks.request mine (fetchBeside_ends [] tx id mode q).1)

theorem Made.insert (h : Made who into p q) (mine : who tx) {table : TableId} (puts : into tx table) {row : Row}
    (typed : row.Typed) : Made who into p (Pool.insert tx table row q).2 := by
  obtain ⟨hinserts, hplace⟩ := insert_places tx table row h.keyed
  refine h.request (Inserts.request mine typed hinserts fun place hr own => ?_)
  obtain ⟨file, known, htable⟩ := hplace place hr
  rwa [htable, own.keyed table file known]

end Made

/-! ## The end of a transaction -/

/-- However an end goes, all that becomes of the locks is that the transaction has none any more. -/
theorem complete_locks (tx : TxId) (outcome : Outcome) {p : Pool} (hp : Keyed p) :
    Keyed (complete tx outcome p).2 ∧
      (complete tx outcome p).2.locks = (p.locks.releaseAll tx).2 := by
  obtain ⟨m, ⟨hsettles, hresult⟩, -⟩ := complete_ends tx outcome hp
  rw [hresult]
  refine ⟨hsettles.keyed hp, ?_⟩
  rw [locks_withLocks, hsettles.locks]

/-- The locks of all others are as before. -/
theorem complete_mode? (tx : TxId) (outcome : Outcome) {p : Pool} (hp : Keyed p)
    (hl : p.locks.WellKept) (u : TxId) (id : PageId) :
    (complete tx outcome p).2.locks.mode? u id = if u = tx then none else p.locks.mode? u id := by
  rw [(complete_locks tx outcome hp).2, mode?_releaseAll hl]
  rfl

theorem complete_wellKept (tx : TxId) (outcome : Outcome) {p : Pool} (hp : Keyed p)
    (hl : p.locks.WellKept) : (complete tx outcome p).2.locks.WellKept := by
  rw [(complete_locks tx outcome hp).2]
  exact wellKept_releaseAll hl tx

end Pool

/-! ## Scans -/

/-- These rows lie on pages that the transaction has locked. -/
def LockTable.HoldsRows (t : LockTable) (tx : TxId) (rows : List Row) : Prop :=
  ∀ row ∈ rows, ∃ place, row.place = some place ∧ covers (t.mode? tx place.page) .shared = true

theorem LockTable.HoldsRows.append {t : LockTable} {tx : TxId} {rows others : List Row}
    (h : t.HoldsRows tx rows) (h' : t.HoldsRows tx others) : t.HoldsRows tx (rows ++ others) := by
  intro row hrow
  rcases List.mem_append.mp hrow with hold | hnew
  · exact h row hold
  · exact h' row hnew

namespace Scan

open Pool LockTable

/-- What is known of a pool over which scans go, and of the rows that one of them read. -/
structure Locked (tx : TxId) (rows : List Row) (p : Pool) : Prop where
  keyed : Keyed p
  wellKept : p.locks.WellKept
  rows : p.locks.HoldsRows tx rows

variable {tx : TxId} {table : TableId} {rows : List Row} {p q : Pool}

/-- The rows stay locked as long as the transaction keeps its locks. -/
theorem Locked.mono (h : Locked tx rows p) (keyed : Keyed q) (wellKept : q.locks.WellKept)
    (kept : ∀ id mode, covers (p.locks.mode? tx id) mode = true → covers (q.locks.mode? tx id) mode = true) :
    Locked tx rows q := by
  refine ⟨keyed, wellKept, fun row hrow => ?_⟩
  obtain ⟨place, hplace, hlocked⟩ := h.rows row hrow
  exact ⟨place, hplace, kept _ _ hlocked⟩

theorem Locked.requests {who : TxId → Prop} {into : TxId → TableId → Prop} (h : Locked tx rows p)
    (made : Requests who into p q) : Locked tx rows q := by
  obtain ⟨hl, hgrows⟩ := Requests.grows made h.wellKept
  exact h.mono (Requests.keyed made h.keyed) hl (hgrows.kept tx)

/-- The end of another transaction. -/
theorem Locked.complete (h : Locked tx rows p) {u : TxId} (hu : tx ≠ u) (outcome : Outcome) :
    Locked tx rows (Pool.complete u outcome p).2 := by
  refine h.mono (complete_locks u outcome h.keyed).1 (complete_wellKept u outcome h.keyed h.wellKept) ?_
  intro id mode hlocked
  rwa [complete_mode? u outcome h.keyed h.wellKept, if_neg hu]

theorem walk_locked (tx : TxId) (table : TableId) : Walk tx table fun _ => Locked tx where
  got n rows p page q h hrun := by
    obtain ⟨hpage, hcovers⟩ := got_of_fetch hrun
    have hmade : Request (· = tx) (fun _ _ => False) p q := Looks.request rfl (looks_of_fetch hrun)
    have hq : Locked tx rows q := h.requests (.single hmade)
    have hid : page.id = ⟨table, n⟩ := hq.keyed _ page hpage
    refine ⟨hq.keyed, hq.wellKept, hq.rows.append fun row hrow => ?_⟩
    obtain ⟨slot, hplace⟩ := Page.place_of_mem_rows hrow
    exact ⟨_, hplace, hid ▸ hcovers⟩
  notGot n rows p e q h hrun := by
    have hmade : Request (· = tx) (fun _ _ => False) p q := Looks.request rfl (looks_of_fetch hrun)
    exact h.requests (.single hmade)

/-- A scan that gave these rows; they are locked, and so are those that it will give without reading
another page. -/
abbrev Holds (tx : TxId) (table : TableId) (rows : List Row) (s : Scan × Pool) : Prop :=
  Gave tx table (fun _ => Locked tx) rows s

theorem Holds.locked {c : Scan} (h : Holds tx table rows (c, p)) : Locked tx rows p := by
  obtain ⟨-, more, hlocked⟩ := h.known
  exact ⟨hlocked.keyed, hlocked.wellKept, fun row hrow => hlocked.rows row (List.mem_append_left more hrow)⟩

theorem Holds.mem {c : Scan} (h : Holds tx table rows (c, p)) {others : List Row}
    (among : ∀ row ∈ others, row ∈ rows) : p.locks.HoldsRows tx others :=
  fun row hrow => h.locked.rows row (among row hrow)

theorem Holds.rewind {c : Scan} (h : Holds tx table rows (c, p)) : Holds tx table rows (c.rewind, p) := by
  refine ⟨h.tx, h.table, fun _ => ?_, fun hover => nomatch hover⟩
  rw [show c.rewind.queue = [] from rfl, List.append_nil]
  exact h.locked

/-- The rows that a call gave. -/
def given : Except Error (Option Row) → List Row
  | .ok (some row) => [row]
  | .ok none => []
  | .error _ => []

theorem Holds.next {c : Scan} (h : Holds tx table rows (c, p)) :
    Scan.next.Ends (c, p) fun r t => Holds tx table (rows ++ given r) t := by
  refine (next_gives (walk_locked tx table) h).mono ?_
  rintro (e | _ | row) t ht
  · rwa [given, List.append_nil]
  · rw [given, List.append_nil]
    exact ht.2.1
  · exact ht.2

theorem holds_start (keyed : Keyed p) (wellKept : p.locks.WellKept) :
    Holds tx table [] (start tx table, p) :=
  gave_start ⟨keyed, wellKept, fun _ hrow => nomatch hrow⟩

/-- A scan of this table that begins on the pool `p`, the rows that it gave, and the pool in the end. It
may begin again, and between its calls anything is asked of the pool, but for the end of its own
transaction. -/
inductive Walked (tx : TxId) (table : TableId) (p : Pool) : Scan → List Row → Pool → Prop where
  | start : Walked tx table p (Scan.start tx table) [] p
  | next {c : Scan} {rows : List Row} {q : Pool} (h : Walked tx table p c rows q) :
      Walked tx table p (Scan.next (c, q)).2.1 (rows ++ given (Scan.next (c, q)).1) (Scan.next (c, q)).2.2
  | rewind {c : Scan} {rows : List Row} {q : Pool} (h : Walked tx table p c rows q) :
      Walked tx table p c.rewind rows q
  | request {c : Scan} {rows : List Row} {q q' : Pool} (h : Walked tx table p c rows q)
      {who : TxId → Prop} {into : TxId → TableId → Prop} (made : Request who into q q') : Walked tx table p c rows q'
  | complete {c : Scan} {rows : List Row} {q : Pool} (h : Walked tx table p c rows q) {u : TxId}
      (other : tx ≠ u) (outcome : Outcome) : Walked tx table p c rows (Pool.complete u outcome q).2

theorem Walked.holds {c : Scan} (h : Walked tx table p c rows q) (keyed : Keyed p)
    (wellKept : p.locks.WellKept) : Holds tx table rows (c, q) := by
  induction h with
  | start => exact holds_start keyed wellKept
  | next _ ih => exact ih.next
  | rewind _ ih => exact ih.rewind
  | request _ made ih => exact ih.of_pool fun _ _ h => h.requests (.single made)
  | complete _ other outcome ih => exact ih.of_pool fun _ _ h => h.complete other outcome

end Scan

end PageStore
