-- What the actions of a client do to the pool. The names under which a client keeps
-- pages, scans and operators lie beside the pool, so what is true of the pool alone
-- is proved from here on.
import PageStore.Session.Run
import PageStore.Proofs.Pool.Requests

namespace PageStore.Session

open Pool

/-! ## Effects -/

/-- A row of these values is put in for a transaction, if anything is. -/
def Puts (tx : TxId) (fields : List Field) (p : Pool) (r : Except Error Answer) (q : Pool) : Prop :=
  ∃ r' : Except Error RecordId, r = r'.map .place ∧
    ((∃ row : Row, row.Typed ∧ row.fields = fields ∧ Inserts tx row p r' q) ∨
      (∃ e, r' = .error e) ∧ q = p)

/-- What an action does to the pool, for the actions that speak of transactions and their pages. -/
def Does (p : Pool) : Action → Except Error Answer → Pool → Prop
  | .createTable name _, _, q => q = p ∨
      ∃ schema, q = { p with storage := (Storage.createTable name schema p.storage).2 }
  | .fetch tx id mode _ _, r, q => Looks tx p q ∧ ∀ page, r = .ok (.page page) →
      q.page? id = some page ∧ LockTable.covers (q.locks.mode? tx id) mode = true
  | .insert tx _ fields, r, q => Puts tx fields p r q
  | .poolInsert tx _ fields _, r, q => Puts tx fields p r q
  | .delete tx place, r, q => Deletes tx place p r q
  | .poolDelete tx (some place) _ _, r, q => Deletes tx place p r q
  | .poolDelete tx none _ _, r, q => (∃ e, r = .error e) ∧ Looks tx p q
  | .scan tx _, _, q => Looks tx p q
  | .nextRows _ _, _, q => ∃ tx, Looks tx p q
  | .openScan _ _ _, _, q => q = p
  | .rewind _, _, q => q = p
  | .flush tx, r, q => (r, q) = ((Pool.flush tx p).1.map fun _ => .nothing, (Pool.flush tx p).2)
  | .flushAll, r, q => (r, q) = ((Pool.flushAll p).1.map fun _ => .nothing, (Pool.flushAll p).2)
  | .discard id, r, q => r = .ok .nothing ∧ q = (Pool.discard id p).2
  | .release tx id, r, q => r = .ok .nothing ∧ q = p.withLocks (p.locks.release tx id).2
  | .commit tx, r, q =>
      (r, q) = ((complete tx .commit p).1.map fun _ => .nothing, (complete tx .commit p).2)
  | .abort tx, r, q =>
      (r, q) = ((complete tx .abort p).1.map fun _ => .nothing, (complete tx .abort p).2)
  | _, _, _ => True

theorem onPool_ends {α : Type} {m : Step Pool α} {f : α → Answer} {s : Session}
    {Q : Except Error Answer → Session → Prop}
    (h : m.Ends s.pool fun r q => Q (r.map f) { s with pool := q }) :
    (onPool m >>= fun a => pure (f a)).Ends s Q := by
  unfold Step.Ends at h ⊢
  rw [Step.bind_run]
  simp only [onPool, Step.focus]
  cases hr : (m s.pool).1 with
  | ok a =>
    rw [hr] at h
    exact h
  | error e =>
    rw [hr] at h
    exact h

/-- The session after a scan, and the pool with it, went on. -/
def setScan (name : String) (s : Session) (t : Scan × Pool) : Session :=
  { s with pool := t.2, scans := s.scans.insert name t.1 }

theorem scanNext_run {s : Session} {name : String} {scan : Scan}
    (hscan : s.scans.get? name = some scan) :
    scanNext name s = Step.focus (fun s => (scan, s.pool)) (setScan name) Scan.next s := by
  unfold scanNext
  rw [Step.bind_of_ok (Step.state_run s), hscan]
  rfl

theorem scanNext_missing {s : Session} {name : String} (hnone : s.scans.get? name = none) :
    scanNext name s = (.error (missing name), s) := by
  unfold scanNext
  rw [Step.bind_of_ok (Step.state_run s), hnone]
  rfl

/-- What calls of the scan of this name come to, if it works for `tx`: it looks at pages, and what else the
client keeps is as before. -/
structure Walks (name : String) (tx : TxId) (s t : Session) : Prop where
  looks : Looks tx s.pool t.pool
  own : ∀ scan, t.scans.get? name = some scan → scan.tx = tx
  others : ∀ other, other ≠ name → t.scans.get? other = s.scans.get? other
  operators : t.operators = s.operators
  former : t.former = s.former

theorem Walks.trans {name : String} {tx : TxId} {s t u : Session} (h : Walks name tx s t)
    (h' : Walks name tx t u) : Walks name tx s u :=
  ⟨h.looks.trans h'.looks, h'.own, fun other hother => (h'.others other hother).trans (h.others other hother),
    h'.operators.trans h.operators, h'.former.trans h.former⟩

theorem scans_setScan (name : String) (s : Session) (t : Scan × Pool) (other : String) :
    (setScan name s t).scans.get? other = if name = other then some t.1 else s.scans.get? other :=
  Assoc.get?_insert ..

theorem walks_setScan {name : String} {tx : TxId} {s : Session} {t : Scan × Pool} (htx : t.1.tx = tx)
    (looks : Looks tx s.pool t.2) : Walks name tx s (setScan name s t) := by
  refine ⟨looks, fun scan hscan => ?_, fun other hother => ?_, rfl, rfl⟩
  · rw [scans_setScan, if_pos rfl, Option.some.injEq] at hscan
    rw [← hscan, htx]
  · rw [scans_setScan, if_neg hother.symm]

theorem scanNext_ends {name : String} {tx : TxId} {s : Session}
    (own : ∀ scan, s.scans.get? name = some scan → scan.tx = tx) :
    (scanNext name).Ends s fun _ t => Walks name tx s t := by
  cases hscan : s.scans.get? name with
  | none =>
    rw [Step.Ends, scanNext_missing hscan]
    exact ⟨.refl, own, fun _ _ => rfl, rfl, rfl⟩
  | some scan =>
    obtain rfl := own scan hscan
    have hnext : (Step.focus (fun s => (scan, s.pool)) (setScan name) Scan.next).Ends s
        fun _ t => Walks name scan.tx s t := by
      refine Step.Ends.focus ((Scan.next_ends (scan, s.pool)).mono ?_)
      rintro _ t ⟨htx, -, hlooks⟩
      exact walks_setScan htx hlooks
    rwa [Step.Ends, ← scanNext_run hscan] at hnext

/-! ## Rows that a client gives -/

theorem fileOf_ends (table : TableId) (s : Session) : (fileOf table).Ends s fun _ t => t = s := by
  unfold fileOf
  refine Step.Ends.of_ok (Step.state_run s) ?_
  split
  · rfl
  · rfl

theorem rowOver_ends {columns : Option (List Column)} {schema : Step Session Schema}
    (fields : List Field) {s : Session} (hschema : schema.Ends s fun _ t => t = s) :
    (rowOver columns schema fields).Ends s fun r t => t = s ∧
      ∀ row, r = .ok row → row.Typed ∧ row.fields = fields := by
  have hrow : ∀ schema, (Step.ofExcept (Row.ofFields schema fields)).Ends s fun r t => t = s ∧
      ∀ row, r = .ok row → row.Typed ∧ row.fields = fields :=
    fun schema => ⟨rfl, fun row h => Row.typed_of_ofFields h⟩
  unfold rowOver
  cases columns with
  | some columns =>
    exact Step.Ends.ofExcept (fun schema _ => hrow schema) (fun _ _ => ⟨rfl, fun _ h => by cases h⟩)
  | none =>
    refine Step.Ends.bind hschema ?_ (fun e t h => ⟨h, fun _ h => by cases h⟩)
    rintro schema t rfl
    exact hrow schema

/-! ## Every action -/

theorem onPool_nothing (m : Step Pool Unit) (s : Session) :
    (onPool m >>= fun _ => pure Answer.nothing).Ends s fun r t =>
      (r, t.pool) = ((m s.pool).1.map fun _ => Answer.nothing, (m s.pool).2) :=
  onPool_ends (f := fun _ => Answer.nothing) rfl

/-- Whether the client keeps the page or not, it is told nothing. -/
theorem keepAs_run (keepAs : Option String) (id : PageId) (s : Session) :
    ∃ handles, (keepAs.forM fun name => keep name id) s = (.ok (), { s with handles }) := by
  cases keepAs with
  | none => exact ⟨s.handles, rfl⟩
  | some name =>
    change ∃ handles, keep name id s = _
    unfold keep
    rw [Step.update_run]
    split
    · exact ⟨_, rfl⟩
    · exact ⟨s.handles, rfl⟩

theorem fetch_does (tx : TxId) (id : PageId) (mode : LockMode) (keepAs : Option String)
    (busy : List String) (s : Session) :
    (perform (.fetch tx id mode keepAs busy)).Ends s fun r t =>
      Does s.pool (.fetch tx id mode keepAs busy) r t.pool := by
  simp only [perform]
  refine Step.Ends.of_ok (Step.state_run s) ?_
  have hfetch : (onPool (fetchBeside (s.pagesOfHandles busy) tx id mode)).Ends s fun r t =>
      Looks tx s.pool t.pool ∧ ∀ page, r = .ok page → t.pool.page? id = some page ∧
        LockTable.covers (t.pool.locks.mode? tx id) mode = true :=
    Step.Ends.focus (fetchBeside_ends _ tx id mode s.pool)
  refine Step.Ends.bind hfetch ?_ (fun e t h => ⟨h.1, fun _ h => by cases h⟩)
  rintro page t ⟨hlooks, hgot⟩
  obtain ⟨handles, hkeep⟩ := keepAs_run keepAs id t
  refine Step.Ends.of_ok hkeep ⟨hlooks, ?_⟩
  rintro page' ⟨⟩
  exact hgot page rfl

theorem poolInsert_does (tx : TxId) (table : TableId) (fields : List Field)
    (columns : Option (List Column)) {s : Session} (hs : Keyed s.pool) :
    (perform (.poolInsert tx table fields columns)).Ends s fun r t => Puts tx fields s.pool r t.pool := by
  simp only [perform]
  have hschema : (TableFile.schema <$> fileOf table).Ends s fun _ t => t = s :=
    Step.Ends.bind (fileOf_ends table s) (fun _ _ h => h) (fun _ _ h => h)
  refine Step.Ends.bind (rowOver_ends fields hschema) ?_
    (fun e t h => ⟨.error e, rfl, .inr ⟨⟨e, rfl⟩, by rw [h.1]⟩⟩)
  rintro row t ⟨rfl, hrow⟩
  obtain ⟨htyped, hfields⟩ := hrow row rfl
  exact onPool_ends ((Pool.insert_ends tx table row hs).mono fun r q h =>
    ⟨r, rfl, .inl ⟨row, htyped, hfields, h⟩⟩)

/-- A row that a client describes is taken out at its place, if it has one. -/
theorem poolDelete_does (tx : TxId) (place : Option RecordId) (fields : List Field)
    (columns : List Column) (s : Session) :
    (perform (.poolDelete tx place fields columns)).Ends s fun r t =>
      Does s.pool (.poolDelete tx place fields columns) r t.pool := by
  have hfails : ∀ e q, Looks tx s.pool q → Does s.pool (.poolDelete tx place fields columns) (.error e) q := by
    intro e q hlooks
    cases place with
    | none => exact ⟨⟨e, rfl⟩, hlooks⟩
    | some place => exact hlooks
  simp only [perform]
  refine Step.Ends.ofExcept ?_ (fun e _ => hfails e s.pool .refl)
  intro schema _
  refine Step.Ends.ofExcept ?_ (fun e _ => hfails e s.pool .refl)
  intro row _
  refine onPool_ends ((Pool.delete_ends tx (row.setPlace place) s.pool).mono ?_)
  rintro (e | ⟨⟩) q h
  · exact hfails e q h
  · obtain ⟨place', hplace', h⟩ := h
    obtain rfl : place = some place' := hplace'
    exact h

theorem nextRows_ends {name : String} (count : Nat) {tx : TxId} {s : Session}
    (own : ∀ scan, s.scans.get? name = some scan → scan.tx = tx) :
    (perform (.nextRows name count)).Ends s fun _ t => Walks name tx s t := by
  simp only [perform]
  refine Step.Ends.bind (Step.Ends.each (I := Walks name tx s) ?_ ⟨.refl, own, fun _ _ => rfl, rfl, rfl⟩) ?_ ?_
  · exact fun _ _ t ht => (scanNext_ends ht.own).mono fun _ _ h => ht.trans h
  · exact fun _ _ h => h
  · exact fun _ _ h => h

theorem exists_tx (s : Session) (name : String) : ∃ tx, ∀ scan, s.scans.get? name = some scan → scan.tx = tx := by
  cases s.scans.get? name with
  | none => exact ⟨0, fun _ h => nomatch h⟩
  | some scan => exact ⟨scan.tx, fun _ h => Option.some.inj h ▸ rfl⟩

theorem perform_does (a : Action) {s : Session} (hs : Keyed s.pool) :
    (perform a).Ends s fun r t => Does s.pool a r t.pool := by
  cases a
  case createTable name columns =>
    simp only [perform]
    refine Step.Ends.ofExcept ?_ (fun _ _ => .inl rfl)
    intro schema _
    exact onPool_ends (.inr ⟨schema, rfl⟩)
  case fetch tx id mode keepAs busy => exact fetch_does tx id mode keepAs busy s
  case insert tx table fields =>
    simp only [perform]
    exact onPool_ends ((Database.insert_ends tx table fields hs).mono fun r q h => ⟨r, rfl, h⟩)
  case poolInsert tx table fields columns => exact poolInsert_does tx table fields columns hs
  case delete tx place =>
    simp only [perform]
    refine onPool_ends ((Database.delete_ends tx place hs).mono ?_)
    rintro (e | row) q h
    · exact h
    · exact h
  case poolDelete tx place fields columns => exact poolDelete_does tx place fields columns s
  case scan tx table =>
    simp only [perform]
    exact onPool_ends (Database.scan_ends tx table s.pool)
  case nextRows name count =>
    obtain ⟨tx, own⟩ := exists_tx s name
    exact (nextRows_ends count own).mono fun _ _ h => ⟨tx, h.looks⟩
  case openScan => exact rfl
  case rewind => exact rfl
  case flush tx => exact onPool_nothing (Pool.flush tx) s
  case flushAll => exact onPool_nothing Pool.flushAll s
  case discard id => exact ⟨rfl, rfl⟩
  case release tx id => exact ⟨rfl, rfl⟩
  case commit tx => exact onPool_nothing (complete tx .commit) s
  case abort tx => exact onPool_nothing (complete tx .abort) s
  all_goals exact trivial

theorem run_does (a : Action) {s : Session} (hs : Keyed s.pool) :
    Does s.pool a (run a s).1 (run a s).2.pool := perform_does a hs

/-! ## Runs -/

/-- The answers to some actions, one after the other, and the session after them. -/
def play : List Action → Session → List (Except Error Answer) × Session
  | [], s => ([], s)
  | a :: rest, s => ((run a s).1 :: (play rest (run a s).2).1, (play rest (run a s).2).2)

/-- What each of these actions keeps is kept by all of them. -/
theorem play_keeps {I : Session → Prop} {A : Action → Prop} (step : ∀ a s, A a → I s → I (run a s).2)
    {actions : List Action} (asked : ∀ a ∈ actions, A a) {s : Session} (hs : I s) :
    I (play actions s).2 := by
  induction actions generalizing s with
  | nil => exact hs
  | cons a rest ih =>
    rw [List.forall_mem_cons] at asked
    exact ih asked.2 (step a s asked.1 hs)

end PageStore.Session
