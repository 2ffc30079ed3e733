-- What the operations of a transaction can do to a pool, once and for all. Each
-- operation is a chain of small moves; a law of the pool is proved for each move
-- and so holds for every operation.
import Mathlib.Logic.Relation
import PageStore.Pool.Rows
import PageStore.Proofs.Step
import PageStore.Proofs.Lock.Modes
import PageStore.Proofs.Storage.Pages

namespace PageStore.Pool

/-! ## Changes of single parts -/

def withLocks (p : Pool) (locks : LockTable) : Pool := { p with locks }

/-- The pool after a use of a page. -/
def withUse (p : Pool) (id : PageId) : Pool := { p with recency := p.recency.touch id }

/-- The pool without a page. -/
def without (p : Pool) (id : PageId) : Pool :=
  { p with frames := p.frames.erase id, recency := p.recency.remove id }

/-- The pool with a page that was read in. -/
def withFrame (p : Pool) (id : PageId) (page : Page) : Pool :=
  { p with frames := p.frames.insert id { page, load := p.loads }, loads := p.loads + 1 }

/-- The pool with a page in memory changed, where it stands. -/
def withPage (p : Pool) (id : PageId) (f : Page → Page) : Pool :=
  { p with frames := p.frames.modify id fun frame => { frame with page := f frame.page } }

section Parts

variable (p : Pool) (locks : LockTable) (id other : PageId) (page : Page) (f : Page → Page) (d : Disk)

@[simp] theorem locks_withLocks : (p.withLocks locks).locks = locks := rfl

@[simp] theorem storage_withLocks : (p.withLocks locks).storage = p.storage := rfl
@[simp] theorem storage_withPage : (p.withPage id f).storage = p.storage := rfl
@[simp] theorem storage_withDisk : (p.withDisk d).storage = { p.storage with disk := d } := rfl

@[simp] theorem page?_withUse : (p.withUse id).page? other = p.page? other := rfl
@[simp] theorem page?_withDisk : (p.withDisk d).page? other = p.page? other := rfl

theorem page?_without : (p.without id).page? other = if id = other then none else p.page? other := by
  unfold page? without
  rw [Assoc.get?_erase]
  split <;> rfl

theorem page?_withFrame :
    (p.withFrame id page).page? other = if id = other then some page else p.page? other := by
  unfold page? withFrame
  rw [Assoc.get?_insert]
  split <;> rfl

theorem page?_withPage :
    (p.withPage id f).page? other = if id = other then (p.page? other).map f else p.page? other := by
  unfold page? withPage
  rw [Assoc.get?_modify]
  split
  · cases p.frames.get? other <;> rfl
  · rfl

/-- Of two changes of a page the second one stays. -/
theorem withPage_withPage (g : Page → Page) :
    (p.withPage id f).withPage id g = p.withPage id (g ∘ f) := by
  unfold withPage
  simp only [Assoc.modify_modify]
  rfl

end Parts

/-- Dropping a page leaves all others. -/
theorem page?_discard (p : Pool) (id other : PageId) :
    (Pool.discard id p).2.page? other = if id = other then none else p.page? other := by
  simp only [Pool.discard, Step.update_run]
  split
  · exact page?_without p id other
  · rename_i hcached
    split
    · rename_i heq
      subst heq
      simpa [isCached, Assoc.contains, page?] using hcached
    · rfl

theorem locks_discard (p : Pool) (id : PageId) : (Pool.discard id p).2.locks = p.locks := by
  simp only [Pool.discard, Step.update_run]
  split <;> rfl

theorem storage_discard (p : Pool) (id : PageId) : (Pool.discard id p).2.storage = p.storage := by
  simp only [Pool.discard, Step.update_run]
  split <;> rfl

/-- A new pool has nothing in memory. -/
theorem eq_of_new {storage : Storage} {config : Config} {p : Pool}
    (h : Pool.new storage config = .ok p) :
    p = { config, storage } ∧ config.validate = .ok () ∧
      storage.catalog.pageSize = config.pageSize := by
  unfold Pool.new at h
  cases hv : config.validate with
  | error e => simp [hv, bind, Except.bind] at h
  | ok u =>
    by_cases hsize : storage.catalog.pageSize = config.pageSize
    · simp [hv, hsize, bind, Except.bind] at h
      exact ⟨h.symm, rfl, hsize⟩
    · simp [hv, hsize, bind, Except.bind] at h

/-! ## Looking at pages -/

/-- One move of a transaction that looks at pages. -/
inductive Look (tx : TxId) : Pool → Pool → Prop where
  | lock (p : Pool) (id : PageId) (mode : LockMode) :
      Look tx p (p.withLocks (p.locks.tryGrant tx id mode).2)
  | use (p : Pool) (id : PageId) (cached : (p.page? id).isSome) : Look tx p (p.withUse id)
  | drop (p : Pool) (busy : List PageId) (victim : PageId)
      (oldest : p.recency.oldest? (p.mayGo busy) = some victim) : Look tx p (p.without victim)
  | load (p : Pool) (id : PageId) (page : Page) (absent : p.page? id = none)
      (stored : p.storage.readPage id = .ok page) : Look tx p (p.withFrame id page)

abbrev Looks (tx : TxId) : Pool → Pool → Prop := Relation.ReflTransGen (Look tx)

/-- Only a clean page goes. -/
theorem clean_of_mayGo {p : Pool} {busy : List PageId} {id : PageId} (h : p.mayGo busy id = true) :
    ∃ page, p.page? id = some page ∧ page.dirtiedBy = none := by
  unfold mayGo at h
  split at h
  · rename_i page hp
    simp only [Bool.and_eq_true, Option.isNone_iff_eq_none] at h
    exact ⟨page, hp, h.1⟩
  · cases h

theorem covers_tryGrant (t : LockTable) (tx : TxId) (id : PageId) (mode : LockMode)
    (h : (t.tryGrant tx id mode).1 = true) :
    LockTable.covers ((t.tryGrant tx id mode).2.mode? tx id) mode = true := by
  unfold LockTable.tryGrant at h ⊢
  split at h
  · simp [*]
  · rename_i hnew
    split at h
    · rename_i hfree
      have hmode := LockTable.mode?_enter (r := ⟨tx, id, mode⟩) hnew hfree
      simp only [hnew, hfree, Bool.false_eq_true, if_false, if_true]
      simp only at hmode
      rw [hmode]
      simp only [LockTable.Modes.grant, LockTable.Modes.set, and_self, if_true]
      cases mode <;> rcases t.mode? tx id with _ | _ | _ <;> rfl
    · cases h

theorem lock_run (tx : TxId) (id : PageId) (mode : LockMode) (p : Pool) :
    lock tx id mode p = (if (p.locks.tryGrant tx id mode).1 then .ok () else .error (.lockRefused tx id),
      p.withLocks (p.locks.tryGrant tx id mode).2) := by
  unfold lock
  rcases p.locks.tryGrant tx id mode with ⟨_ | _, locks⟩ <;> rfl

theorem lock_ends (tx : TxId) (id : PageId) (mode : LockMode) (p : Pool) :
    (lock tx id mode).Ends p fun r q =>
      Looks tx p q ∧ q.storage = p.storage ∧ (∀ other, q.page? other = p.page? other) ∧
      (r = .ok () → LockTable.covers (q.locks.mode? tx id) mode = true) := by
  have hmove : Look tx p (p.withLocks (p.locks.tryGrant tx id mode).2) := Look.lock p id mode
  unfold Step.Ends lock
  rcases h : p.locks.tryGrant tx id mode with ⟨granted, locks⟩
  rw [h] at hmove
  cases granted with
  | true =>
    refine ⟨.single hmove, rfl, fun _ => rfl, fun _ => ?_⟩
    have := covers_tryGrant p.locks tx id mode (by rw [h])
    rw [h] at this
    exact this
  | false => exact ⟨.single hmove, rfl, fun _ => rfl, fun hr => by cases hr⟩

theorem evict_ends (busy : List PageId) (tx : TxId) (p : Pool) :
    (evict busy).Ends p fun r q =>
      Looks tx p q ∧ q.locks = p.locks ∧ q.storage = p.storage ∧
      (∀ other, p.page? other = none → q.page? other = none) ∧
      (∀ e, r = .error e → e = .poolFull p.capacity) := by
  unfold Step.Ends evict Recency.evict
  cases h : p.recency.oldest? (p.mayGo busy) with
  | none =>
    refine ⟨.refl, rfl, rfl, fun _ hn => hn, ?_⟩
    intro e he
    cases he
    rfl
  | some victim =>
    refine ⟨.single (Look.drop p busy victim h), rfl, rfl, ?_, fun e he => by cases he⟩
    intro other hn
    change (p.without victim).page? other = none
    rw [page?_without, hn]
    split <;> rfl

/-- What a transaction does to get at a page. The page that it gets is in memory and locked for it. -/
theorem fetchBeside_ends (busy : List PageId) (tx : TxId) (id : PageId) (mode : LockMode) (p : Pool) :
    (fetchBeside busy tx id mode).Ends p fun r q =>
      Looks tx p q ∧ ∀ page, r = .ok page →
        q.page? id = some page ∧ LockTable.covers (q.locks.mode? tx id) mode = true := by
  unfold fetchBeside
  refine Step.Ends.bind (lock_ends tx id mode p) ?_ (fun e q h => ⟨h.1, fun _ hr => by cases hr⟩)
  rintro ⟨⟩ q ⟨hmoves, -, -, hcovers⟩
  have hcovers := hcovers rfl
  refine Step.Ends.of_ok (Step.state_run q) ?_
  split
  · rename_i page hp
    refine ⟨hmoves.tail (Look.use q id (by simp [hp])), ?_⟩
    intro page' hr
    cases hr
    exact ⟨hp, hcovers⟩
  · rename_i habsent
    refine Step.Ends.ofExcept ?_ (fun e _ => ⟨hmoves, fun _ hr => by cases hr⟩)
    intro page hread
    -- The page goes in, whether or not another one had to go before.
    have hhold : ∀ q', Looks tx p q' → q'.locks = q.locks → q'.storage = q.storage →
        q'.page? id = none → Step.Ends (do hold id page; touch id; pure page) q' fun r q'' =>
          Looks tx p q'' ∧ ∀ page', r = .ok page' →
            q''.page? id = some page' ∧ LockTable.covers (q''.locks.mode? tx id) mode = true := by
      intro q' hmoves' hlocks hstorage habsent'
      have hin : (q'.withFrame id page).page? id = some page := by simp [page?_withFrame]
      refine ⟨(hmoves'.tail (Look.load q' id page habsent' (hstorage ▸ hread))).tail
        (Look.use _ id (by simp [hin])), ?_⟩
      intro page' hr
      cases hr
      refine ⟨hin, ?_⟩
      change LockTable.covers (q'.locks.mode? tx id) mode = true
      rw [hlocks]
      exact hcovers
    split
    · refine Step.Ends.bind (evict_ends busy tx q) ?_
        (fun e q' h => ⟨hmoves.trans h.1, fun _ hr => by cases hr⟩)
      rintro ⟨⟩ q' ⟨hmoves', hlocks, hstorage, habsent', -⟩
      exact hhold q' (hmoves.trans hmoves') hlocks hstorage (habsent' id habsent)
    · exact hhold q hmoves rfl rfl habsent

theorem looks_of_fetch {tx : TxId} {id : PageId} {mode : LockMode} {r : Except Error Page} {p q : Pool}
    (run : fetch tx id mode p = (r, q)) : Looks tx p q := by
  have hlooks := (fetchBeside_ends [] tx id mode p).1
  rwa [show fetchBeside [] tx id mode p = (r, q) from run] at hlooks

/-- A page that was got is in memory and locked. -/
theorem got_of_fetch {tx : TxId} {id : PageId} {mode : LockMode} {page : Page} {p q : Pool}
    (run : fetch tx id mode p = (.ok page, q)) :
    q.page? id = some page ∧ LockTable.covers (q.locks.mode? tx id) mode = true := by
  have hgot := (fetchBeside_ends [] tx id mode p).2
  rw [show fetchBeside [] tx id mode p = (.ok page, q) from run] at hgot
  exact hgot page rfl

/-! ## Looking for room -/

/-- One move of a transaction that looks for room. It gives a lock back only on a page on which it held
none at the `start` of the operation. -/
inductive Quiet (start : LockTable) (tx : TxId) : Pool → Pool → Prop where
  | look {p q : Pool} (move : Look tx p q) : Quiet start tx p q
  | giveBack (p : Pool) (id : PageId) (fresh : start.mode? tx id = none) :
      Quiet start tx p (p.withLocks (p.locks.release tx id).2)
  | grow (p : Pool) (table : TableId) (file : TableFile)
      (known : p.catalog.tableFile? table = some file) :
      Quiet start tx p (p.withDisk (file.grown p.disk))

abbrev Quiets (start : LockTable) (tx : TxId) : Pool → Pool → Prop :=
  Relation.ReflTransGen (Quiet start tx)

theorem Quiets.of_looks {start : LockTable} {tx : TxId} {p q : Pool} (h : Looks tx p q) :
    Quiets start tx p q := Relation.ReflTransGen.mono (fun _ _ => Quiet.look) _ _ h

theorem Looks.catalog {tx : TxId} {p q : Pool} (h : Looks tx p q) : q.storage = p.storage := by
  induction h with
  | refl => rfl
  | tail _ move ih =>
    rw [← ih]
    cases move <;> rfl

theorem Looks.config {tx : TxId} {p q : Pool} (h : Looks tx p q) : q.config = p.config := by
  induction h with
  | refl => rfl
  | tail _ move ih =>
    rw [← ih]
    cases move <;> rfl

theorem Quiets.catalog {start : LockTable} {tx : TxId} {p q : Pool} (h : Quiets start tx p q) :
    q.catalog = p.catalog := by
  induction h with
  | refl => rfl
  | tail _ move ih =>
    rw [← ih]
    cases move with
    | look move => cases move <;> rfl
    | giveBack => rfl
    | grow => rfl

theorem Quiets.config {start : LockTable} {tx : TxId} {p q : Pool} (h : Quiets start tx p q) :
    q.config = p.config := by
  induction h with
  | refl => rfl
  | tail _ move ih =>
    rw [← ih]
    cases move with
    | look move => exact Looks.config (.single move)
    | giveBack => rfl
    | grow => rfl

/-- A granted request takes no lock away. -/
theorem mode?_tryGrant_ne_none {t : LockTable} {u : TxId} {other : PageId} (tx : TxId) (id : PageId)
    (mode : LockMode) (h : t.mode? u other ≠ none) :
    (t.tryGrant tx id mode).2.mode? u other ≠ none := by
  unfold LockTable.tryGrant
  split
  · exact h
  · rename_i hnew
    split
    · rename_i hfree
      have hmode := LockTable.mode?_enter (r := ⟨tx, id, mode⟩) hnew hfree
      simp only at hmode ⊢
      rw [hmode]
      simp only [LockTable.Modes.grant, LockTable.Modes.set]
      split
      · simp
      · exact h
    · exact h

/-- The pages on which a transaction held a lock at the start of its operation. -/
def StillHolds (start : LockTable) (tx : TxId) (p : Pool) : Prop :=
  ∀ id, start.mode? tx id ≠ none → p.locks.mode? tx id ≠ none

theorem Quiets.stillHolds {start : LockTable} {tx : TxId} {p q : Pool} (h : Quiets start tx p q)
    (hp : StillHolds start tx p) : StillHolds start tx q := by
  induction h with
  | refl => exact hp
  | tail _ move ih =>
    intro id hid
    have hheld := ih id hid
    cases move with
    | look move =>
      cases move with
      | lock id' mode => exact mode?_tryGrant_ne_none tx id' mode hheld
      | use => exact hheld
      | drop => exact hheld
      | load => exact hheld
    | giveBack id' fresh =>
      rw [locks_withLocks, LockTable.mode?_release, LockTable.Modes.set]
      split
      · rename_i heq
        exact absurd (heq.2 ▸ fresh) hid
      · exact hheld
    | grow => exact hheld

/-! ## Rows -/

/-- Each page in memory stands at its own place. -/
def Keyed (p : Pool) : Prop := ∀ id page, p.page? id = some page → page.id = id

theorem Quiets.keyed {start : LockTable} {tx : TxId} {p q : Pool} (h : Quiets start tx p q)
    (hp : Keyed p) : Keyed q := by
  induction h with
  | refl => exact hp
  | tail _ move ih =>
    intro id page hpage
    cases move with
    | look move =>
      cases move with
      | lock => exact ih id page hpage
      | use => exact ih id page hpage
      | drop busy victim =>
        rw [page?_without] at hpage
        split at hpage
        · cases hpage
        · exact ih id page hpage
      | load id' page' absent stored =>
        rw [page?_withFrame] at hpage
        split at hpage
        · rename_i heq
          cases hpage
          exact heq ▸ Storage.id_of_readPage stored
        · exact ih id page hpage
    | giveBack => exact ih id page hpage
    | grow => exact ih id page hpage

/-- `tx` came to a page by quiet moves and has it locked to change it. -/
structure Holding (start : LockTable) (tx : TxId) (id : PageId) (page : Page) (p m : Pool) : Prop where
  moves : Quiets start tx p m
  there : m.page? id = some page
  locked : m.locks.mode? tx id = some .exclusive

/-- The pool after a page in memory was changed for a transaction. -/
def changed (m : Pool) (tx : TxId) (id : PageId) (after : Page) : Pool :=
  m.withPage id fun _ => after.mark (some tx)

/-- A lock is given back only if it was taken after the start. -/
theorem releaseUnless_ends {start : LockTable} {tx : TxId} {id : PageId} {heldBefore : Bool}
    (h : heldBefore = false → start.mode? tx id = none) (p : Pool) :
    (releaseUnless heldBefore tx id).Ends p fun _ q => Quiets start tx p q := by
  unfold releaseUnless
  cases heldBefore with
  | true => exact .refl
  | false => exact .single (Quiet.giveBack p id (h rfl))

/-- What an attempt to put a row into a page of a table comes to. -/
def Tried (start : LockTable) (tx : TxId) (table : TableId) (row : Row) (p : Pool) :
    Except Error (Option RecordId) → Pool → Prop
  | .ok (some place), q => ∃ m id page filled, id.table = table ∧ Holding start tx id page p m ∧
      page.insert row = .ok (place, filled) ∧ q = m.changed tx id filled
  | _, q => Quiets start tx p q

theorem Tried.after {start : LockTable} {tx : TxId} {table : TableId} {row : Row} {p m q : Pool}
    {r : Except Error (Option RecordId)} (hm : Quiets start tx p m) (h : Tried start tx table row m r q) :
    Tried start tx table row p r q := by
  match r, h with
  | .ok (some place), ⟨m', id, page, filled, hid, hold, hput, hq⟩ =>
    exact ⟨m', id, page, filled, hid, ⟨hm.trans hold.moves, hold.there, hold.locked⟩, hput, hq⟩
  | .ok none, h => exact hm.trans h
  | .error _, h => exact hm.trans h

theorem eq_exclusive_of_covers {held : Option LockMode}
    (h : LockTable.covers held .exclusive = true) : held = some .exclusive := by
  rcases held with _ | _ | _
  · cases h
  · cases h
  · rfl

theorem tryInsertInto_ends {start : LockTable} {tx : TxId} {p : Pool} (hstart : StillHolds start tx p)
    (id : PageId) (row : Row) :
    (tryInsertInto tx id row).Ends p (Tried start tx id.table row p) := by
  unfold tryInsertInto
  refine Step.Ends.of_ok (Step.read_run _ p) ?_
  have hfresh : p.locks.holds tx id = false → start.mode? tx id = none := by
    intro hfalse
    refine Classical.not_not.mp fun hheld => ?_
    have := hstart id hheld
    rw [← Option.isSome_iff_ne_none] at this
    exact Bool.eq_false_iff.mp hfalse this
  refine Step.Ends.bind (fetchBeside_ends [] tx id .shared p) ?_ (fun e q h => Quiets.of_looks h.1)
  rintro page q ⟨hlooks, -⟩
  have hq : Quiets start tx p q := Quiets.of_looks hlooks
  -- What is left when the page turns out to be full.
  have hgive : ∀ q', Quiets start tx p q' →
      Step.Ends (do releaseUnless (p.locks.holds tx id) tx id; pure none) q'
        (Tried start tx id.table row p) := by
    intro q' hq'
    exact Step.Ends.bind (releaseUnless_ends hfresh q') (fun _ _ h => hq'.trans h)
      (fun _ _ h => hq'.trans h)
  split
  · exact hgive q hq
  · refine Step.Ends.bind (fetchBeside_ends [] tx id .exclusive q) ?_
      (fun e q' h => hq.trans (Quiets.of_looks h.1))
    rintro page q' ⟨hlooks', hgot⟩
    obtain ⟨hthere, hcovers⟩ := hgot page rfl
    have hq' : Quiets start tx p q' := hq.trans (Quiets.of_looks hlooks')
    split
    · rename_i place filled hput
      exact ⟨q', id, page, filled, rfl, ⟨hq', hthere, eq_exclusive_of_covers hcovers⟩, hput, rfl⟩
    · exact hgive q' hq'
    · exact hq'

theorem insertIntoFirst_ends {start : LockTable} {tx : TxId} {table : TableId} (row : Row)
    {ids : List PageId} (hids : ∀ id ∈ ids, id.table = table) {p : Pool}
    (hstart : StillHolds start tx p) :
    (insertIntoFirst tx row ids).Ends p (Tried start tx table row p) := by
  induction ids generalizing p with
  | nil => exact Relation.ReflTransGen.refl
  | cons id rest ih =>
    rw [List.forall_mem_cons] at hids
    have htry := tryInsertInto_ends hstart id row
    rw [hids.1] at htry
    unfold insertIntoFirst
    refine Step.Ends.bind htry ?_ (fun _ _ h => h)
    rintro (_ | place) q h
    · exact (ih hids.2 (Quiets.stillHolds h hstart)).mono fun _ _ => Tried.after h
    · exact h

/-- What putting a row somewhere into a table comes to. -/
def Put (start : LockTable) (tx : TxId) (table : TableId) (row : Row) (p : Pool) :
    Except Error RecordId → Pool → Prop
  | .ok place, q => Tried start tx table row p (.ok (some place)) q
  | .error _, q => Quiets start tx p q

theorem appendEmpty_run (file : TableFile) (p : Pool) :
    onStorage (Storage.onDisk file.appendEmpty) p =
      (.ok ⟨file.table, file.numPages p.disk⟩, p.withDisk (file.grown p.disk)) :=
  Step.focus_run (Step.focus_run (TableFile.appendEmpty_run file p.disk))

theorem insertAppending_ends {start : LockTable} {tx : TxId} {file : TableFile} {table : TableId}
    (row : Row) (attempts : Nat) (last : PageId) {p : Pool} (hstart : StillHolds start tx p)
    (known : p.catalog.tableFile? table = some file) :
    (insertAppending file tx row attempts last).Ends p (Put start tx file.table row p) := by
  induction attempts generalizing p last with
  | zero => exact Relation.ReflTransGen.refl
  | succ attempts ih =>
    unfold insertAppending
    have hq : Quiets start tx p (p.withDisk (file.grown p.disk)) :=
      .single (Quiet.grow p table file known)
    refine Step.Ends.of_ok (appendEmpty_run file p) ?_
    refine Step.Ends.bind (tryInsertInto_ends (Quiets.stillHolds hq hstart) _ row) ?_
      (fun _ _ h => hq.trans h)
    rintro (_ | place) q h
    · have hq' := hq.trans h
      refine (ih _ (Quiets.stillHolds hq' hstart) (Quiets.catalog hq' ▸ known)).mono ?_
      rintro (e | place) q'' h'
      · exact hq'.trans h'
      · exact Tried.after (r := .ok (some place)) hq' h'
    · exact Tried.after hq h

theorem table_of_mem_pagesOf (file : TableFile) (d : Disk) : ∀ id ∈ pagesOf file d, id.table = file.table := by
  intro id hid
  obtain ⟨number, -, rfl⟩ := List.mem_map.mp hid
  rfl

theorem insertInto_ends {start : LockTable} {tx : TxId} {file : TableFile} {table : TableId}
    (row : Row) {p : Pool} (hstart : StillHolds start tx p)
    (known : p.catalog.tableFile? table = some file) :
    (insertInto file tx row).Ends p (Put start tx file.table row p) := by
  unfold insertInto
  refine Step.Ends.check (fun _ => ?_) (fun _ => Relation.ReflTransGen.refl)
  refine Step.Ends.of_ok (Step.read_run _ p) ?_
  refine Step.Ends.check (fun _ => ?_) (fun _ => Relation.ReflTransGen.refl)
  refine Step.Ends.bind (insertIntoFirst_ends row (table_of_mem_pagesOf file p.disk) hstart) ?_
    (fun _ _ h => h)
  rintro (_ | place) q h
  · refine (insertAppending_ends row _ _ (Quiets.stillHolds h hstart) (Quiets.catalog h ▸ known)).mono ?_
    rintro (e | place) q' h'
    · exact Relation.ReflTransGen.trans h h'
    · exact Tried.after (r := .ok (some place)) h h'
  · exact h

end PageStore.Pool
