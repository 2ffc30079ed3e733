-- What goes wrong with rows, pages, files or locks has errors of its own. No error of an
-- operator comes from a pool, or from a scan of it.
import PageStore.Proofs.Pool.FirstFit

namespace PageStore

def Error.OfOperator : Error → Prop
  | .operator _ => True
  | _ => False

/-- An answer, or an error that is none of an operator. -/
def FromBelow {α : Type} (r : Except Error α) : Prop := ∀ e, r = .error e → ¬ e.OfOperator

section Except

variable {α β : Type} {r : Except Error α} {e : Error}

theorem fromBelow_ok (a : α) : FromBelow (.ok a) := fun _ h => nomatch h

theorem fromBelow_error (h : ¬ e.OfOperator) : FromBelow (.error e : Except Error α) :=
  fun _ he => Except.error.inj he ▸ h

/-- More rows than there can be are no matter of a pool. -/
theorem FromBelow.ne_endless (h : FromBelow r) : r ≠ .error (.operator .endless) :=
  fun heq => h _ heq trivial

theorem FromBelow.bind {f : α → Except Error β} (h : FromBelow r) (hf : ∀ a, FromBelow (f a)) :
    FromBelow (r >>= f) := by
  cases r with
  | ok a => exact hf a
  | error e => exact fromBelow_error (h e rfl)

end Except

namespace Step

variable {σ τ α β : Type}

/-- From whatever state it begins, the operation ends so. -/
def EndsBelow (m : Step σ α) : Prop := ∀ s, FromBelow (m s).1

theorem endsBelow_of_ok {m : Step σ α} (h : ∀ s, ∃ a, (m s).1 = .ok a) : m.EndsBelow := by
  intro s
  obtain ⟨a, ha⟩ := h s
  exact ha ▸ fromBelow_ok a

theorem endsBelow_state : (state : Step σ σ).EndsBelow := fun s => fromBelow_ok s

theorem endsBelow_read (f : σ → α) : (read f).EndsBelow := fun s => fromBelow_ok (f s)

theorem endsBelow_update (f : σ → σ) : (update f).EndsBelow := fun _ => fromBelow_ok ()

theorem endsBelow_pure (a : α) : (pure a : Step σ α).EndsBelow := fun _ => fromBelow_ok a

theorem endsBelow_fail {e : Error} (h : ¬ e.OfOperator) : (fail e : Step σ α).EndsBelow :=
  fun _ => fromBelow_error h

theorem endsBelow_ofExcept {r : Except Error α} (h : FromBelow r) :
    (ofExcept r : Step σ α).EndsBelow := fun _ => h

theorem EndsBelow.bind {m : Step σ α} {f : α → Step σ β} (h : m.EndsBelow)
    (hf : ∀ a, (f a).EndsBelow) : (m >>= f).EndsBelow := by
  intro s
  rcases hm : m s with ⟨e | a, t⟩
  · rw [bind_of_error hm]
    exact fromBelow_error (h s e (congrArg Prod.fst hm))
  · rw [bind_of_ok hm]
    exact hf a t

theorem EndsBelow.check {ok : Bool} {e : Error} {f : Unit → Step σ β} (h : ¬ e.OfOperator)
    (hf : (f ()).EndsBelow) : (check ok e >>= f).EndsBelow := by
  cases ok with
  | true => exact hf
  | false => exact endsBelow_fail h

theorem EndsBelow.attempt {m : Step σ α} {f : Except Error α → Step σ β} (h : m.EndsBelow)
    (hf : ∀ r, FromBelow r → (f r).EndsBelow) : (m.attempt >>= f).EndsBelow :=
  fun s => hf _ (h s) _

theorem EndsBelow.focus {get : τ → σ} {set : τ → σ → τ} {m : Step σ α} (h : m.EndsBelow) :
    (Step.focus get set m).EndsBelow := fun t => h (get t)

end Step

open Step

/-! ## Rows and pages -/

theorem Row.ofFields_below (schema : Schema) (fields : List Field) : FromBelow (Row.ofFields schema fields) := by
  unfold Row.ofFields
  split
  · exact fromBelow_error not_false
  · split
    · exact fromBelow_error not_false
    · exact fromBelow_ok _

theorem Page.ofBytes_below (id : PageId) (schema : Schema) (size : Nat) (bs : Bytes) :
    FromBelow (Page.ofBytes id schema size bs) := by
  unfold Page.ofBytes
  split
  · exact fromBelow_error not_false
  · dsimp only
    split
    · exact fromBelow_error not_false
    · exact fromBelow_ok _

theorem Page.insert_below (page : Page) (row : Row) : FromBelow (page.insert row) := by
  unfold Page.insert
  split
  · split
    · exact fromBelow_error not_false
    · split
      · rename_i e hencode
        obtain ⟨bytes, rfl⟩ := Row.encodeFields_error hencode
        exact fromBelow_error not_false
      · exact fromBelow_ok _
  · exact fromBelow_error not_false

theorem Catalog.tableFile_below (c : Catalog) (table : TableId) : FromBelow (c.tableFile table) := by
  unfold Catalog.tableFile
  split
  · exact fromBelow_ok _
  · exact fromBelow_error not_false

theorem PageFile.read_below (f : PageFile) (content : Bytes) (number size : Nat) :
    FromBelow (f.read content number size) := by
  unfold PageFile.read PageFile.checkLength
  refine FromBelow.bind ?_ fun _ => ?_
  · split
    · exact fromBelow_ok _
    · exact fromBelow_error not_false
  · split
    · exact fromBelow_error not_false
    · exact fromBelow_ok _

theorem Storage.readPage_below (s : Storage) (id : PageId) : FromBelow (s.readPage id) := by
  refine (Catalog.tableFile_below s.catalog id.table).bind fun file => ?_
  unfold TableFile.readPage TableFile.checkTable
  refine FromBelow.bind ?_ fun _ => (PageFile.read_below file.pages _ _ _).bind fun bs => Page.ofBytes_below _ _ _ bs
  split
  · exact fromBelow_ok _
  · exact fromBelow_error not_false

/-! ## Pools -/

namespace Pool

theorem tableFile_below (table : TableId) : (tableFile table).EndsBelow :=
  endsBelow_state.bind fun p => endsBelow_ofExcept (Catalog.tableFile_below p.catalog table)

theorem lock_below (tx : TxId) (id : PageId) (mode : LockMode) : (lock tx id mode).EndsBelow := by
  intro p
  rw [lock_run]
  dsimp only
  split
  · exact fromBelow_ok _
  · exact fromBelow_error not_false

theorem evict_below (busy : List PageId) : (evict busy).EndsBelow := by
  intro p
  unfold evict
  split
  · exact fromBelow_ok _
  · exact fromBelow_error not_false

theorem fetch_below (tx : TxId) (id : PageId) (mode : LockMode) : (fetch tx id mode).EndsBelow := by
  have hhold : ∀ page, (do hold id page; touch id; pure page : Step Pool Page).EndsBelow := fun page =>
    (endsBelow_update _).bind fun _ => (endsBelow_update _).bind fun _ => endsBelow_pure page
  unfold fetch fetchBeside
  refine (lock_below tx id mode).bind fun _ => endsBelow_state.bind fun p => ?_
  split
  · exact (endsBelow_update _).bind fun _ => endsBelow_pure _
  · refine (endsBelow_ofExcept (Storage.readPage_below p.storage id)).bind fun page => ?_
    split
    · exact (evict_below []).bind fun _ => hhold page
    · exact hhold page

theorem releaseUnless_below (heldBefore : Bool) (tx : TxId) (id : PageId) :
    (releaseUnless heldBefore tx id).EndsBelow := by
  cases heldBefore with
  | true => exact endsBelow_pure ()
  | false => exact endsBelow_update _

theorem tryInsertInto_below (tx : TxId) (id : PageId) (row : Row) : (tryInsertInto tx id row).EndsBelow := by
  unfold tryInsertInto
  refine (endsBelow_read _).bind fun held => (fetch_below tx id .shared).bind fun page => ?_
  have hgive : (do releaseUnless held tx id; pure none : Step Pool (Option RecordId)).EndsBelow :=
    (releaseUnless_below held tx id).bind fun _ => endsBelow_pure none
  split
  · exact hgive
  · refine (fetch_below tx id .exclusive).bind fun page => ?_
    split
    · exact (endsBelow_update _).bind fun _ => endsBelow_pure _
    · exact hgive
    · rename_i e _ hput
      exact endsBelow_fail (Page.insert_below page row e hput)

theorem insertIntoFirst_below (tx : TxId) (row : Row) (ids : List PageId) :
    (insertIntoFirst tx row ids).EndsBelow := by
  induction ids with
  | nil => exact endsBelow_pure none
  | cons id rest ih =>
    refine (tryInsertInto_below tx id row).bind fun found => ?_
    cases found with
    | some place => exact endsBelow_pure _
    | none => exact ih

theorem insertAppending_below (file : TableFile) (tx : TxId) (row : Row) (attempts : Nat) (last : PageId) :
    (insertAppending file tx row attempts last).EndsBelow := by
  induction attempts generalizing last with
  | zero => exact endsBelow_fail not_false
  | succ attempts ih =>
    have happend : (onStorage (Storage.onDisk file.appendEmpty)).EndsBelow :=
      endsBelow_of_ok fun p => ⟨_, congrArg Prod.fst (appendEmpty_run file p)⟩
    refine happend.bind fun id => (tryInsertInto_below tx id row).bind fun found => ?_
    cases found with
    | some place => exact endsBelow_pure place
    | none => exact ih id

theorem insertInto_below (file : TableFile) (tx : TxId) (row : Row) : (insertInto file tx row).EndsBelow := by
  refine EndsBelow.check not_false ((endsBelow_read _).bind fun d => EndsBelow.check not_false ?_)
  refine (insertIntoFirst_below tx row _).bind fun found => ?_
  cases found with
  | some place => exact endsBelow_pure place
  | none => exact insertAppending_below file tx row _ _

theorem insert_below (tx : TxId) (table : TableId) (row : Row) : (insert tx table row).EndsBelow := by
  refine (tableFile_below table).bind fun file => EndsBelow.check not_false ?_
  refine (insertInto_below file tx row).bind fun place => ?_
  exact EndsBelow.bind (endsBelow_of_ok fun _ => ⟨(), rfl⟩) fun _ => endsBelow_pure place

end Pool

/-! ## Scans -/

namespace Scan

theorem readUntilRow_below (numbers : List Nat) : (readUntilRow numbers).EndsBelow := by
  induction numbers with
  | nil => exact endsBelow_pure false
  | cons number rest ih =>
    unfold readUntilRow
    refine (endsBelow_update _).bind fun _ => (endsBelow_read _).bind fun s => ?_
    refine EndsBelow.bind (Pool.fetch_below s.tx _ _).focus fun page => (endsBelow_update _).bind fun _ => ?_
    split
    · exact ih
    · exact endsBelow_pure true

theorem refill_below : refill.EndsBelow := by
  refine (endsBelow_read _).bind fun s => EndsBelow.bind (Pool.tableFile_below s.table).focus fun file => ?_
  exact EndsBelow.bind (endsBelow_read _).focus fun numPages => readUntilRow_below _

theorem pop_below : pop.EndsBelow := by
  refine (endsBelow_read _).bind fun s => ?_
  split
  · exact endsBelow_pure none
  · exact (endsBelow_update _).bind fun _ => endsBelow_pure _

theorem next_below : next.EndsBelow := by
  refine (endsBelow_read _).bind fun s => ?_
  split
  · split
    · exact endsBelow_pure none
    · refine refill_below.attempt fun r hr => ?_
      rcases r with e | _ | _
      · exact (endsBelow_update _).bind fun _ => endsBelow_fail (hr e rfl)
      · exact (endsBelow_update _).bind fun _ => endsBelow_pure none
      · exact pop_below
  · exact pop_below

end Scan

theorem InsertTarget.insertRow_below (t : InsertTarget) (row : Row) : (t.insertRow row).EndsBelow := by
  refine (endsBelow_ofExcept (Row.ofFields_below t.schema row.fields)).bind fun row => ?_
  exact (Pool.insert_below t.tx t.table row).bind fun _ => endsBelow_pure ()

end PageStore
