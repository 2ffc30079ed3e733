-- What whole requests do to a pool: a row is put in or taken out by setting one slot
-- of one page that the transaction has locked, and a request that fails, or only
-- looks, sets none.
import PageStore.Database
import PageStore.Proofs.Pool.Moves

namespace PageStore

namespace Pool

/-! ## One slot of one page -/

/-- `tx` sets one slot of a page that it has locked to change it. -/
structure Sets (tx : TxId) (place : RecordId) (old new : Option (List Field)) (page : Page)
    (m q : Pool) : Prop where
  there : m.page? place.page = some page
  locked : m.locks.mode? tx place.page = some .exclusive
  slot : place.slot < page.slots.length
  before : page.fieldsAt place.slot = old
  result : q = (m.changed tx place.page (page.withSlot place.slot new)).withUse place.page

/-- What putting a row into a table comes to. -/
def Inserts (tx : TxId) (row : Row) (p : Pool) : Except Error RecordId → Pool → Prop
  | .ok place, q => ∃ page m, Quiets p.locks tx p m ∧
      Sets tx place none (some row.fields) page m q ∧
      Page.Inserted page row place (page.withSlot place.slot (some row.fields))
  | .error _, q => Quiets p.locks tx p q

/-- What taking the row at a place out of a table comes to. -/
def Deletes {α : Type} (tx : TxId) (place : RecordId) (p : Pool) : Except Error α → Pool → Prop
  | .ok _, q => ∃ fields page m, Looks tx p m ∧ Sets tx place (some fields) none page m q
  | .error _, q => Looks tx p q

/-- The note of a change leaves the mark as it is, and is a use of the page. -/
theorem noteChange_changed (m : Pool) (tx : TxId) (id : PageId) (after : Page) :
    noteChange tx id (m.changed tx id after) = (.ok (), (m.changed tx id after).withUse id) := by
  have h : (m.changed tx id after).withPage id (fun page => page.mark (some tx)) =
      m.changed tx id after := by
    unfold changed
    rw [withPage_withPage]
    rfl
  change (Except.ok (), ((m.changed tx id after).withPage id fun page => page.mark (some tx)).withUse id) = _
  rw [h]

theorem tableFile_ends (table : TableId) (p : Pool) :
    (tableFile table).Ends p fun r q => q = p ∧
      ∀ file, r = .ok file → p.catalog.tableFile? table = some file :=
  ⟨rfl, fun _ h => Storage.tableFile?_of_tableFile h⟩

/-! ## Rows in and out -/

/-- The row comes to lie on a page of the table's file. -/
theorem insert_places (tx : TxId) (table : TableId) (row : Row) {p : Pool} (hp : Keyed p) :
    (insert tx table row).Ends p fun r q => Inserts tx row p r q ∧ ∀ place, r = .ok place →
      ∃ file, p.catalog.tableFile? table = some file ∧ place.page.table = file.table := by
  have hfails : ∀ e q, Quiets p.locks tx p q → Inserts tx row p (.error e) q ∧
      ∀ place, (.error e : Except Error RecordId) = .ok place →
        ∃ file, p.catalog.tableFile? table = some file ∧ place.page.table = file.table :=
    fun _ _ hmoves => ⟨hmoves, fun _ h => nomatch h⟩
  unfold insert
  refine Step.Ends.bind (tableFile_ends table p) ?_ (fun e q h => h.1 ▸ hfails e _ .refl)
  rintro file q ⟨rfl, known⟩
  refine Step.Ends.check (fun _ => ?_) (fun _ => hfails _ _ .refl)
  refine Step.Ends.bind (insertInto_ends row (fun _ h => h) (known file rfl)) ?_ (fun e q h => hfails e q h)
  rintro place q' ⟨m, id, page, filled, htable, hold, hput, rfl⟩
  have hin := Page.inserted_of_insert hput
  obtain rfl : id = place.page := by
    rw [hin.page]
    exact ((Quiets.keyed hold.moves hp) id page hold.there).symm
  refine Step.Ends.of_ok (noteChange_changed m tx place.page filled) ⟨?_, ?_⟩
  · refine ⟨page, m, hold.moves, ⟨hold.there, hold.locked, hin.lt, hin.was_free, ?_⟩, hin.result ▸ hin⟩
    rw [← hin.result]
    rfl
  · rintro _ ⟨⟩
    exact ⟨file, known file rfl, htable⟩

theorem insert_ends (tx : TxId) (table : TableId) (row : Row) {p : Pool} (hp : Keyed p) :
    (insert tx table row).Ends p (Inserts tx row p) :=
  (insert_places tx table row hp).mono fun _ _ h => h.1

theorem deleteFrom_ends (file : TableFile) (tx : TxId) (row : Row) (p : Pool) :
    (deleteFrom file tx row).Ends p fun r q => match r with
      | .ok id => ∃ place page emptied m, row.place = some place ∧ id = place.page ∧
          Looks tx p m ∧ m.page? id = some page ∧ m.locks.mode? tx id = some .exclusive ∧
          Page.Deleted page place emptied ∧ q = m.changed tx id emptied
      | .error _ => Looks tx p q := by
  unfold deleteFrom
  refine Step.Ends.ofOption ?_ (fun _ => Relation.ReflTransGen.refl)
  intro place hplace
  refine Step.Ends.check (fun _ => ?_) (fun _ => Relation.ReflTransGen.refl)
  refine Step.Ends.bind (fetchBeside_ends [] tx place.page .exclusive p) ?_ (fun _ _ h => h.1)
  rintro page m ⟨hlooks, hgot⟩
  obtain ⟨hthere, hcovers⟩ := hgot page rfl
  refine Step.Ends.ofExcept ?_ (fun _ _ => hlooks)
  intro emptied hdelete
  rw [hplace] at hdelete
  exact ⟨place, page, emptied, m, hplace, rfl, hlooks, hthere, eq_exclusive_of_covers hcovers,
    Page.deleted_of_delete hdelete, rfl⟩

/-- The place of the row says which one is taken out; without a place nothing is. -/
theorem delete_ends (tx : TxId) (row : Row) (p : Pool) :
    (delete tx row).Ends p fun r q => match r with
      | .ok () => ∃ place, row.place = some place ∧ Deletes (α := Unit) tx place p (.ok ()) q
      | .error _ => Looks tx p q := by
  unfold delete
  refine Step.Ends.ofOption ?_ (fun _ => Relation.ReflTransGen.refl)
  intro place hplace
  refine Step.Ends.bind (tableFile_ends place.page.table p) ?_
    (fun e q h => h.1 ▸ Relation.ReflTransGen.refl)
  rintro file q ⟨rfl, -⟩
  refine Step.Ends.check (fun _ => ?_) (fun _ => Relation.ReflTransGen.refl)
  refine Step.Ends.bind (deleteFrom_ends file tx row q) ?_ (fun _ _ h => h)
  rintro id q' ⟨place', page, emptied, m, hplace', rfl, hlooks, hthere, hlocked, hdel, rfl⟩
  rw [hplace] at hplace'
  obtain rfl := Option.some.inj hplace'
  obtain ⟨fields, hfields⟩ := Option.isSome_iff_exists.mp hdel.used
  unfold Step.Ends
  rw [noteChange_changed]
  refine ⟨place, hplace, fields, page, m, hlooks, hthere, hlocked, Page.lt_of_fieldsAt hfields,
    hfields, ?_⟩
  rw [← hdel.result]

end Pool

/-! ## By table and place -/

namespace Database

open Pool

theorem insert_ends (tx : TxId) (table : TableId) (fields : List Field) {p : Pool} (hp : Keyed p) :
    (insert tx table fields).Ends p fun r q =>
      (∃ row : Row, row.Typed ∧ row.fields = fields ∧ Inserts tx row p r q) ∨
        (∃ e, r = .error e) ∧ q = p := by
  unfold insert schemaOf
  refine Step.Ends.bind (P := fun _ q => q = p) rfl ?_ (fun e _ h => .inr ⟨⟨e, rfl⟩, h⟩)
  rintro schema q rfl
  refine Step.Ends.ofExcept ?_ (fun e _ => .inr ⟨⟨e, rfl⟩, rfl⟩)
  intro row hrow
  obtain ⟨htyped, hfields⟩ := Row.typed_of_ofFields hrow
  exact (Pool.insert_ends tx table row hp).mono fun _ _ h => .inl ⟨row, htyped, hfields, h⟩

/-- In files of their own the rows of a table lie on pages of that table. -/
theorem insert_table (tx : TxId) (table : TableId) (fields : List Field) {p : Pool} (hp : Keyed p) :
    (insert tx table fields).Ends p fun r _ =>
      p.storage.OwnFiles → ∀ place, r = .ok place → place.page.table = table := by
  unfold insert schemaOf
  refine Step.Ends.bind (P := fun _ q => q = p) rfl ?_ (fun _ _ _ _ _ h => nomatch h)
  rintro schema q rfl
  refine Step.Ends.ofExcept (fun row _ => ?_) (fun _ _ _ _ h => nomatch h)
  refine (insert_places tx table row hp).mono fun r q h own place hr => ?_
  obtain ⟨file, known, htable⟩ := h.2 place hr
  exact htable.trans (own.keyed table file known)

theorem delete_ends (tx : TxId) (place : RecordId) {p : Pool} (hp : Keyed p) :
    (delete tx place).Ends p (Deletes tx place p) := by
  unfold delete
  refine Step.Ends.bind (fetchBeside_ends [] tx place.page .exclusive p) ?_ (fun _ _ h => h.1)
  rintro page q ⟨hlooks, hgot⟩
  obtain ⟨hthere, -⟩ := hgot page rfl
  have hid : page.id = place.page := Quiets.keyed (Quiets.of_looks hlooks : Quiets p.locks tx p q) hp _ _ hthere
  refine Step.Ends.ofOption ?_ (fun _ => hlooks)
  intro row hrow
  obtain ⟨fields, -, rfl⟩ := Option.map_eq_some_iff.mp hrow
  refine Step.Ends.bind (Pool.delete_ends tx _ q) ?_ (fun _ _ h => hlooks.trans h)
  rintro ⟨⟩ q' ⟨place', hplace', fields, page', m, hlooks', hsets⟩
  obtain rfl : place = place' := by
    rw [← Option.some.inj hplace', hid]
  exact ⟨fields, page', m, hlooks.trans hlooks', hsets⟩

end Database

/-! ## Scans -/

namespace Scan

open Pool

/-- What a part of a scan comes to: its transaction looks at pages, and it stays on its table. -/
structure Goes (s t : Scan × Pool) : Prop where
  tx : t.1.tx = s.1.tx
  table : t.1.table = s.1.table
  looks : Looks s.1.tx s.2 t.2

theorem Goes.refl (s : Scan × Pool) : Goes s s := ⟨rfl, rfl, .refl⟩

theorem Goes.trans {s t u : Scan × Pool} (h : Goes s t) (h' : Goes t u) : Goes s u :=
  ⟨h'.tx.trans h.tx, h'.table.trans h.table, h.looks.trans (h.tx ▸ h'.looks)⟩

theorem readUntilRow_ends (numbers : List Nat) (s : Scan × Pool) :
    (readUntilRow numbers).Ends s fun _ t => Goes s t := by
  induction numbers generalizing s with
  | nil => exact Goes.refl s
  | cons number rest ih =>
    unfold readUntilRow
    refine Step.Ends.of_ok (Step.update_run _ s) (Step.Ends.of_ok (Step.read_run _ _) ?_)
    refine Step.Ends.bind (P := fun _ t => Goes s t) ?_ ?_ (fun _ _ h => h)
    · refine Step.Ends.focus ?_
      exact (fetchBeside_ends [] s.1.tx ⟨s.1.table, number⟩ .shared s.2).mono
        fun _ q h => ⟨rfl, rfl, h.1⟩
    · intro page t ht
      have hqueue : Goes s ({ t.1 with queue := page.rows }, t.2) := ht.trans ⟨rfl, rfl, .refl⟩
      refine Step.Ends.of_ok (Step.update_run _ t) ?_
      split
      · exact (ih _).mono fun _ _ h => hqueue.trans h
      · exact hqueue

theorem refill_ends (s : Scan × Pool) : refill.Ends s fun _ t => Goes s t := by
  unfold refill
  refine Step.Ends.of_ok (Step.read_run _ s) ?_
  refine Step.Ends.bind (P := fun _ t => t = s) rfl ?_ (fun _ _ h => h ▸ Goes.refl s)
  rintro file t rfl
  refine Step.Ends.bind (P := fun _ s => s = t) rfl ?_ (fun _ _ h => h ▸ Goes.refl t)
  rintro numPages s rfl
  exact readUntilRow_ends _ s

theorem pop_ends (s : Scan × Pool) : pop.Ends s fun _ t => Goes s t := by
  unfold pop
  refine Step.Ends.of_ok (Step.read_run _ s) ?_
  split
  · exact Goes.refl s
  · exact ⟨rfl, rfl, .refl⟩

theorem next_ends (s : Scan × Pool) : next.Ends s fun _ t => Goes s t := by
  unfold next
  refine Step.Ends.of_ok (Step.read_run _ s) ?_
  split
  · split
    · exact Goes.refl s
    · refine Step.Ends.bind_attempt (refill_ends s) ?_
      rintro (e | _ | _) t ht
      · exact ht.trans ⟨rfl, rfl, .refl⟩
      · exact ht.trans ⟨rfl, rfl, .refl⟩
      · exact (pop_ends t).mono fun _ _ h => ht.trans h
  · exact pop_ends s

theorem drain_ends (s : Scan × Pool) : drain.Ends s fun _ t => Goes s t := by
  unfold drain
  refine Step.Ends.of_ok (Step.state_run s) ?_
  exact Step.Ends.collect (fun t ht => (next_ends t).mono fun _ _ h => ht.trans h) (Goes.refl s)

end Scan

/-- A walk over a whole table is a chain of looks. -/
theorem Database.scan_ends (tx : TxId) (table : TableId) (p : Pool) :
    (Database.scan tx table).Ends p fun _ q => Pool.Looks tx p q :=
  (Scan.drain_ends (Scan.start tx table, p)).looks

end PageStore
