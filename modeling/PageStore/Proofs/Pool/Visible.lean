-- What is to be seen of the rows of a pool. Moves that look at pages, or look for room,
-- show nothing new and hide nothing; a change shows at one place; and the end of a
-- transaction shows on no other pages than those that it changed.
import PageStore.Proofs.Pool.Alike
import PageStore.Proofs.Pool.Kept

namespace PageStore.Pool

theorem rowAt?_eq_seen (p : Pool) (place : RecordId) :
    p.rowAt? place = match p.seen place.page with
      | .ok page => page.fieldsAt place.slot
      | .error _ => none := by
  unfold Pool.rowAt? seen Storage.rowAt?
  cases p.page? place.page <;> rfl

theorem rowAt?_congr {p q : Pool} {place : RecordId} (h : q.seen place.page = p.seen place.page) :
    q.rowAt? place = p.rowAt? place := by
  rw [rowAt?_eq_seen, rowAt?_eq_seen, h]

/-! ## Looking -/

/-- What there was to be seen of a page is still to be seen, and if there was nothing there may be a page
without rows now. -/
def Shows (id : PageId) (p q : Pool) : Prop :=
  q.seen id = p.seen id ∨
    (∃ e, p.seen id = .error e) ∧ ∃ page, q.seen id = .ok page ∧ ∀ slot, page.fieldsAt slot = none

theorem Shows.page {id : PageId} {p q : Pool} (h : Shows id p q) {page : Page}
    (hpage : p.seen id = .ok page) : q.seen id = .ok page := by
  rcases h with hsame | ⟨⟨e, he⟩, -⟩
  · rw [hsame, hpage]
  · rw [hpage] at he
    cases he

theorem Shows.rowAt? {place : RecordId} {p q : Pool} (h : Shows place.page p q) :
    q.rowAt? place = p.rowAt? place := by
  rcases h with hsame | ⟨⟨e, he⟩, page, hpage, hfree⟩
  · exact rowAt?_congr hsame
  · rw [rowAt?_eq_seen, rowAt?_eq_seen, he, hpage]
    exact hfree place.slot

theorem Quiet.shows {start : LockTable} {tx : TxId} {p q : Pool} (move : Quiet start tx p q)
    (hp : Faithful p) (id : PageId) : Shows id p q := by
  have hdirty : p.dirty? id = q.dirty? id := move.sameDirty.dirty?_eq id
  cases hd : p.dirty? id with
  | some page =>
    rw [hd] at hdirty
    left
    rw [seen_of_page (dirty?_eq_some.mp hd).1, seen_of_page (dirty?_eq_some.mp hdirty.symm).1]
  | none =>
    -- A page that nobody changed is to be seen as its file holds it, before the move and after it.
    rw [hd] at hdirty
    unfold Shows
    rw [seen_of_clean hp hd, seen_of_clean (move.faithful hp) hdirty.symm]
    cases move with
    | look move => cases move <;> exact .inl rfl
    | giveBack => exact .inl rfl
    | grow table file known =>
      have hplaced := Storage.readPage_placed hp.own known (Storage.end_in_file file p.storage.disk)
        (Bytes.length_zeros file.pageSize) id
      by_cases hnew : id = ⟨table, file.numPages p.storage.disk⟩
      · cases hread : p.storage.readPage id with
        | ok page => exact .inl (Storage.readPage_grown hp.own known hread)
        | error e =>
          obtain ⟨page, hpage, hfree⟩ := Storage.readPage_grown_new hp.own known
          exact .inr ⟨⟨e, rfl⟩, page, hnew ▸ hpage, hfree⟩
      · rw [if_neg hnew] at hplaced
        exact .inl hplaced

theorem Quiets.seen {start : LockTable} {tx : TxId} {p q : Pool} (moves : Quiets start tx p q)
    (hp : Faithful p) {id : PageId} {page : Page} (hpage : p.seen id = .ok page) :
    q.seen id = .ok page := by
  induction moves with
  | refl => exact hpage
  | tail moves move ih => exact (move.shows (Quiets.faithful moves hp) id).page ih

theorem Quiets.rowAt? {start : LockTable} {tx : TxId} {p q : Pool} (moves : Quiets start tx p q)
    (hp : Faithful p) (place : RecordId) : q.rowAt? place = p.rowAt? place := by
  induction moves with
  | refl => rfl
  | tail moves move ih => exact (move.shows (Quiets.faithful moves hp) place.page).rowAt?.trans ih

/-! ## Changes -/

section Sets

variable {tx : TxId} {place : RecordId} {old new : Option (List Field)} {page : Page} {m q : Pool}
  (h : Sets tx place old new page m q)

include h

theorem Sets.seen {id : PageId} (hid : place.page ≠ id) : q.seen id = m.seen id := by
  unfold Pool.seen
  rw [h.page?, if_neg hid, h.storage]

theorem Sets.rowAt? {other : RecordId} (hother : other ≠ place) : q.rowAt? other = m.rowAt? other := by
  by_cases hid : place.page = other.page
  · have hslot : place.slot ≠ other.slot := fun heq =>
      hother (congrArg₂ RecordId.mk hid.symm heq.symm)
    have hbefore : m.page? other.page = some page := hid ▸ h.there
    have hafter := (h.page? other.page).trans (if_pos hid)
    rw [Pool.rowAt?, Pool.rowAt?, hafter, hbefore]
    change ((page.withSlot place.slot new).mark (some tx)).fieldsAt other.slot = page.fieldsAt other.slot
    rw [Page.fieldsAt_mark, Page.fieldsAt_withSlot h.slot, if_neg hslot]
  · exact rowAt?_congr (h.seen hid)

end Sets

/-! ## The end of a transaction -/

/-- Whatever the outcome, pages that the transaction did not change are as before. -/
theorem complete_seen (tx : TxId) (outcome : Outcome) {p : Pool} (hp : Faithful p) {id : PageId}
    (hid : id ∉ p.dirtiedBy tx) : (complete tx outcome p).2.seen id = p.seen id := by
  cases outcome with
  | commit =>
    obtain ⟨m, hm, hrun⟩ := commit_run tx hp
    rw [hrun]
    change m.seen id = p.seen id
    obtain ⟨hpage, hread⟩ := hm.unvisited hid
    unfold Pool.seen
    rw [hpage, hread]
  | abort =>
    obtain ⟨m, hm, hrun⟩ := abort_run tx hp
    rw [hrun]
    change m.seen id = p.seen id
    unfold Pool.seen
    rw [hm.pages, if_neg hid, hm.storage]

end PageStore.Pool
