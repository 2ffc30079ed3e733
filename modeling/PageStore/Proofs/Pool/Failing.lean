-- The end of a transaction when it fails. Files may have been changed behind the pool, so
-- that a page cannot be written, or cannot be read again. The end stops at the first such
-- page. It gives all locks back nevertheless, and so leaves this page, and the changed
-- pages that would have come after it, with the mark of a transaction that has no lock on
-- them.
import Mathlib.Data.List.TakeWhile
import PageStore.Proofs.Pool.Ended

namespace PageStore

/-- Whether a page can be written hangs on the page and on the table alone. -/
theorem TableFile.writePage_answer (t : TableFile) (page : Page) (d d' : Disk) :
    (t.writePage page d).1 = (t.writePage page d').1 := by
  unfold TableFile.writePage PageFile.write
  simp only [Step.bind_run, Step.state_run, Step.ofExcept_run]
  cases t.checkTable page.id with
  | error e => rfl
  | ok _ =>
    cases page.data with
    | error e => rfl
    | ok bs => cases hlen : t.pages.checkLength bs.length <;> simp only [hlen] <;> rfl

namespace Pool

/-! ## One page -/

/-- The visit to one page at the end of a transaction. -/
def visitOne (tx : TxId) : Outcome → PageId → Step Pool Unit
  | .commit => writeBack
  | .abort => revertPage tx

theorem completeVisiting_eq (visit : List PageId) (tx : TxId) (outcome : Outcome) :
    completeVisiting visit tx outcome = (do
      let result ← Step.attempt (do let _ ← Step.each (visitOne tx outcome) visit; pure ())
      releaseAll tx
      Step.ofExcept result) := by
  cases outcome <;> rfl

/-- What a visit does to the pool: if it fails all pages in memory are as before. -/
structure Visits (tx : TxId) (outcome : Outcome) (id : PageId) (p : Pool) (r : Except Error Unit) (q : Pool) :
    Prop where
  others : ∀ other, other ≠ id → q.page? other = p.page? other
  failed : ∀ e, r = .error e → q.page? id = p.page? id
  done : r = .ok () → Unmarked tx id q
  locks : q.locks = p.locks
  catalog : q.catalog = p.catalog
  disk : outcome = .abort → q.disk = p.disk

theorem visits_nothing {tx : TxId} {outcome : Outcome} {id : PageId} {p : Pool} {r : Except Error Unit}
    (done : r = .ok () → Unmarked tx id p) : Visits tx outcome id p r p :=
  ⟨fun _ _ => rfl, fun _ _ => rfl, done, rfl, rfl, fun _ => rfl⟩

/-- A page is put in the place of the one that was there, and has no mark. -/
theorem visits_withPage {tx : TxId} {outcome : Outcome} {id : PageId} {page clean : Page} {p q : Pool}
    (hpage : q.page? id = some page) (others : ∀ other, q.page? other = p.page? other)
    (hclean : clean.dirtiedBy = none) (locks : q.locks = p.locks) (catalog : q.catalog = p.catalog)
    (disk : outcome = .abort → q.disk = p.disk) :
    Visits tx outcome id p (.ok ()) (q.withPage id fun _ => clean) := by
  refine ⟨fun other hother => ?_, (fun e he => nomatch he), fun _ page' hpage' => ?_, locks, catalog, disk⟩
  · rw [page?_withPage, if_neg hother.symm, others]
  · rw [page?_withPage, if_pos rfl, hpage] at hpage'
    rw [← Option.some.inj hpage', hclean]
    exact (Option.some_ne_none tx).symm

theorem writeBack_visits (tx : TxId) (id : PageId) (p : Pool) :
    (writeBack id).Ends p (Visits tx .commit id p) := by
  unfold writeBack
  refine Step.Ends.of_ok (Step.state_run p) ?_
  split
  · rename_i hnone
    exact visits_nothing fun _ => unmarked_of_absent hnone
  · rename_i page hpage
    split
    · rename_i hclean
      exact visits_nothing fun _ => unmarked_of_page hpage (by simp [Option.isNone_iff_eq_none.mp hclean])
    · have hfile : (onStorage (Storage.writePage page)).Ends p fun _ q =>
          (∀ other, q.page? other = p.page? other) ∧ q.locks = p.locks ∧ q.catalog = p.catalog := by
        refine ⟨fun _ => rfl, rfl, ?_⟩
        change (Storage.writePage page p.storage).2.catalog = p.catalog
        unfold Storage.writePage
        refine Step.Ends.of_ok (Q := fun _ (s : Storage) => s.catalog = p.catalog) (Step.read_run _ _) ?_
        exact Step.Ends.ofExcept (fun _ _ => rfl) (fun _ _ => rfl)
      have hfails : ∀ (e : Error) q, (∀ other, q.page? other = p.page? other) ∧ q.locks = p.locks ∧
          q.catalog = p.catalog → Visits tx .commit id p (.error e) q :=
        fun e q h => ⟨fun other _ => h.1 other, fun _ _ => h.1 id, (fun hr => nomatch hr), h.2.1, h.2.2,
          (fun ho => nomatch ho)⟩
      refine Step.Ends.bind hfile ?_ (fun e q h => hfails e q h)
      intro _ q hq
      refine Step.Ends.ofExcept ?_ (fun e _ => hfails e q hq)
      intro clean hset
      obtain ⟨bs, -, rfl⟩ := Page.setBefore_spec hset
      exact visits_withPage ((hq.1 id).trans hpage) hq.1 rfl hq.2.1 hq.2.2 (fun h => nomatch h)

theorem revertPage_visits (tx : TxId) (id : PageId) (p : Pool) :
    (revertPage tx id).Ends p (Visits tx .abort id p) := by
  unfold revertPage
  refine Step.Ends.of_ok (Step.state_run p) ?_
  split
  · rename_i hnone
    exact visits_nothing fun _ => unmarked_of_absent hnone
  · rename_i page hpage
    split
    · rename_i hother
      exact visits_nothing fun _ => unmarked_of_page hpage hother
    · refine Step.Ends.ofExcept ?_ (fun e _ => visits_nothing fun h => nomatch h)
      intro stored hstored
      exact visits_withPage hpage (fun _ => rfl) (Storage.clean_of_readPage hstored) rfl rfl fun _ => rfl

theorem visitOne_visits (tx : TxId) (outcome : Outcome) (id : PageId) (p : Pool) :
    (visitOne tx outcome id).Ends p (Visits tx outcome id p) := by
  cases outcome with
  | commit => exact writeBack_visits tx id p
  | abort => exact revertPage_visits tx id p

/-! ## What a visit answers -/

theorem writePage_answer {m p : Pool} (catalog : m.catalog = p.catalog) (page : Page) :
    (onStorage (Storage.writePage page) m).1 = (onStorage (Storage.writePage page) p).1 := by
  have hcatalog : m.storage.catalog = p.storage.catalog := catalog
  change (Storage.writePage page m.storage).1 = (Storage.writePage page p.storage).1
  unfold Storage.writePage
  rw [Step.bind_of_ok (Step.read_run _ m.storage), Step.bind_of_ok (Step.read_run _ p.storage), hcatalog]
  cases p.storage.catalog.tableFile page.id.table with
  | error e => rfl
  | ok file => exact file.writePage_answer page m.disk p.disk

theorem writeBack_answer {id : PageId} {m p : Pool} (page : m.page? id = p.page? id)
    (catalog : m.catalog = p.catalog) : (writeBack id m).1 = (writeBack id p).1 := by
  unfold writeBack
  rw [Step.bind_of_ok (Step.state_run m), Step.bind_of_ok (Step.state_run p), page]
  cases p.page? id with
  | none => rfl
  | some page =>
    simp only
    split
    · rfl
    · have hsame := writePage_answer catalog page
      rw [Step.bind_run, Step.bind_run]
      rcases hm : onStorage (Storage.writePage page) m with ⟨r, m'⟩
      rcases hp : onStorage (Storage.writePage page) p with ⟨r', p'⟩
      rw [hm, hp] at hsame
      obtain rfl : r = r' := hsame
      cases r with
      | error e => rfl
      | ok _ => cases (page.mark none).setBefore <;> rfl

theorem revertPage_answer {tx : TxId} {id : PageId} {m p : Pool} (page : m.page? id = p.page? id)
    (storage : m.storage = p.storage) : (revertPage tx id m).1 = (revertPage tx id p).1 := by
  unfold revertPage
  rw [Step.bind_of_ok (Step.state_run m), Step.bind_of_ok (Step.state_run p), page, storage]
  cases p.page? id with
  | none => rfl
  | some page =>
    simp only
    split
    · rfl
    · cases p.storage.readPage id <;> rfl

/-- A pool in which visits to these pages come to the same as in another one. -/
structure SameFor (outcome : Outcome) (visit : List PageId) (p m : Pool) : Prop where
  pages : ∀ id ∈ visit, m.page? id = p.page? id
  catalog : m.catalog = p.catalog
  disk : outcome = .abort → m.disk = p.disk

theorem SameFor.answer {outcome : Outcome} {visit : List PageId} {p m : Pool}
    (h : SameFor outcome visit p m) (tx : TxId) {id : PageId} (hid : id ∈ visit) :
    (visitOne tx outcome id m).1 = (visitOne tx outcome id p).1 := by
  cases outcome with
  | commit => exact writeBack_answer (h.pages id hid) h.catalog
  | abort =>
    have hstorage : m.storage = p.storage := by
      have hcatalog : m.storage.catalog = p.storage.catalog := h.catalog
      have hdisk : m.storage.disk = p.storage.disk := h.disk rfl
      cases hm : m.storage
      cases hp : p.storage
      simp_all
    exact revertPage_answer (h.pages id hid) hstorage

/-- A visit to another page changes nothing of this. -/
theorem SameFor.visited {outcome : Outcome} {id : PageId} {rest : List PageId} {p m q : Pool} {tx : TxId}
    {r : Except Error Unit} (h : SameFor outcome (id :: rest) p m) (hid : id ∉ rest)
    (visits : Visits tx outcome id m r q) : SameFor outcome rest p q where
  pages other hother := by
    have hne : other ≠ id := fun heq => hid (heq ▸ hother)
    exact (visits.others other hne).trans (h.pages other (List.mem_cons_of_mem _ hother))
  catalog := visits.catalog.trans h.catalog
  disk ho := (visits.disk ho).trans (h.disk ho)

/-! ## A list of pages -/

/-- The pages of a list from the first one on that cannot be written, or cannot be read again. -/
def leftOver (tx : TxId) (outcome : Outcome) (p : Pool) (visit : List PageId) : List PageId :=
  visit.dropWhile fun id => (visitOne tx outcome id p).1.isOk

/-- The answer of the first page that is left over. -/
def answerFor (tx : TxId) (outcome : Outcome) (p : Pool) (rest : List PageId) : Except Error Unit :=
  rest.head?.elim (.ok ()) fun id => (visitOne tx outcome id p).1

/-- What visits to the pages of a list come to, one after the other. -/
structure LeavesOver (tx : TxId) (visit rest : List PageId) (m q : Pool) : Prop where
  same : ∀ id, (id ∈ visit → id ∈ rest) → q.page? id = m.page? id
  done : ∀ id ∈ visit, id ∉ rest → Unmarked tx id q
  locks : q.locks = m.locks

/-- Where the first page fails the whole list is left over. -/
theorem LeavesOver.failed {tx : TxId} {outcome : Outcome} {id : PageId} {m q : Pool} {e : Error}
    (visits : Visits tx outcome id m (.error e) q) (rest : List PageId) :
    LeavesOver tx (id :: rest) (id :: rest) m q where
  same other _ := by
    by_cases heq : other = id
    · exact heq ▸ visits.failed e rfl
    · exact visits.others other heq
  done _ hmem hnot := absurd hmem hnot
  locks := visits.locks

/-- Where it does not fail what is left over is left over of the others. -/
theorem LeavesOver.cons {tx : TxId} {outcome : Outcome} {id : PageId} {rest left : List PageId} {m q t : Pool}
    (h : LeavesOver tx rest left q t) (visits : Visits tx outcome id m (.ok ()) q) (hid : id ∉ rest)
    (part : ∀ other ∈ left, other ∈ rest) : LeavesOver tx (id :: rest) left m t where
  same other hother := by
    have hne : other ≠ id := fun heq => hid (part id (heq ▸ hother (heq ▸ List.mem_cons_self)))
    rw [h.same other fun hmem => hother (List.mem_cons_of_mem _ hmem), visits.others other hne]
  done other hmem hleft := by
    rcases List.mem_cons.mp hmem with rfl | hmem
    · intro page hpage
      rw [h.same other fun hmem => absurd hmem hid] at hpage
      exact visits.done rfl page hpage
    · exact h.done other hmem hleft
  locks := h.locks.trans visits.locks

theorem each_leaves (tx : TxId) (outcome : Outcome) {p : Pool} {visit : List PageId} (nodup : visit.Nodup)
    {m : Pool} (h : SameFor outcome visit p m) :
    (Step.each (visitOne tx outcome) visit).Ends m fun r q =>
      LeavesOver tx visit (leftOver tx outcome p visit) m q ∧
        r.map (fun _ => ()) = answerFor tx outcome p (leftOver tx outcome p visit) := by
  induction visit generalizing m with
  | nil => exact ⟨⟨fun _ _ => rfl, fun id hid => absurd hid List.not_mem_nil, rfl⟩, rfl⟩
  | cons id rest ih =>
    obtain ⟨hid, hnodup⟩ := List.nodup_cons.mp nodup
    have hanswer := h.answer tx (List.mem_cons_self (a := id) (l := rest))
    have hvisits := visitOne_visits tx outcome id m
    change (visitOne tx outcome id >>= fun b =>
      Step.each (visitOne tx outcome) rest >>= fun bs => pure (b :: bs)).Ends m _
    unfold Step.Ends at hvisits
    rcases hrun : visitOne tx outcome id m with ⟨e | ⟨⟩, q⟩
    · rw [hrun] at hanswer hvisits
      have hleft : leftOver tx outcome p (id :: rest) = id :: rest := by
        rw [leftOver, List.dropWhile_cons, ← hanswer]
        rfl
      rw [hleft]
      exact Step.Ends.of_error hrun ⟨.failed hvisits rest, hanswer⟩
    · rw [hrun] at hanswer hvisits
      have hleft : leftOver tx outcome p (id :: rest) = leftOver tx outcome p rest := by
        rw [leftOver, List.dropWhile_cons, ← hanswer]
        rfl
      have hpart : ∀ other ∈ leftOver tx outcome p rest, other ∈ rest :=
        fun other hmem => (List.dropWhile_sublist _).mem hmem
      rw [hleft]
      refine Step.Ends.of_ok hrun (Step.Ends.bind (ih hnodup (h.visited hid hvisits)) ?_ ?_)
      · exact fun bs t ht => ⟨ht.1.cons hvisits hid hpart, ht.2⟩
      · exact fun e t ht => ⟨ht.1.cons hvisits hid hpart, ht.2⟩

/-! ## The end of a transaction -/

/-- What there is after an end that may have failed. -/
structure Stopped (tx : TxId) (outcome : Outcome) (visit : List PageId) (p : Pool) (r : Except Error Unit)
    (q : Pool) : Prop where
  /-- The transaction has no lock any more, and the others have theirs. -/
  locks : ∀ u id, q.locks.mode? u id = if u = tx then none else p.locks.mode? u id
  /-- The mark of the transaction stays on exactly the pages that are left over. -/
  marked : ∀ id, id ∈ q.dirtiedBy tx ↔ id ∈ leftOver tx outcome p visit
  /-- These pages, and those that it had not changed, are as before. -/
  same : ∀ id, id ∉ p.dirtiedBy tx ∨ id ∈ leftOver tx outcome p visit → q.page? id = p.page? id
  /-- The answer is that of the first page that is left over. -/
  answer : r = answerFor tx outcome p (leftOver tx outcome p visit)

theorem completeVisiting_stopped (tx : TxId) (outcome : Outcome) {p : Pool} (hl : p.locks.WellKept)
    {visit : List PageId} (perm : visit.Perm (p.dirtiedBy tx)) :
    (completeVisiting visit tx outcome).Ends p (Stopped tx outcome visit p) := by
  have hnodup := perm.symm.nodup (nodup_dirtiedBy p tx)
  rw [completeVisiting_eq]
  refine Step.Ends.bind_attempt (P := fun r q => LeavesOver tx visit (leftOver tx outcome p visit) p q ∧
    r = answerFor tx outcome p (leftOver tx outcome p visit)) ?_ ?_
  · refine Step.Ends.bind (each_leaves tx outcome hnodup ⟨fun _ _ => rfl, rfl, fun _ => rfl⟩) ?_ ?_
    · exact fun _ _ h => h
    · exact fun _ _ h => h
  · rintro r m ⟨hleaves, hr⟩
    refine ⟨fun u id => ?_, fun id => ?_, fun id hid => ?_, hr⟩
    · change (m.locks.releaseAll tx).2.mode? u id = _
      rw [hleaves.locks, LockTable.mode?_releaseAll hl]
      rfl
    · have hmarked : id ∈ (m.withLocks (m.locks.releaseAll tx).2).dirtiedBy tx ↔ ¬ Unmarked tx id m := by
        rw [← not_mem_dirtiedBy, not_not]
        rfl
      change id ∈ (m.withLocks (m.locks.releaseAll tx).2).dirtiedBy tx ↔ _
      rw [hmarked]
      constructor
      · intro hm
        refine Classical.not_not.mp fun hleft => hm ?_
        by_cases hvisit : id ∈ visit
        · exact hleaves.done id hvisit hleft
        · intro page hpage
          rw [hleaves.same id fun h => absurd h hvisit] at hpage
          exact not_mem_dirtiedBy.mp (fun h => hvisit (perm.mem_iff.mpr h)) page hpage
      · intro hleft hm
        have hvisit : id ∈ visit := (List.dropWhile_sublist _).mem hleft
        obtain ⟨page, hpage, hdirty⟩ := mem_dirtiedBy.mp (perm.mem_iff.mp hvisit)
        exact hm page ((hleaves.same id fun _ => hleft).trans hpage) hdirty
    · change m.page? id = p.page? id
      refine hleaves.same id fun hvisit => ?_
      exact hid.resolve_left (fun h => h (perm.mem_iff.mp hvisit))

theorem leftOver_eq_nil {tx : TxId} {outcome : Outcome} {p : Pool} {visit : List PageId} :
    leftOver tx outcome p visit = [] ↔ ∀ id ∈ visit, (visitOne tx outcome id p).1 = .ok () := by
  rw [leftOver, List.dropWhile_eq_nil_iff]
  refine forall₂_congr fun id _ => ?_
  cases (visitOne tx outcome id p).1 with
  | ok _ => exact iff_of_true rfl rfl
  | error e => exact iff_of_false (fun h => nomatch h) (fun h => nomatch h)

theorem answerFor_leftOver {tx : TxId} {outcome : Outcome} {p : Pool} {visit : List PageId} :
    answerFor tx outcome p (leftOver tx outcome p visit) = .ok () ↔ leftOver tx outcome p visit = [] := by
  cases hleft : leftOver tx outcome p visit with
  | nil => exact iff_of_true rfl rfl
  | cons id rest =>
    refine iff_of_false (fun h => ?_) (List.cons_ne_nil id rest)
    have hok : (visitOne tx outcome id p).1 = .ok () := h
    have hfirst := List.head?_dropWhile_not (fun id => (visitOne tx outcome id p).1.isOk) visit
    rw [show visit.dropWhile _ = _ from hleft, List.head?_cons] at hfirst
    simp only [hok] at hfirst
    cases hfirst

theorem wellKept_foldl {first p : Pool} (new : Tracked [] first) (h : Known first p)
    (hl : p.locks.WellKept) (calls : List Call) : (calls.foldl after p).locks.WellKept := by
  induction calls generalizing p with
  | nil => exact hl
  | cons c rest ih => exact ih (h.after new c) (wellKept_after (h.keyed new) hl c)

/-! ## The laws -/

/-- Whatever was asked of a new pool, and whatever was done to its files, an end of a transaction takes all
its locks from it. It takes its mark from the changed pages up to the first one that cannot be written, or
cannot be read again; so all marks are gone exactly if there is no such page, and exactly then the end
succeeds. -/
theorem the_marks_of_a_transaction_go_if_its_end_succeeds {storage : Storage} {config : Config} {pool : Pool}
    (new : Pool.new storage config = .ok pool) (calls : List Call) {p : Pool}
    (served : calls.foldl after pool = p) (tx : TxId) (outcome : Outcome) {visit : List PageId}
    (perm : visit.Perm (p.dirtiedBy tx)) {r : Except Error Unit} {q : Pool}
    (run : completeVisiting visit tx outcome p = (r, q)) :
    Stopped tx outcome visit p r q ∧ (r = .ok () ↔ q.dirtiedBy tx = []) ∧
    (q.dirtiedBy tx = [] ↔ ∀ id ∈ p.dirtiedBy tx, (visitOne tx outcome id p).1 = .ok ()) := by
  have hfirst : Tracked [] pool := tracked_of_new new
  have hlocks : p.locks.WellKept := by
    rw [← served]
    exact wellKept_foldl hfirst ⟨[], .start⟩ (guarded_of_new new).locks calls
  have hstopped := completeVisiting_stopped tx outcome hlocks perm
  unfold Step.Ends at hstopped
  rw [run] at hstopped
  replace hstopped : Stopped tx outcome visit p r q := hstopped
  have hmarks : q.dirtiedBy tx = [] ↔ leftOver tx outcome p visit = [] := by
    simp only [List.eq_nil_iff_forall_not_mem, hstopped.marked]
  refine ⟨hstopped, ?_, ?_⟩
  · rw [hstopped.answer, answerFor_leftOver, hmarks]
  · rw [hmarks, leftOver_eq_nil]
    simp only [perm.mem_iff]

/-- A row is put in, and then its file is emptied by somebody else. -/
def emptied : List Call :=
  [.insert 7 1 { schema := ⟨[⟨"n", .int⟩]⟩, fields := [.int 5] }, .elsewhere Storage.oneTable]

theorem a_page_that_cannot_be_read_again_keeps_its_mark :
    Pool.new Storage.oneTable { capacity := 2, pageSize := 64 } = .ok roomForTwo ∧
    (emptied.foldl after roomForTwo).dirtiedBy 7 = [⟨1, 0⟩] ∧
    ∃ r q, completeVisiting [⟨1, 0⟩] 7 .abort (emptied.foldl after roomForTwo) = (r, q) ∧
      Stopped 7 .abort [⟨1, 0⟩] (emptied.foldl after roomForTwo) r q ∧ r ≠ .ok () := by
  have new : Pool.new Storage.oneTable { capacity := 2, pageSize := 64 } = .ok roomForTwo := rfl
  have hdirty : (emptied.foldl after roomForTwo).dirtiedBy 7 = [⟨1, 0⟩] := by decide +kernel
  have hfails : (visitOne 7 .abort ⟨1, 0⟩ (emptied.foldl after roomForTwo)).1.isOk = false := by
    decide +kernel
  have hperm : List.Perm [⟨1, 0⟩] ((emptied.foldl after roomForTwo).dirtiedBy 7) := .of_eq hdirty.symm
  obtain ⟨hstopped, hok, hmarks⟩ :=
    the_marks_of_a_transaction_go_if_its_end_succeeds new emptied rfl 7 .abort hperm rfl
  refine ⟨new, hdirty, _, _, rfl, hstopped, fun h => ?_⟩
  have hread := hmarks.mp (hok.mp h) ⟨1, 0⟩ (hdirty ▸ List.mem_singleton_self _)
  rw [hread] at hfails
  cases hfails

/-- The transaction is given up, and another one puts in a row and commits. -/
def goesOn : List Call :=
  [.complete 7 .abort, .insert 8 1 { schema := ⟨[⟨"n", .int⟩]⟩, fields := [.int 6] }, .complete 8 .commit]

/-- The change that was given up is put in by another transaction, when that one commits a change of its
own. -/
theorem a_change_that_was_given_up_is_committed :
    (complete 7 .abort (emptied.foldl after roomForTwo)).1.isOk = false ∧
    (complete 7 .abort (emptied.foldl after roomForTwo)).2.dirtiedBy 7 = [⟨1, 0⟩] ∧
    (complete 7 .abort (emptied.foldl after roomForTwo)).2.locks.holds 7 ⟨1, 0⟩ = false ∧
    ∃ q, (emptied ++ goesOn).foldl after roomForTwo = q ∧
      q.storage.rowAt? ⟨⟨1, 0⟩, 0⟩ = some [.int 5] ∧ q.storage.rowAt? ⟨⟨1, 0⟩, 1⟩ = some [.int 6] := by
  refine ⟨by decide +kernel, by decide +kernel, by decide +kernel, _, rfl, ?_, ?_⟩
  · decide +kernel
  · decide +kernel

end Pool

end PageStore
