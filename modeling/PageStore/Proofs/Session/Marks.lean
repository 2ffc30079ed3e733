-- Whose changes a transaction can see. Whatever transactions ask of a pool, and in
-- whatever order, a changed page in memory is locked by the one that changed it. So
-- nobody is given a page with the changes of another one, and the mark of a change
-- never goes from one transaction straight to another.
import PageStore.Proofs.Pool.Marks
import PageStore.Proofs.Session.Effects

namespace PageStore.Session

open Pool

/-! ## Sessions that ask for pages and rows -/

/-- Pages and rows are asked for, walked over, written and dropped, and transactions end. -/
def OnPages : Action → Prop
  | .fetch .. | .poolInsert .. | .poolDelete .. | .insert .. | .delete .. => True
  | .scan .. | .openScan .. | .nextRows .. | .rewind .. => True
  | .flush .. | .flushAll | .discard .. | .commit .. | .abort .. => True
  | _ => False

def IsEnd : Action → Prop
  | .commit .. | .abort .. => True
  | _ => False

/-- The sessions that come about when such actions are carried out, each end of a transaction with
success. -/
inductive Reached (first : Session) : Session → Prop where
  | start : Reached first first
  | step {s : Session} (a : Action) (before : Reached first s) (asked : OnPages a)
      (ended : IsEnd a → (run a s).1 = .ok .nothing) : Reached first (run a s).2

/-! ## What one action keeps -/

/-- A page does not pass from one transaction that changed it to another. -/
def NoHandOver (p q : Pool) : Prop :=
  ∀ id page page' t u, p.page? id = some page → page.dirtiedBy = some t →
    q.page? id = some page' → page'.dirtiedBy = some u → t = u

theorem noHandOver_of_dirty {p q : Pool} (h : ∀ id page u, q.page? id = some page →
    page.dirtiedBy = some u → p.page? id = some page) : NoHandOver p q := by
  intro id page page' t u hpage hdirty hpage' hdirty'
  have hsame := h id page' u hpage' hdirty'
  rw [hpage, Option.some.injEq] at hsame
  rw [hsame, hdirty'] at hdirty
  exact (Option.some.inj hdirty).symm

theorem noHandOver_of_sameDirty {p q : Pool} (h : SameDirty p q) : NoHandOver p q :=
  noHandOver_of_dirty fun id page u hpage hdirty => (h id page u hdirty).mpr hpage

theorem noHandOver_of_settles {p q : Pool} (h : Settles p q) : NoHandOver p q :=
  noHandOver_of_dirty fun _ _ _ hpage hdirty => h.dirty hpage hdirty

/-- Who changes a page has it locked, and so no one else has changed it before. -/
theorem noHandOver_of_sets {p m q : Pool} {tx : TxId} {place : RecordId}
    {old new : Option (List Field)} {page : Page} (hsame : SameDirty p m) (hm : Guarded m)
    (h : Sets tx place old new page m q) : NoHandOver p q := by
  intro id before after t u hbefore hdirty hafter hdirty'
  have hthere := (hsame id before t hdirty).mp hbefore
  rw [h.page?] at hafter
  split at hafter
  · rename_i heq
    subst heq
    cases hafter
    cases hdirty'
    obtain rfl : page = before := Option.some.inj (h.there.symm.trans hthere)
    exact h.mark_eq hm hdirty
  · rw [hthere, Option.some.injEq] at hafter
    rw [hafter, hdirty'] at hdirty
    exact (Option.some.inj hdirty).symm

/-- Whether a transaction ends or not, what is still marked was marked for the same one before. -/
theorem noHandOver_of_completes {tx : TxId} {p m q : Pool} (h : Completes tx p m q) :
    NoHandOver p q := by
  rw [h.result]
  exact fun id page page' t u => noHandOver_of_settles h.settles id page page' t u

theorem puts_keeps {tx : TxId} {fields : List Field} {p q : Pool} {r : Except Error Answer}
    (h : Puts tx fields p r q) (hp : Guarded p) : Guarded q ∧ NoHandOver p q := by
  obtain ⟨r', -, ⟨row, -, -, hin⟩ | ⟨-, rfl⟩⟩ := h
  · cases r' with
    | ok place =>
      obtain ⟨page, m, hmoves, hsets, -⟩ := hin
      have hm := Quiets.guarded hmoves hp
      exact ⟨hsets.guarded hm, noHandOver_of_sets (Quiets.sameDirty hmoves) hm hsets⟩
    | error e => exact ⟨Quiets.guarded hin hp, noHandOver_of_sameDirty (Quiets.sameDirty hin)⟩
  · exact ⟨hp, noHandOver_of_sameDirty (SameDirty.refl _)⟩

theorem looks_keeps {tx : TxId} {p q : Pool} (h : Looks tx p q) (hp : Guarded p) :
    Guarded q ∧ NoHandOver p q :=
  ⟨Looks.guarded h hp, noHandOver_of_sameDirty (Looks.sameDirty h)⟩

theorem deletes_keeps {tx : TxId} {place : RecordId} {p q : Pool} {r : Except Error Answer}
    (h : Deletes tx place p r q) (hp : Guarded p) : Guarded q ∧ NoHandOver p q := by
  cases r with
  | ok answer =>
    obtain ⟨fields, page, m, hmoves, hsets⟩ := h
    have hm := Looks.guarded hmoves hp
    exact ⟨hsets.guarded hm, noHandOver_of_sets (Looks.sameDirty hmoves) hm hsets⟩
  | error e => exact looks_keeps h hp

theorem settles_keeps {p q : Pool} (h : Settles p q) (hp : Guarded p) :
    Guarded q ∧ NoHandOver p q := ⟨h.guarded hp, noHandOver_of_settles h⟩

theorem discard_keeps (id : PageId) {p : Pool} (hp : Guarded p) :
    Guarded (Pool.discard id p).2 ∧ NoHandOver p (Pool.discard id p).2 := by
  have hleft : ∀ other page, (Pool.discard id p).2.page? other = some page →
      p.page? other = some page := by
    intro other page hpage
    rw [page?_discard] at hpage
    split at hpage
    · cases hpage
    · exact hpage
  refine ⟨⟨fun other page hpage => hp.keyed other page (hleft other page hpage), ?_, ?_⟩,
    noHandOver_of_dirty fun other page u hpage _ => hleft other page hpage⟩
  · rw [locks_discard]
    exact hp.locks
  · intro other page u hpage hdirty
    rw [locks_discard]
    exact hp.owned other page u (hleft other page hpage) hdirty

/-- A transaction that ends with success leaves no mark, and one that does not keeps its marks. -/
theorem complete_keeps {tx : TxId} {outcome : Outcome} {p q : Pool} {r : Except Error Answer}
    (h : (r, q) = ((complete tx outcome p).1.map fun _ => Answer.nothing, (complete tx outcome p).2))
    (hp : Guarded p) : (r = .ok .nothing → Guarded q) ∧ NoHandOver p q := by
  obtain ⟨hr, rfl⟩ := Prod.mk.inj h
  obtain ⟨m, hcompletes, -⟩ := complete_ends tx outcome hp.keyed
  refine ⟨fun hok => guarded_of_complete hp ?_, noHandOver_of_completes hcompletes⟩
  rw [hr] at hok
  cases hrun : (complete tx outcome p).1 with
  | ok u => rfl
  | error e =>
    rw [hrun] at hok
    cases hok

/-- One action, and for the end of a transaction its success. -/
theorem keeps_of_does {p q : Pool} {a : Action} {r : Except Error Answer} (h : Does p a r q)
    (asked : OnPages a) (hp : Guarded p) :
    ((IsEnd a → r = .ok .nothing) → Guarded q) ∧ NoHandOver p q := by
  have hkeeps (hboth : Guarded q ∧ NoHandOver p q) :
      ((IsEnd a → r = .ok .nothing) → Guarded q) ∧ NoHandOver p q := ⟨fun _ => hboth.1, hboth.2⟩
  have hnone : Guarded p ∧ NoHandOver p p := ⟨hp, noHandOver_of_sameDirty (SameDirty.refl p)⟩
  cases a
  case fetch => exact hkeeps (looks_keeps h.1 hp)
  case insert => exact hkeeps (puts_keeps h hp)
  case poolInsert => exact hkeeps (puts_keeps h hp)
  case delete => exact hkeeps (deletes_keeps h hp)
  case poolDelete tx place fields columns =>
    cases place with
    | none => exact hkeeps (looks_keeps h.2 hp)
    | some place => exact hkeeps (deletes_keeps h hp)
  case scan => exact hkeeps (looks_keeps h hp)
  case nextRows =>
    obtain ⟨tx, hlooks⟩ := h
    exact hkeeps (looks_keeps hlooks hp)
  case openScan =>
    cases h
    exact hkeeps hnone
  case rewind =>
    cases h
    exact hkeeps hnone
  case flush tx =>
    obtain ⟨-, rfl⟩ := Prod.mk.inj h
    exact hkeeps (settles_keeps (flush_ends tx hp.keyed) hp)
  case flushAll =>
    obtain ⟨-, rfl⟩ := Prod.mk.inj h
    exact hkeeps (settles_keeps (flushAll_ends hp.keyed) hp)
  case discard id =>
    obtain ⟨-, rfl⟩ := h
    exact hkeeps (discard_keeps id hp)
  case commit tx =>
    obtain ⟨hguarded, hmarks⟩ := complete_keeps h hp
    exact ⟨fun ended => hguarded (ended trivial), hmarks⟩
  case abort tx =>
    obtain ⟨hguarded, hmarks⟩ := complete_keeps h hp
    exact ⟨fun ended => hguarded (ended trivial), hmarks⟩
  all_goals exact absurd asked id

theorem Reached.guarded {first s : Session} (h : Reached first s) (hfirst : Guarded first.pool) :
    Guarded s.pool := by
  induction h with
  | start => exact hfirst
  | step a _ asked ended ih => exact (keeps_of_does (run_does a ih.keyed) asked ih).1 ended

/-! ## The laws -/

/-- On a new pool, over any catalog and any files, whoever changed a page in memory has it locked to
change it. So a page that is given to a transaction has no changes of another one, and no action
hands the mark of a change from one transaction to another. -/
theorem a_changed_page_is_locked_by_who_changed_it {storage : Storage} {config : Config} {pool : Pool}
    (new : Pool.new storage config = .ok pool) {s : Session} (h : Reached { pool } s) :
    (∀ id page tx, s.pool.page? id = some page → page.dirtiedBy = some tx →
      s.pool.locks.mode? tx id = some .exclusive) ∧
    (∀ tx id mode keepAs busy page u, (run (.fetch tx id mode keepAs busy) s).1 = .ok (.page page) →
      page.dirtiedBy = some u → u = tx) ∧
    (∀ a, OnPages a → ∀ id page page' t u, s.pool.page? id = some page → page.dirtiedBy = some t →
      (run a s).2.pool.page? id = some page' → page'.dirtiedBy = some u → t = u) := by
  have hs : Guarded s.pool := h.guarded (guarded_of_new new)
  refine ⟨hs.owned, ?_, ?_⟩
  · intro tx id mode keepAs busy page u hanswer hdirty
    obtain ⟨hlooks, hgot⟩ := run_does (.fetch tx id mode keepAs busy) hs.keyed
    obtain ⟨hthere, hcovers⟩ := hgot page hanswer
    have hafter := Looks.guarded hlooks hs
    have howner := hafter.owned id page u hthere hdirty
    refine (LockTable.only_holder hafter.locks howner ?_).symm
    intro hnone
    rw [hnone] at hcovers
    cases hcovers
  · intro a asked
    exact (keeps_of_does (run_does a hs.keyed) asked hs).2

/-- A pool with room for one page, over one empty table. -/
def smallPool : Pool := { config := { capacity := 1, pageSize := 64 }, storage := Storage.oneTable }

/-- The pool after one row was put in. -/
def afterOneRow : Session := (run (.insert 7 1 [.int 5]) { pool := smallPool }).2

theorem the_page_of_a_new_row_is_locked :
    Pool.new Storage.oneTable { capacity := 1, pageSize := 64 } = .ok smallPool ∧
    Reached { pool := smallPool } afterOneRow ∧
    (afterOneRow.pool.page? ⟨1, 0⟩).map Page.dirtiedBy = some (some 7) ∧
    afterOneRow.pool.locks.mode? 7 ⟨1, 0⟩ = some .exclusive := by
  have hnew : Pool.new Storage.oneTable { capacity := 1, pageSize := 64 } = .ok smallPool := rfl
  have hreached : Reached { pool := smallPool } afterOneRow :=
    .step _ .start trivial (fun h => h.elim)
  have hmarked : (afterOneRow.pool.page? ⟨1, 0⟩).map Page.dirtiedBy = some (some 7) := by
    decide +kernel
  obtain ⟨page, hpage, hdirty⟩ := Option.map_eq_some_iff.mp hmarked
  exact ⟨hnew, hreached, hmarked,
    (a_changed_page_is_locked_by_who_changed_it hnew hreached).1 _ page 7 hpage hdirty⟩

end PageStore.Session
