-- Who changed a page and who may: a page in memory that a transaction changed is
-- locked by it, and by nobody else, until the mark is gone. What carries this
-- through a chain of moves is that no move touches a changed page.
import PageStore.Pool.Completion
import PageStore.Proofs.Pool.Requests

namespace PageStore.Pool

/-- The pages stand at their places, the locks are well kept, and whoever changed a page in memory has
it locked to change it. -/
structure Guarded (p : Pool) : Prop where
  keyed : Keyed p
  locks : p.locks.WellKept
  owned : ∀ id page tx, p.page? id = some page → page.dirtiedBy = some tx →
    p.locks.mode? tx id = some .exclusive

/-- The same changed pages are in memory, with the same content. -/
def SameDirty (p q : Pool) : Prop :=
  ∀ id page tx, page.dirtiedBy = some tx → (p.page? id = some page ↔ q.page? id = some page)

theorem SameDirty.refl (p : Pool) : SameDirty p p := fun _ _ _ _ => Iff.rfl

theorem SameDirty.trans {p m q : Pool} (h : SameDirty p m) (h' : SameDirty m q) : SameDirty p q :=
  fun id page tx hd => (h id page tx hd).trans (h' id page tx hd)

theorem SameDirty.symm {p q : Pool} (h : SameDirty p q) : SameDirty q p :=
  fun id page tx hd => (h id page tx hd).symm

theorem guarded_of_new {storage : Storage} {config : Config} {pool : Pool}
    (h : Pool.new storage config = .ok pool) : Guarded pool := by
  obtain ⟨rfl, -, -⟩ := eq_of_new h
  refine ⟨?_, LockTable.wellKept_empty, ?_⟩
  · intro id page hpage
    cases hpage
  · intro id page tx hpage
    cases hpage

/-! ## Quiet moves -/

/-- No quiet move touches a changed page. -/
theorem Quiet.sameDirty {start : LockTable} {tx : TxId} {p q : Pool} (move : Quiet start tx p q) :
    SameDirty p q := by
  intro id page u hdirty
  cases move with
  | look move =>
    cases move with
    | lock => exact Iff.rfl
    | use => exact Iff.rfl
    | drop busy victim oldest =>
      rw [page?_without]
      split
      · rename_i heq
        obtain ⟨gone, hgone, hclean⟩ := clean_of_mayGo (Recency.mayGo_of_oldest? oldest)
        subst heq
        constructor
        · intro hpage
          rw [hgone, Option.some.injEq] at hpage
          rw [← hpage, hclean] at hdirty
          cases hdirty
        · intro h
          cases h
      · exact Iff.rfl
    | load id' page' absent stored =>
      rw [page?_withFrame]
      split
      · rename_i heq
        subst heq
        constructor
        · intro hpage
          rw [absent] at hpage
          cases hpage
        · intro hpage
          rw [← Option.some.inj hpage, Storage.clean_of_readPage stored] at hdirty
          cases hdirty
      · exact Iff.rfl
  | giveBack => exact Iff.rfl
  | grow => exact Iff.rfl

theorem Quiets.sameDirty {start : LockTable} {tx : TxId} {p q : Pool} (h : Quiets start tx p q) :
    SameDirty p q := by
  induction h with
  | refl => exact SameDirty.refl p
  | tail _ move ih => exact ih.trans move.sameDirty

/-- A lock to change a page is not made less by a request. -/
theorem exclusive_tryGrant {t : LockTable} (h : t.WellKept) {u : TxId} {other : PageId} (tx : TxId)
    (id : PageId) (mode : LockMode) (hx : t.mode? u other = some .exclusive) :
    (t.tryGrant tx id mode).2.mode? u other = some .exclusive := by
  obtain ⟨-, hafter, -⟩ := LockTable.tryGrant_spec h ⟨tx, id, mode⟩
  rw [hafter]
  split
  · simp only [LockTable.Modes.grant, LockTable.Modes.set]
    split
    · rename_i heq
      rw [← heq.1, ← heq.2, hx]
      rfl
    · exact hx
  · exact hx

/-- Moves that touch no changed page, and give no lock back that was held at the start, leave all
changed pages locked. -/
theorem Quiets.guarded {tx : TxId} {p q : Pool} (h : Quiets p.locks tx p q) (hp : Guarded p) :
    Guarded q := by
  induction h with
  | refl => exact hp
  | @tail m q moves move ih =>
    have hkeyed : Keyed q := Quiets.keyed (moves.tail move) hp.keyed
    have hsame : SameDirty m q := move.sameDirty
    -- A changed page was changed before the move, so only the locks have to be looked at.
    have howned : ∀ id page u, q.page? id = some page → page.dirtiedBy = some u →
        m.locks.mode? u id = some .exclusive := by
      intro id page u hpage hdirty
      exact ih.owned id page u ((hsame id page u hdirty).mpr hpage) hdirty
    cases move with
    | look move =>
      cases move with
      | lock id mode =>
        refine ⟨hkeyed, (LockTable.tryGrant_spec ih.locks ⟨tx, id, mode⟩).2.2, ?_⟩
        intro other page u hpage hdirty
        exact exclusive_tryGrant ih.locks tx id mode (howned other page u hpage hdirty)
      | use => exact ⟨hkeyed, ih.locks, howned⟩
      | drop => exact ⟨hkeyed, ih.locks, howned⟩
      | load => exact ⟨hkeyed, ih.locks, howned⟩
    | giveBack id fresh =>
      refine ⟨hkeyed, LockTable.wellKept_release ih.locks tx id, ?_⟩
      intro other page u hpage hdirty
      rw [locks_withLocks, LockTable.mode?_release, LockTable.Modes.set]
      split
      · -- The page would have been changed, and so locked, at the start.
        rename_i heq
        obtain ⟨rfl, rfl⟩ := heq
        have hstart := (Quiets.sameDirty moves other page u hdirty).mpr hpage
        have := hp.owned other page u hstart hdirty
        rw [fresh] at this
        cases this
      · exact howned other page u hpage hdirty
    | grow => exact ⟨hkeyed, ih.locks, howned⟩

theorem Looks.guarded {tx : TxId} {p q : Pool} (h : Looks tx p q) (hp : Guarded p) : Guarded q :=
  Quiets.guarded (Quiets.of_looks h) hp

theorem Looks.sameDirty {tx : TxId} {p q : Pool} (h : Looks tx p q) : SameDirty p q :=
  Quiets.sameDirty (Quiets.of_looks h : Quiets p.locks tx p q)

/-! ## Changes -/

/-- The page that was changed, and all others as they were. -/
theorem Sets.page? {tx : TxId} {place : RecordId} {old new : Option (List Field)} {page : Page}
    {m q : Pool} (h : Sets tx place old new page m q) (id : PageId) :
    q.page? id = if place.page = id then some ((page.withSlot place.slot new).mark (some tx))
      else m.page? id := by
  rw [h.result, page?_withUse, changed, page?_withPage]
  split
  · rename_i heq
    rw [← heq, h.there]
    rfl
  · rfl

theorem Sets.locks {tx : TxId} {place : RecordId} {old new : Option (List Field)} {page : Page}
    {m q : Pool} (h : Sets tx place old new page m q) : q.locks = m.locks := by
  rw [h.result]
  rfl

theorem Sets.storage {tx : TxId} {place : RecordId} {old new : Option (List Field)} {page : Page}
    {m q : Pool} (h : Sets tx place old new page m q) : q.storage = m.storage := by
  rw [h.result]
  rfl

/-- Nobody else can have changed the page before. -/
theorem Sets.mark_eq {tx u : TxId} {place : RecordId} {old new : Option (List Field)} {page : Page}
    {m q : Pool} (h : Sets tx place old new page m q) (hm : Guarded m)
    (hdirty : page.dirtiedBy = some u) : u = tx :=
  LockTable.same_of_exclusive h.locked (hm.owned _ page u h.there hdirty)

theorem Sets.keyed {tx : TxId} {place : RecordId} {old new : Option (List Field)} {page : Page}
    {m q : Pool} (h : Sets tx place old new page m q) (hm : Keyed m) : Keyed q := by
  intro id page' hpage
  rw [h.page?] at hpage
  split at hpage
  · rename_i heq
    cases hpage
    have hid : page.id = place.page := hm _ _ h.there
    exact heq ▸ hid
  · exact hm id page' hpage

theorem Sets.guarded {tx : TxId} {place : RecordId} {old new : Option (List Field)} {page : Page}
    {m q : Pool} (h : Sets tx place old new page m q) (hm : Guarded m) : Guarded q := by
  refine ⟨h.keyed hm.keyed, h.locks ▸ hm.locks, ?_⟩
  intro id page' u hpage hdirty
  rw [h.page?] at hpage
  rw [h.locks]
  split at hpage
  · rename_i heq
    cases hpage
    cases hdirty
    exact heq ▸ h.locked
  · exact hm.owned id page' u hpage hdirty

/-! ## Writing and going back -/

/-- Pages get clean where they stand, if they change at all, and the locks stay. -/
structure Settles (p q : Pool) : Prop where
  locks : q.locks = p.locks
  pages : ∀ id, q.page? id = p.page? id ∨
    ∃ page, q.page? id = some page ∧ page.dirtiedBy = none ∧ page.id = id

theorem Settles.refl (p : Pool) : Settles p p := ⟨rfl, fun _ => .inl rfl⟩

theorem Settles.trans {p m q : Pool} (h : Settles p m) (h' : Settles m q) : Settles p q := by
  refine ⟨h'.locks.trans h.locks, ?_⟩
  intro id
  rcases h'.pages id with hsame | hclean
  · rw [hsame]
    exact h.pages id
  · exact .inr hclean

/-- A page that is still changed was not touched. -/
theorem Settles.dirty {p q : Pool} (h : Settles p q) {id : PageId} {page : Page} {tx : TxId}
    (hpage : q.page? id = some page) (hdirty : page.dirtiedBy = some tx) :
    p.page? id = some page := by
  rcases h.pages id with hsame | ⟨page', hpage', hclean, -⟩
  · exact hsame ▸ hpage
  · rw [hpage, Option.some.injEq] at hpage'
    rw [hpage', hclean] at hdirty
    cases hdirty

theorem Settles.keyed {p q : Pool} (h : Settles p q) (hp : Keyed p) : Keyed q := by
  intro id page hpage
  rcases h.pages id with hsame | ⟨page', hpage', -, hid⟩
  · exact hp id page (hsame ▸ hpage)
  · rw [hpage, Option.some.injEq] at hpage'
    exact hpage' ▸ hid

theorem Settles.guarded {p q : Pool} (h : Settles p q) (hp : Guarded p) : Guarded q := by
  refine ⟨h.keyed hp.keyed, h.locks ▸ hp.locks, ?_⟩
  intro id page tx hpage hdirty
  rw [h.locks]
  exact hp.owned id page tx (h.dirty hpage hdirty) hdirty

/-- One page gets clean. -/
theorem settles_withPage {p : Pool} {id : PageId} {page clean : Page} (hpage : p.page? id = some page)
    (hclean : clean.dirtiedBy = none) (hid : clean.id = id) :
    Settles p (p.withPage id fun _ => clean) ∧
      (p.withPage id fun _ => clean).page? id = some clean := by
  have hthere : (p.withPage id fun _ => clean).page? id = some clean := by
    rw [page?_withPage, if_pos rfl, hpage]
    rfl
  refine ⟨⟨rfl, ?_⟩, hthere⟩
  intro other
  by_cases heq : id = other
  · subst heq
    exact .inr ⟨clean, hthere, hclean, hid⟩
  · left
    rw [page?_withPage, if_neg heq]

/-- A page that a transaction changed is not in memory. -/
def Unmarked (tx : TxId) (id : PageId) (p : Pool) : Prop :=
  ∀ page, p.page? id = some page → page.dirtiedBy ≠ some tx

theorem Settles.unmarked {p q : Pool} (h : Settles p q) {tx : TxId} {id : PageId}
    (hp : Unmarked tx id p) : Unmarked tx id q :=
  fun page hpage hdirty => hp page (h.dirty hpage hdirty) hdirty

theorem unmarked_of_absent {p : Pool} {tx : TxId} {id : PageId} (h : p.page? id = none) :
    Unmarked tx id p := by
  intro page hpage
  rw [h] at hpage
  cases hpage

theorem unmarked_of_page {p : Pool} {tx : TxId} {id : PageId} {page : Page}
    (h : p.page? id = some page) (hother : page.dirtiedBy ≠ some tx) : Unmarked tx id p := by
  intro page' hpage
  rw [h, Option.some.injEq] at hpage
  exact hpage ▸ hother

theorem writePage_ends (page : Page) (p : Pool) :
    (onStorage (Storage.writePage page)).Ends p fun _ q =>
      q.locks = p.locks ∧ q.frames = p.frames :=
  ⟨rfl, rfl⟩

theorem writeBack_ends (tx : TxId) (id : PageId) {p : Pool} (hp : Keyed p) :
    (writeBack id).Ends p fun r q => Settles p q ∧ (r = .ok () → Unmarked tx id q) := by
  unfold writeBack
  refine Step.Ends.of_ok (Step.state_run p) ?_
  split
  · rename_i hnone
    exact ⟨.refl p, fun _ => unmarked_of_absent hnone⟩
  · rename_i page hpage
    split
    · rename_i hclean
      refine ⟨.refl p, fun _ => unmarked_of_page hpage ?_⟩
      simp [Option.isNone_iff_eq_none.mp hclean]
    · -- Whatever becomes of the file, the pages in memory and the locks are as before.
      have hfile : ∀ q : Pool, q.locks = p.locks ∧ q.frames = p.frames →
          Settles p q ∧ q.page? id = some page := by
        rintro q ⟨hlocks, hframes⟩
        have hsame : ∀ other, q.page? other = p.page? other := by
          intro other
          unfold page?
          rw [hframes]
        exact ⟨⟨hlocks, fun other => .inl (hsame other)⟩, (hsame id).trans hpage⟩
      refine Step.Ends.bind (writePage_ends page p) ?_
        (fun e q h => ⟨(hfile q h).1, fun h => by cases h⟩)
      rintro ⟨⟩ q hq
      obtain ⟨hq, hthere⟩ := hfile q hq
      refine Step.Ends.ofExcept ?_ (fun _ _ => ⟨hq, fun h => by cases h⟩)
      intro clean hset
      obtain ⟨bs, -, rfl⟩ := Page.setBefore_spec hset
      have hid : ({ page.mark none with beforeImage := bs } : Page).id = id := hp id page hpage
      obtain ⟨hsettles, hnow⟩ := settles_withPage hthere rfl hid
      refine ⟨hq.trans hsettles, fun _ => unmarked_of_page hnow ?_⟩
      intro h
      cases h

theorem revertPage_ends (tx : TxId) (id : PageId) (p : Pool) :
    (revertPage tx id).Ends p fun r q => Settles p q ∧ (r = .ok () → Unmarked tx id q) := by
  unfold revertPage
  refine Step.Ends.of_ok (Step.state_run p) ?_
  split
  · rename_i hnone
    exact ⟨.refl p, fun _ => unmarked_of_absent hnone⟩
  · rename_i page hpage
    split
    · rename_i hother
      exact ⟨.refl p, fun _ => unmarked_of_page hpage hother⟩
    · refine Step.Ends.ofExcept ?_ (fun _ _ => ⟨.refl p, fun h => by cases h⟩)
      intro stored hstored
      have hclean := Storage.clean_of_readPage hstored
      obtain ⟨hsettles, hnow⟩ := settles_withPage hpage hclean (Storage.id_of_readPage hstored)
      refine ⟨hsettles, fun _ => unmarked_of_page hnow ?_⟩
      simp [hclean]

/-- Pages that are visited one after the other are all settled, if no visit fails. -/
theorem each_ends {visitOne : PageId → Step Pool Unit} {tx : TxId}
    (hone : ∀ id p, Keyed p →
      (visitOne id).Ends p fun r q => Settles p q ∧ (r = .ok () → Unmarked tx id q))
    (visit : List PageId) {p : Pool} (hp : Keyed p) :
    (Step.each visitOne visit).Ends p fun r q =>
      Settles p q ∧ (r.isOk → ∀ id ∈ visit, Unmarked tx id q) := by
  induction visit generalizing p with
  | nil => exact ⟨.refl p, fun _ id hid => absurd hid List.not_mem_nil⟩
  | cons id rest ih =>
    refine Step.Ends.bind (hone id p hp) ?_ (fun e q h => ⟨h.1, fun he => by cases he⟩)
    rintro ⟨⟩ q ⟨hsettles, hdone⟩
    refine Step.Ends.bind (ih (hsettles.keyed hp)) ?_
      (fun e q' h => ⟨hsettles.trans h.1, fun he => by cases he⟩)
    rintro rs q' ⟨hsettles', hrest⟩
    refine ⟨hsettles.trans hsettles', fun _ other hother => ?_⟩
    rcases List.mem_cons.mp hother with rfl | hmem
    · exact hsettles'.unmarked (hdone rfl)
    · exact hrest rfl other hmem

theorem mem_dirtiedBy {p : Pool} {tx : TxId} {id : PageId} :
    id ∈ p.dirtiedBy tx ↔ ∃ page, p.page? id = some page ∧ page.dirtiedBy = some tx := by
  unfold dirtiedBy page?
  simp only [List.mem_map, List.mem_filter, decide_eq_true_eq, Option.map_eq_some_iff]
  constructor
  · rintro ⟨⟨id', frame⟩, ⟨hmem, hdirty⟩, rfl⟩
    exact ⟨frame.page, ⟨frame, Assoc.mem_entries.mp hmem, rfl⟩, hdirty⟩
  · rintro ⟨page, ⟨frame, hframe, rfl⟩, hdirty⟩
    exact ⟨(id, frame), ⟨Assoc.mem_entries.mpr hframe, hdirty⟩, rfl⟩

theorem writeEach_ends (tx : TxId) (visit : List PageId) {p : Pool} (hp : Keyed p) :
    (writeEach visit).Ends p fun r q =>
      Settles p q ∧ (r = .ok () → ∀ id ∈ visit, Unmarked tx id q) := by
  unfold writeEach
  refine Step.Ends.bind (each_ends (fun id p hp => writeBack_ends tx id hp) visit hp) ?_
    (fun e q h => ⟨h.1, fun he => by cases he⟩)
  rintro _ q ⟨hsettles, hdone⟩
  exact ⟨hsettles, fun _ => hdone rfl⟩

theorem revertEach_ends (tx : TxId) (visit : List PageId) {p : Pool} (hp : Keyed p) :
    (revertEach tx visit).Ends p fun r q =>
      Settles p q ∧ (r = .ok () → ∀ id ∈ visit, Unmarked tx id q) := by
  unfold revertEach
  refine Step.Ends.bind (each_ends (fun id p _ => revertPage_ends tx id p) visit hp) ?_
    (fun e q h => ⟨h.1, fun he => by cases he⟩)
  rintro _ q ⟨hsettles, hdone⟩
  exact ⟨hsettles, fun _ => hdone rfl⟩

theorem flush_ends (tx : TxId) {p : Pool} (hp : Keyed p) :
    (flush tx).Ends p fun _ q => Settles p q :=
  (writeEach_ends tx (p.dirtiedBy tx) hp).mono fun _ _ h => h.1

theorem flushAll_ends {p : Pool} (hp : Keyed p) : flushAll.Ends p fun _ q => Settles p q :=
  (writeEach_ends 0 p.frames.keys hp).mono fun _ _ h => h.1

/-! ## The end of a transaction -/

/-- Pages settle, and then the locks of one transaction go. -/
structure Completes (tx : TxId) (p m q : Pool) : Prop where
  settles : Settles p m
  result : q = m.withLocks (m.locks.releaseAll tx).2

theorem complete_ends (tx : TxId) (outcome : Outcome) {p : Pool} (hp : Keyed p) :
    (complete tx outcome).Ends p fun r q => ∃ m, Completes tx p m q ∧
      (r = .ok () → ∀ id, Unmarked tx id m) := by
  have hend : ∀ r m, (Settles p m ∧ (r = .ok () → ∀ id ∈ p.dirtiedBy tx, Unmarked tx id m)) →
      Step.Ends (do releaseAll tx; Step.ofExcept r) m fun r q => ∃ m, Completes tx p m q ∧
        (r = .ok () → ∀ id, Unmarked tx id m) := by
    rintro r m ⟨hsettles, hdone⟩
    refine ⟨m, ⟨hsettles, rfl⟩, fun hr id page hpage hdirty => ?_⟩
    -- A page that still has the mark had it at the start, and so was visited.
    have hvisit : id ∈ p.dirtiedBy tx :=
      mem_dirtiedBy.mpr ⟨page, hsettles.dirty hpage hdirty, hdirty⟩
    exact hdone hr id hvisit page hpage hdirty
  unfold complete
  refine Step.Ends.of_ok (Step.state_run p) ?_
  unfold completeVisiting
  cases outcome with
  | commit =>
    exact Step.Ends.bind_attempt (writeEach_ends tx (p.dirtiedBy tx) hp) hend
  | abort =>
    exact Step.Ends.bind_attempt (revertEach_ends tx (p.dirtiedBy tx) hp) hend

/-- The locks of a transaction may go once no page has its mark. -/
theorem Completes.guarded {tx : TxId} {p m q : Pool} (h : Completes tx p m q) (hp : Guarded p)
    (hdone : ∀ id, Unmarked tx id m) : Guarded q := by
  have hm := h.settles.guarded hp
  rw [h.result]
  refine ⟨hm.keyed, LockTable.wellKept_releaseAll hm.locks tx, ?_⟩
  intro id page u hpage hdirty
  rw [locks_withLocks, LockTable.mode?_releaseAll hm.locks, LockTable.Modes.clear]
  split
  · rename_i heq
    exact absurd (heq ▸ hdirty) (hdone id page hpage)
  · exact hm.owned id page u hpage hdirty

/-- A transaction that ends with success leaves all pages guarded. -/
theorem guarded_of_complete {tx : TxId} {outcome : Outcome} {p : Pool} (hp : Guarded p)
    (hok : (complete tx outcome p).1 = .ok ()) : Guarded (complete tx outcome p).2 := by
  obtain ⟨m, hcompletes, hdone⟩ := complete_ends tx outcome hp.keyed
  exact hcompletes.guarded hp (hdone hok)

end PageStore.Pool
