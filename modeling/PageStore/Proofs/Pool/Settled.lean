-- What writing changed pages, and going back on them, comes to. Over files that the
-- pages in memory are copies of neither can fail, so it can be said exactly which
-- pages and which files there are afterwards.
import Mathlib.Data.List.Basic
import PageStore.Proofs.Pool.Faithful

namespace PageStore

/-- The page after it was written: clean, with its own bytes as its before image. -/
def Page.written (page : Page) : Page :=
  match page.data with
  | .ok bs => { page with dirtiedBy := none, beforeImage := bs }
  | .error _ => page

/-- Only a changed page is written. -/
def Page.settled (page : Page) : Page := if page.dirtiedBy.isNone then page else page.written

namespace Pool

/-- The files after a page was written into the file of its table. -/
def putPage (c : Catalog) (d : Disk) (page : Page) : Disk :=
  match c.tableFile? page.id.table, page.data with
  | some file, .ok bs => file.placed page.id.number bs d
  | _, _ => d

/-- A page in memory that somebody changed. -/
def dirty? (p : Pool) (id : PageId) : Option Page := (p.page? id).filter fun page => page.dirtiedBy.isSome

theorem dirty?_eq_some {p : Pool} {id : PageId} {page : Page} :
    p.dirty? id = some page ↔ p.page? id = some page ∧ page.dirtiedBy ≠ none := by
  unfold dirty?
  rw [Option.filter_eq_some_iff, Option.isSome_iff_ne_none]

theorem dirty?_eq_some_of_mark {p : Pool} {id : PageId} {page : Page} {tx : TxId}
    (h : page.dirtiedBy = some tx) : p.dirty? id = some page ↔ p.page? id = some page := by
  rw [dirty?_eq_some, h]
  simp

theorem dirty?_eq_none {p : Pool} {id : PageId} :
    p.dirty? id = none ↔ ∀ page, p.page? id = some page → page.dirtiedBy = none := by
  constructor
  · intro h page hpage
    refine Classical.not_not.mp fun hdirty => ?_
    rw [dirty?_eq_some.mpr ⟨hpage, hdirty⟩] at h
    cases h
  · intro h
    cases hd : p.dirty? id with
    | none => rfl
    | some page =>
      obtain ⟨hpage, hdirty⟩ := dirty?_eq_some.mp hd
      exact absurd (h page hpage) hdirty

theorem SameDirty.dirty?_eq {p q : Pool} (h : SameDirty p q) (id : PageId) : p.dirty? id = q.dirty? id := by
  apply Option.ext
  intro page
  rw [dirty?_eq_some, dirty?_eq_some]
  refine and_congr_left fun hdirty => ?_
  obtain ⟨tx, htx⟩ := Option.ne_none_iff_exists'.mp hdirty
  exact h id page tx htx

/-- What each single visit to a page does, a list of visits does to its pages, if no page is visited
twice. -/
theorem each_run {one : PageId → Step Pool Unit} {W : List PageId → Pool → Pool → Prop}
    (hnil : ∀ p, Faithful p → W [] p p)
    (hone : ∀ id p, Faithful p → ∃ q, one id p = (.ok (), q) ∧ W [id] p q)
    (hcons : ∀ {id rest p m q}, W [id] p m → W rest m q → id ∉ rest → W (id :: rest) p q)
    (hfaithful : ∀ {visit p q}, W visit p q → Faithful q) {visit : List PageId} (nodup : visit.Nodup)
    {p : Pool} (hp : Faithful p) :
    ∃ answers q, Step.each one visit p = (.ok answers, q) ∧ W visit p q := by
  induction visit generalizing p with
  | nil => exact ⟨[], p, rfl, hnil p hp⟩
  | cons id rest ih =>
    obtain ⟨hid, hnodup⟩ := List.nodup_cons.mp nodup
    obtain ⟨m, hrun, hm⟩ := hone id p hp
    obtain ⟨answers, q, hrest, hq⟩ := ih hnodup (hfaithful hm)
    refine ⟨() :: answers, q, ?_, hcons hm hq hid⟩
    change (one id >>= fun b => Step.each one rest >>= fun bs => pure (b :: bs)) p = _
    rw [Step.bind_of_ok hrun, Step.bind_of_ok hrest]
    rfl

/-! ## Writing -/

/-- The pages of a list were written, each once: what was changed among them is clean and in its file,
and no other page is touched, in memory or in a file. -/
structure Written (visit : List PageId) (p q : Pool) : Prop where
  faithful : Faithful q
  locks : q.locks = p.locks
  storage : q.storage =
    { p.storage with disk := (visit.filterMap p.dirty?).foldl (putPage p.catalog) p.disk }
  pages : ∀ id, q.page? id = if id ∈ visit then (p.page? id).map Page.settled else p.page? id
  others : ∀ id, (id ∈ visit → p.dirty? id = none) → q.storage.readPage id = p.storage.readPage id
  bytes : ∀ id, (id ∈ visit → p.dirty? id = none) → q.storage.bytesAt? id = p.storage.bytesAt? id
  lengths : ∀ table file, p.catalog.tableFile? table = some file →
    (file.content q.disk).length = (file.content p.disk).length

theorem Written.catalog {visit : List PageId} {p q : Pool} (h : Written visit p q) :
    q.catalog = p.catalog := by
  unfold Pool.catalog
  rw [h.storage]

theorem Written.disk {visit : List PageId} {p q : Pool} (h : Written visit p q) :
    q.disk = (visit.filterMap p.dirty?).foldl (putPage p.catalog) p.disk := by
  unfold Pool.disk
  rw [h.storage]
  rfl

theorem Written.nil {p : Pool} (hp : Faithful p) : Written [] p p :=
  ⟨hp, rfl, rfl, fun _ => rfl, fun _ _ => rfl, fun _ _ => rfl, fun _ _ _ => rfl⟩

/-- A visit to a page that nobody changed does nothing. -/
theorem Written.of_clean {p : Pool} (hp : Faithful p) {id : PageId} (h : p.dirty? id = none) :
    Written [id] p p := by
  refine ⟨hp, rfl, ?_, ?_, fun _ _ => rfl, fun _ _ => rfl, fun _ _ _ => rfl⟩
  · simp only [List.filterMap_cons, h, List.filterMap_nil, List.foldl_nil]
    rfl
  · intro other
    split
    · rename_i hmem
      rw [List.mem_singleton.mp hmem]
      cases hpage : p.page? id with
      | none => rfl
      | some page => simp [Page.settled, dirty?_eq_none.mp h page hpage]
    · rfl

section OneWrite

variable {p : Pool} {id : PageId} {page : Page} {file : TableFile} {bs : Bytes}

theorem Writes.putPage (h : Writes p id page file bs) (d : Disk) :
    putPage p.catalog d page = file.placed id.number bs d := by
  rw [Pool.putPage, h.number, h.known, h.bytes]

theorem isNone_of_dirty (hdirty : page.dirtiedBy ≠ none) : page.dirtiedBy.isNone = false := by
  cases hd : page.dirtiedBy with
  | none => exact absurd hd hdirty
  | some tx => rfl

theorem Writes.settled (h : Writes p id page file bs) (hdirty : page.dirtiedBy ≠ none) :
    page.settled = { page with dirtiedBy := none, beforeImage := bs } := by
  rw [Page.settled, isNone_of_dirty hdirty, Page.written, h.bytes]
  rfl

/-- The pool after a changed page was written. -/
def afterWrite (p : Pool) (id : PageId) (page : Page) : Pool :=
  (p.withDisk (Pool.putPage p.catalog p.disk page)).withPage id fun _ => page.settled

theorem page?_afterWrite (hpage : p.page? id = some page) (other : PageId) :
    (p.afterWrite id page).page? other = if other = id then some page.settled else p.page? other := by
  rw [afterWrite, page?_withPage, page?_withDisk]
  by_cases heq : other = id
  · rw [if_pos heq.symm, if_pos heq, heq, hpage]
    rfl
  · rw [if_neg (fun h => heq h.symm), if_neg heq]

theorem writeBack_run (hp : Faithful p) (h : Writes p id page file bs)
    (hpage : p.page? id = some page) (hdirty : page.dirtiedBy ≠ none) :
    writeBack id p = (.ok (), p.afterWrite id page) := by
  have hwrite : onStorage (Storage.writePage page) p =
      (.ok (), p.withDisk (Pool.putPage p.catalog p.disk page)) := by
    rw [h.putPage, ← h.number]
    exact Step.focus_run (Storage.writePage_run hp.own (h.number.symm ▸ h.known) h.bytes h.length)
  have hset : (page.mark none).setBefore = .ok page.settled := by
    have hdata : (page.mark none).data = .ok bs := h.bytes
    rw [Page.setBefore, hdata, h.settled hdirty]
    rfl
  unfold writeBack
  rw [Step.bind_of_ok (Step.state_run p), hpage]
  simp only [isNone_of_dirty hdirty, Bool.false_eq_true, if_false]
  rw [Step.bind_of_ok hwrite, hset]
  rfl

theorem storage_afterWrite (h : Writes p id page file bs) :
    (p.afterWrite id page).storage = p.storage.placed file id.number bs := by
  rw [afterWrite, storage_withPage, storage_withDisk, h.putPage]
  rfl

/-- The page that was written is the one in its file now, and no other page is another one. -/
theorem readPage_afterWrite (hp : Faithful p) (h : Writes p id page file bs)
    (hdirty : page.dirtiedBy ≠ none) (other : PageId) :
    (p.afterWrite id page).storage.readPage other =
      if other = id then .ok page.settled else p.storage.readPage other := by
  rw [storage_afterWrite h,
    Storage.readPage_placed hp.own h.known (Storage.room_of_in_file h.room) h.length]
  split
  · rename_i heq
    rw [heq, h.decoded, h.settled hdirty]
  · rfl

theorem bytesAt?_afterWrite (hp : Faithful p) (h : Writes p id page file bs) (other : PageId) :
    (p.afterWrite id page).storage.bytesAt? other =
      if other = id then some bs else p.storage.bytesAt? other := by
  rw [storage_afterWrite h]
  exact Storage.bytesAt?_placed hp.own h.known (Storage.room_of_in_file h.room) h.length other

theorem faithful_afterWrite (hp : Faithful p) (h : Writes p id page file bs)
    (hpage : p.page? id = some page) (hdirty : page.dirtiedBy ≠ none) :
    Faithful (p.afterWrite id page) := by
  have own : (p.afterWrite id page).storage.OwnFiles := by
    rw [storage_afterWrite h]
    exact hp.own.placed file id.number bs
  refine hp.of_pages own fun other page' hother => ?_
  rw [readPage_afterWrite hp h hdirty]
  rw [page?_afterWrite hpage] at hother
  split at hother
  · rename_i heq
    right
    rw [if_pos heq, ← Option.some.inj hother]
    have hsound : page.settled.Sound := by
      rw [h.settled hdirty]
      exact (Page.read_of_ofBytes h.decoded).sound
    exact ⟨page.settled, rfl, rfl, hsound, fun _ => rfl⟩
  · rename_i hne
    left
    rw [if_neg hne]
    exact ⟨hother, fun _ h => h⟩

/-- No file gets longer. -/
theorem length_afterWrite (hp : Faithful p) (h : Writes p id page file bs) {table : TableId}
    {other : TableFile} (known : p.catalog.tableFile? table = some other) :
    (other.content (p.afterWrite id page).disk).length = (other.content p.disk).length := by
  have hdisk : (p.afterWrite id page).disk = (p.storage.placed file id.number bs).disk :=
    congrArg Storage.disk (storage_afterWrite h)
  rw [hdisk, Storage.content_placed hp.own h.known known]
  split
  · rename_i heq
    obtain rfl : file = other := by
      have := h.known
      rw [heq, known] at this
      exact (Option.some.inj this).symm
    rw [PageFile.length_overwrite, h.length]
    exact Nat.max_eq_left h.room
  · rfl

/-- A visit to a changed page writes it. -/
theorem Written.of_dirty (hp : Faithful p) (h : Writes p id page file bs)
    (hpage : p.page? id = some page) (hdirty : page.dirtiedBy ≠ none) :
    Written [id] p (p.afterWrite id page) := by
  have hother : ∀ other, (other ∈ [id] → p.dirty? other = none) → other ≠ id := by
    rintro other hother rfl
    rw [dirty?_eq_none.mp (hother (List.mem_singleton.mpr rfl)) page hpage] at hdirty
    exact hdirty rfl
  refine ⟨faithful_afterWrite hp h hpage hdirty, rfl, ?_, ?_, ?_, ?_,
    fun table other known => length_afterWrite hp h known⟩
  · rw [afterWrite, storage_withPage, storage_withDisk]
    simp only [List.filterMap_cons, dirty?_eq_some.mpr ⟨hpage, hdirty⟩, List.filterMap_nil,
      List.foldl_cons, List.foldl_nil]
  · intro other
    rw [page?_afterWrite hpage]
    simp only [List.mem_singleton]
    split
    · rename_i heq
      rw [heq, hpage]
      rfl
    · rfl
  · intro other hclean
    rw [readPage_afterWrite hp h hdirty, if_neg (hother other hclean)]
  · intro other hclean
    rw [bytesAt?_afterWrite hp h, if_neg (hother other hclean)]

end OneWrite

/-- One visit never fails. -/
theorem writeBack_written {p : Pool} (hp : Faithful p) (id : PageId) :
    ∃ q, writeBack id p = (.ok (), q) ∧ Written [id] p q := by
  cases hd : p.dirty? id with
  | none =>
    refine ⟨p, ?_, Written.of_clean hp hd⟩
    unfold writeBack
    rw [Step.bind_of_ok (Step.state_run p)]
    cases hpage : p.page? id with
    | none => rfl
    | some page =>
      simp only [dirty?_eq_none.mp hd page hpage, Option.isNone_none, if_true]
      rfl
  | some page =>
    obtain ⟨hpage, hdirty⟩ := dirty?_eq_some.mp hd
    obtain ⟨file, bs, h⟩ := hp.writes hpage
    exact ⟨_, writeBack_run hp h hpage hdirty, Written.of_dirty hp h hpage hdirty⟩

theorem Written.cons {id : PageId} {rest : List PageId} {p m q : Pool} (h : Written [id] p m)
    (h' : Written rest m q) (hid : id ∉ rest) : Written (id :: rest) p q := by
  have hrest : ∀ other, other ≠ id → m.page? other = p.page? other := by
    intro other hne
    rw [h.pages, if_neg (by simpa using hne)]
  have hdirty : ∀ other, other ≠ id → m.dirty? other = p.dirty? other := by
    intro other hne
    unfold dirty?
    rw [hrest other hne]
  have hne : ∀ other ∈ rest, other ≠ id := fun other hmem heq => hid (heq ▸ hmem)
  -- A page that is clean, or is not visited, is so for both lists.
  have hsplit : ∀ other, (other ∈ id :: rest → p.dirty? other = none) →
      (other ∈ [id] → p.dirty? other = none) ∧ (other ∈ rest → m.dirty? other = none) := by
    intro other hother
    refine ⟨fun hmem => hother (List.mem_cons.mpr (.inl (List.mem_singleton.mp hmem))), fun hmem => ?_⟩
    rw [hdirty other (hne other hmem)]
    exact hother (List.mem_cons_of_mem _ hmem)
  refine ⟨h'.faithful, h'.locks.trans h.locks, ?_, ?_, ?_, ?_, ?_⟩
  · have hsame : rest.filterMap m.dirty? = rest.filterMap p.dirty? :=
      List.filterMap_congr fun other hmem => hdirty other (hne other hmem)
    rw [h'.storage, h.catalog, h.disk, hsame, ← List.foldl_append, ← List.filterMap_append, h.storage]
    rfl
  · intro other
    rw [h'.pages, h.pages]
    by_cases heq : other = id
    · simp [heq, hid]
    · simp [heq]
  · intro other hother
    obtain ⟨hfirst, hrest⟩ := hsplit other hother
    rw [h'.others other hrest, h.others other hfirst]
  · intro other hother
    obtain ⟨hfirst, hrest⟩ := hsplit other hother
    rw [h'.bytes other hrest, h.bytes other hfirst]
  · intro table file known
    rw [h'.lengths table file (h.catalog ▸ known), h.lengths table file known]

/-- Pages of which each is visited once are written, and it never fails. -/
theorem writeEach_written {visit : List PageId} (nodup : visit.Nodup) {p : Pool} (hp : Faithful p) :
    ∃ q, writeEach visit p = (.ok (), q) ∧ Written visit p q := by
  obtain ⟨answers, q, hrun, hq⟩ := each_run (fun p hp => Written.nil hp)
    (fun id p hp => writeBack_written hp id) Written.cons Written.faithful nodup hp
  refine ⟨q, ?_, hq⟩
  unfold writeEach
  rw [Step.bind_of_ok hrun]
  rfl

@[simp] theorem fieldsAt_settled (page : Page) (slot : Nat) :
    page.settled.fieldsAt slot = page.fieldsAt slot := by
  unfold Page.settled Page.written
  split
  · rfl
  · split <;> rfl

/-- A page that was visited is clean, and is the one in its file. -/
theorem Written.visited {visit : List PageId} {p q : Pool} (h : Written visit p q) (hp : Faithful p)
    {id : PageId} {page : Page} (hid : id ∈ visit) (hpage : p.page? id = some page) :
    q.page? id = some page.settled ∧ page.settled.dirtiedBy = none ∧
      q.storage.readPage id = .ok page.settled := by
  have hthere : q.page? id = some page.settled := by
    rw [h.pages, if_pos hid, hpage]
    rfl
  have hclean : page.settled.dirtiedBy = none := by
    by_cases hd : page.dirtiedBy = none
    · rw [Page.settled, hd]
      exact hd
    · obtain ⟨file, bs, hw⟩ := hp.writes hpage
      rw [hw.settled hd]
  exact ⟨hthere, hclean, h.faithful.clean hthere hclean⟩

/-- A changed page is clean after it was visited; the others are as before. -/
theorem Written.dirty?_eq {visit : List PageId} {p q : Pool} (h : Written visit p q) (hp : Faithful p)
    (id : PageId) : q.dirty? id = if id ∈ visit then none else p.dirty? id := by
  split
  · rename_i hmem
    rw [dirty?_eq_none, h.pages, if_pos hmem]
    intro page hpage
    obtain ⟨before, hbefore, rfl⟩ := Option.map_eq_some_iff.mp hpage
    exact (h.visited hp hmem hbefore).2.1
  · rename_i hmem
    rw [dirty?, h.pages, if_neg hmem]
    rfl

/-- A page that was not visited is as before, in memory and in its file. -/
theorem Written.unvisited {visit : List PageId} {p q : Pool} (h : Written visit p q) {id : PageId}
    (hid : id ∉ visit) :
    q.page? id = p.page? id ∧ q.storage.readPage id = p.storage.readPage id :=
  ⟨by rw [h.pages, if_neg hid], h.others id fun hmem => absurd hmem hid⟩

/-! ## Going back -/

/-- The page to which a transaction that is given up goes back. -/
def restored (p : Pool) (tx : TxId) (id : PageId) (page : Page) : Page :=
  if page.dirtiedBy = some tx then (p.storage.readPage id).toOption.getD page else page

theorem restored_of_changed {p : Pool} (hp : Faithful p) {tx : TxId} {id : PageId} {page : Page}
    (hpage : p.page? id = some page) (h : page.dirtiedBy = some tx) :
    p.storage.readPage id = .ok (p.restored tx id page) := by
  obtain ⟨stored, hstored, -⟩ := hp.pages id page hpage
  rw [restored, if_pos h, hstored]
  rfl

/-- The pages of a list were visited, each once: what `tx` changed among them is again as its file holds
it. -/
structure Reverted (tx : TxId) (visit : List PageId) (p q : Pool) : Prop where
  faithful : Faithful q
  locks : q.locks = p.locks
  storage : q.storage = p.storage
  pages : ∀ id, q.page? id = if id ∈ visit then (p.page? id).map (p.restored tx id) else p.page? id

theorem Reverted.nil (tx : TxId) {p : Pool} (hp : Faithful p) : Reverted tx [] p p :=
  ⟨hp, rfl, rfl, fun _ => rfl⟩

theorem Reverted.of_other {tx : TxId} {p : Pool} (hp : Faithful p) {id : PageId}
    (h : ∀ page, p.page? id = some page → page.dirtiedBy ≠ some tx) : Reverted tx [id] p p := by
  refine ⟨hp, rfl, rfl, ?_⟩
  intro other
  split
  · rename_i hmem
    rw [List.mem_singleton.mp hmem]
    cases hpage : p.page? id with
    | none => rfl
    | some page => simp [restored, h page hpage]
  · rfl

theorem Reverted.of_changed {tx : TxId} {p : Pool} (hp : Faithful p) {id : PageId}
    {page stored : Page} (hpage : p.page? id = some page) (hdirty : page.dirtiedBy = some tx)
    (hstored : p.storage.readPage id = .ok stored) :
    Reverted tx [id] p (p.withPage id fun _ => stored) := by
  have hpages : ∀ other, (p.withPage id fun _ => stored).page? other =
      if other = id then some stored else p.page? other := by
    intro other
    rw [page?_withPage]
    by_cases heq : other = id
    · rw [if_pos heq.symm, if_pos heq, heq, hpage]
      rfl
    · rw [if_neg (fun h => heq h.symm), if_neg heq]
  refine ⟨?_, rfl, rfl, ?_⟩
  · refine hp.of_pages hp.own fun other page' hother => ?_
    rw [hpages] at hother
    split at hother
    · rename_i heq
      cases hother
      exact .inr ⟨stored, heq ▸ hstored, copy_of_readPage hstored⟩
    · exact .inl ⟨hother, fun _ h => h⟩
  · intro other
    rw [hpages]
    simp only [List.mem_singleton]
    split
    · rename_i heq
      rw [heq, hpage, Option.map_some, restored, if_pos hdirty, hstored]
      rfl
    · rfl

/-- One visit never fails. -/
theorem revertPage_reverted (tx : TxId) {p : Pool} (hp : Faithful p) (id : PageId) :
    ∃ q, revertPage tx id p = (.ok (), q) ∧ Reverted tx [id] p q := by
  unfold revertPage
  rw [Step.bind_of_ok (Step.state_run p)]
  cases hpage : p.page? id with
  | none =>
    refine ⟨p, rfl, Reverted.of_other hp ?_⟩
    intro page h
    rw [hpage] at h
    cases h
  | some page =>
    by_cases hdirty : page.dirtiedBy = some tx
    · obtain ⟨stored, hstored, -⟩ := hp.pages id page hpage
      refine ⟨_, ?_, Reverted.of_changed hp hpage hdirty hstored⟩
      simp only [hdirty, ne_eq, not_true_eq_false, if_false, hstored]
      rfl
    · refine ⟨p, ?_, Reverted.of_other hp ?_⟩
      · simp only [ne_eq, hdirty, not_false_eq_true, if_true]
        rfl
      · intro page' h
        rw [hpage, Option.some.injEq] at h
        exact h ▸ hdirty

theorem Reverted.cons {tx : TxId} {id : PageId} {rest : List PageId} {p m q : Pool}
    (h : Reverted tx [id] p m) (h' : Reverted tx rest m q) (hid : id ∉ rest) :
    Reverted tx (id :: rest) p q := by
  refine ⟨h'.faithful, h'.locks.trans h.locks, h'.storage.trans h.storage, ?_⟩
  have hrestored : m.restored tx = p.restored tx := by
    unfold restored
    rw [h.storage]
  intro other
  rw [h'.pages, h.pages, hrestored]
  by_cases heq : other = id
  · simp [heq, hid]
  · simp [heq]

/-- Pages of which each is visited once go back, and it never fails. -/
theorem revertEach_reverted (tx : TxId) {visit : List PageId} (nodup : visit.Nodup) {p : Pool}
    (hp : Faithful p) : ∃ q, revertEach tx visit p = (.ok (), q) ∧ Reverted tx visit p q := by
  obtain ⟨answers, q, hrun, hq⟩ := each_run (fun p hp => Reverted.nil tx hp)
    (fun id p hp => revertPage_reverted tx hp id) Reverted.cons Reverted.faithful nodup hp
  refine ⟨q, ?_, hq⟩
  unfold revertEach
  rw [Step.bind_of_ok hrun]
  rfl

/-- A page that `tx` changed is clean after it was visited; all changes of others are as before. -/
theorem Reverted.dirty?_eq {tx : TxId} {p q : Pool} (h : Reverted tx (p.dirtiedBy tx) p q)
    (hp : Faithful p) (id : PageId) :
    q.dirty? id = if id ∈ p.dirtiedBy tx then none else p.dirty? id := by
  split
  · rename_i hmem
    obtain ⟨page, hpage, hdirty⟩ := mem_dirtiedBy.mp hmem
    have hthere : q.page? id = some (p.restored tx id page) := by
      rw [h.pages, if_pos hmem, hpage]
      rfl
    rw [dirty?_eq_none, hthere]
    rintro page' ⟨⟩
    exact Storage.clean_of_readPage (restored_of_changed hp hpage hdirty)
  · rename_i hmem
    rw [dirty?, h.pages, if_neg hmem]
    rfl

/-! ## The end of a transaction -/

theorem nodup_dirtiedBy (p : Pool) (tx : TxId) : (p.dirtiedBy tx).Nodup :=
  p.frames.nodup.sublist (List.filter_sublist.map Prod.fst)

/-- Once the pages were visited the locks go. -/
theorem ended_run {visits : Step Pool Unit} {p m : Pool} (h : visits p = (.ok (), m)) (tx : TxId) :
    (do
      let result ← Step.attempt visits
      releaseAll tx
      Step.ofExcept result : Step Pool Unit) p = (.ok (), m.withLocks (m.locks.releaseAll tx).2) := by
  rw [Step.bind_of_ok (Step.attempt_run h)]
  rfl

theorem commit_run (tx : TxId) {p : Pool} (hp : Faithful p) :
    ∃ m, Written (p.dirtiedBy tx) p m ∧
      complete tx .commit p = (.ok (), m.withLocks (m.locks.releaseAll tx).2) := by
  obtain ⟨m, hrun, hm⟩ := writeEach_written (nodup_dirtiedBy p tx) hp
  exact ⟨m, hm, ended_run hrun tx⟩

theorem abort_run (tx : TxId) {p : Pool} (hp : Faithful p) :
    ∃ m, Reverted tx (p.dirtiedBy tx) p m ∧
      complete tx .abort p = (.ok (), m.withLocks (m.locks.releaseAll tx).2) := by
  obtain ⟨m, hrun, hm⟩ := revertEach_reverted tx (nodup_dirtiedBy p tx) hp
  exact ⟨m, hm, ended_run hrun tx⟩

theorem flush_run (tx : TxId) {p : Pool} (hp : Faithful p) :
    ∃ q, Written (p.dirtiedBy tx) p q ∧ flush tx p = (.ok (), q) := by
  obtain ⟨q, hrun, hq⟩ := writeEach_written (nodup_dirtiedBy p tx) hp
  exact ⟨q, hq, hrun⟩

theorem flushAll_run {p : Pool} (hp : Faithful p) :
    ∃ q, Written p.frames.keys p q ∧ flushAll p = (.ok (), q) := by
  obtain ⟨q, hrun, hq⟩ := writeEach_written p.frames.nodup hp
  exact ⟨q, hq, hrun⟩

end Pool

end PageStore
