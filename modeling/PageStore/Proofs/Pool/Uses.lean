-- In which order the pages in memory were used. A page is used when a transaction gets
-- it, and again when a change of it is noted. The recency of a pool is the history of
-- these uses, as far as it speaks of pages that are in memory: so the page that goes
-- when there is no room is the clean one whose last use is longest ago.
import PageStore.Proofs.Pool.Requests

namespace PageStore.Pool

/-! ## Getting a page -/

/-- The pool after a request for a lock. -/
def asked (p : Pool) (tx : TxId) (id : PageId) (mode : LockMode) : Pool :=
  p.withLocks (p.locks.tryGrant tx id mode).2

/-- Everything that can come of getting a page. -/
inductive Fetched (busy : List PageId) (tx : TxId) (id : PageId) (mode : LockMode) (p : Pool) :
    Except Error Page → Pool → Prop where
  | refused (denied : (p.locks.tryGrant tx id mode).1 = false) :
      Fetched busy tx id mode p (.error (.lockRefused tx id)) (p.asked tx id mode)
  | hit (page : Page) (granted : (p.locks.tryGrant tx id mode).1 = true)
      (there : p.page? id = some page) :
      Fetched busy tx id mode p (.ok page) ((p.asked tx id mode).withUse id)
  | unread (e : Error) (granted : (p.locks.tryGrant tx id mode).1 = true)
      (absent : p.page? id = none) (stored : p.storage.readPage id = .error e) :
      Fetched busy tx id mode p (.error e) (p.asked tx id mode)
  | loaded (page : Page) (granted : (p.locks.tryGrant tx id mode).1 = true)
      (absent : p.page? id = none) (stored : p.storage.readPage id = .ok page)
      (room : p.numCached < p.capacity) :
      Fetched busy tx id mode p (.ok page) (((p.asked tx id mode).withFrame id page).withUse id)
  | replaced (page : Page) (victim : PageId) (granted : (p.locks.tryGrant tx id mode).1 = true)
      (absent : p.page? id = none) (stored : p.storage.readPage id = .ok page)
      (full : p.capacity ≤ p.numCached) (oldest : p.recency.oldest? (p.mayGo busy) = some victim) :
      Fetched busy tx id mode p (.ok page)
        ((((p.asked tx id mode).without victim).withFrame id page).withUse id)
  | stuck (page : Page) (granted : (p.locks.tryGrant tx id mode).1 = true)
      (absent : p.page? id = none) (stored : p.storage.readPage id = .ok page)
      (full : p.capacity ≤ p.numCached) (none : p.recency.oldest? (p.mayGo busy) = none) :
      Fetched busy tx id mode p (.error (.poolFull p.capacity)) (p.asked tx id mode)

theorem evict_run (busy : List PageId) (p : Pool) :
    evict busy p = match p.recency.oldest? (p.mayGo busy) with
      | some victim => (.ok (), p.without victim)
      | none => (.error (.poolFull p.capacity), p) := by
  unfold evict Recency.evict
  cases p.recency.oldest? (p.mayGo busy) <;> rfl

theorem fetchBeside_fetched (busy : List PageId) (tx : TxId) (id : PageId) (mode : LockMode) (p : Pool) :
    (fetchBeside busy tx id mode).Ends p (Fetched busy tx id mode p) := by
  unfold fetchBeside
  cases hgrant : (p.locks.tryGrant tx id mode).1 with
  | false =>
    have hlock := lock_run tx id mode p
    rw [hgrant] at hlock
    exact Step.Ends.of_error hlock (.refused hgrant)
  | true =>
    have hlock := lock_run tx id mode p
    rw [hgrant] at hlock
    refine Step.Ends.of_ok hlock (Step.Ends.of_ok (Step.state_run _) ?_)
    split
    · rename_i page hpage
      exact .hit page hgrant hpage
    · rename_i habsent
      refine Step.Ends.ofExcept ?_ (fun e hread => .unread e hgrant habsent hread)
      intro page hread
      split
      · rename_i hfull
        have hevict := evict_run busy (p.asked tx id mode)
        cases holdest : p.recency.oldest? (p.mayGo busy) with
        | none =>
          rw [show (p.asked tx id mode).recency.oldest? ((p.asked tx id mode).mayGo busy) = none
            from holdest] at hevict
          exact Step.Ends.of_error hevict (.stuck page hgrant habsent hread hfull holdest)
        | some victim =>
          rw [show (p.asked tx id mode).recency.oldest? ((p.asked tx id mode).mayGo busy) = some victim
            from holdest] at hevict
          exact Step.Ends.of_ok hevict (.replaced page victim hgrant habsent hread hfull holdest)
      · rename_i hroom
        exact .loaded page hgrant habsent hread (Nat.lt_of_not_le hroom)

theorem fetched_of_run {busy : List PageId} {tx : TxId} {id : PageId} {mode : LockMode} {p q : Pool}
    {r : Except Error Page} (run : fetchBeside busy tx id mode p = (r, q)) :
    Fetched busy tx id mode p r q := by
  have hfetched := fetchBeside_fetched busy tx id mode p
  rwa [Step.Ends, run] at hfetched

/-! ## The history of uses -/

/-- At which of the uses a page was used last, counted from one; zero if it never was. -/
def lastUse (uses : List PageId) (id : PageId) : Nat := uses.length - uses.reverse.idxOf id

@[simp] theorem lastUse_concat (uses : List PageId) (used id : PageId) :
    lastUse (uses ++ [used]) id = if used = id then uses.length + 1 else lastUse uses id := by
  by_cases h : used = id
  · simp [lastUse, h]
  · have hbehind : (used :: uses.reverse).idxOf id = uses.reverse.idxOf id + 1 := by
      rw [List.idxOf_cons, beq_false_of_ne h]
      rfl
    rw [if_neg h, lastUse, lastUse, List.reverse_concat, hbehind, List.length_append]
    simp

/-- Two pages that were used have not been used last at the same time. -/
theorem eq_of_lastUse {uses : List PageId} {a b : PageId} (ha : a ∈ uses) (hb : b ∈ uses)
    (h : lastUse uses a = lastUse uses b) : a = b := by
  have hlt (x : PageId) (hx : x ∈ uses) : uses.reverse.idxOf x < uses.reverse.length :=
    List.idxOf_lt_length_iff.mpr (List.mem_reverse.mpr hx)
  have hlen : uses.reverse.length = uses.length := List.length_reverse
  have hsame : uses.reverse.idxOf a = uses.reverse.idxOf b := by
    have := hlt a ha
    have := hlt b hb
    unfold lastUse at h
    omega
  rw [← List.getElem_idxOf (hlt a ha), ← List.getElem_idxOf (hlt b hb)]
  simp only [hsame]

/-- How a pool came about, and which pages were used on the way, the last use at the end. -/
inductive Served (first : Pool) : List PageId → Pool → Prop where
  | start : Served first [] first
  | got {uses p q page} (h : Served first uses p) (busy : List PageId) (tx : TxId) (id : PageId)
      (mode : LockMode) (run : fetchBeside busy tx id mode p = (.ok page, q)) :
      Served first (uses ++ [id]) q
  | notGot {uses p q e} (h : Served first uses p) (busy : List PageId) (tx : TxId) (id : PageId)
      (mode : LockMode) (run : fetchBeside busy tx id mode p = (.error e, q)) : Served first uses q
  | noted {uses p} (h : Served first uses p) (tx : TxId) (id : PageId) (cached : (p.page? id).isSome) :
      Served first (uses ++ [id]) (noteChange tx id p).2
  | changed {uses p} (h : Served first uses p) (id : PageId) (f : Page → Page)
      (own : ∀ page, p.page? id = some page → (f page).id = id) : Served first uses (p.withPage id f)
  | dropped {uses p} (h : Served first uses p) (id : PageId) : Served first uses (Pool.discard id p).2
  | elsewhere {uses p} (h : Served first uses p) (storage : Storage) (locks : LockTable) :
      Served first uses { p with storage, locks }

/-! ## What the history says of the pool -/

/-- There is room for the pages in memory, each stands at its own place, and the recency tells of exactly
these pages when they were used last. -/
structure Tracked (uses : List PageId) (p : Pool) : Prop where
  room : p.numCached ≤ p.capacity
  keyed : Keyed p
  used : ∀ id, (p.page? id).isSome → id ∈ uses
  clock : p.recency.clock = uses.length
  stamps : ∀ id, p.recency.stamps.get? id = (p.page? id).map fun _ => lastUse uses id

section Moves

variable {uses : List PageId} {p : Pool}

theorem isSome_page? (p : Pool) (id : PageId) : (p.page? id).isSome = (p.frames.get? id).isSome := by
  rw [page?, Option.isSome_map]

theorem Tracked.withUse (h : Tracked uses p) {id : PageId} (cached : (p.page? id).isSome) :
    Tracked (uses ++ [id]) (p.withUse id) where
  room := h.room
  keyed := h.keyed
  used other hother := List.mem_append_left _ (h.used other hother)
  clock := by
    rw [List.length_append]
    exact congrArg (· + 1) h.clock
  stamps other := by
    change (p.recency.stamps.insert id (p.recency.clock + 1)).get? other = _
    rw [Assoc.get?_insert, page?_withUse, h.clock]
    simp only [lastUse_concat]
    by_cases heq : id = other
    · subst heq
      obtain ⟨page, hpage⟩ := Option.isSome_iff_exists.mp cached
      simp [hpage]
    · simp only [heq, if_false]
      exact h.stamps other

/-- A page that is read in is used at once. -/
theorem Tracked.withFrame (h : Tracked uses p) {id : PageId} {page : Page} (absent : p.page? id = none)
    (room : p.numCached < p.capacity) (own : page.id = id) :
    Tracked (uses ++ [id]) ((p.withFrame id page).withUse id) where
  room := by
    have hsize : (p.withFrame id page).numCached = p.numCached + 1 := by
      have habsent : (p.frames.get? id).isSome = false := by rw [← isSome_page?, absent]; rfl
      change (p.frames.insert id _).size = _
      rw [Assoc.size_insert, habsent]
      rfl
    exact hsize ▸ room
  keyed other page' hpage' := by
    rw [page?_withUse, page?_withFrame] at hpage'
    split at hpage'
    · rename_i heq
      cases hpage'
      exact own.trans heq
    · exact h.keyed other page' hpage'
  used other hother := by
    rw [page?_withUse, page?_withFrame] at hother
    split at hother
    · rename_i heq
      simp [heq]
    · exact List.mem_append_left _ (h.used other hother)
  clock := by
    rw [List.length_append]
    exact congrArg (· + 1) h.clock
  stamps other := by
    change (p.recency.stamps.insert id (p.recency.clock + 1)).get? other = _
    rw [Assoc.get?_insert, page?_withUse, page?_withFrame, h.clock]
    simp only [lastUse_concat]
    by_cases heq : id = other
    · simp [heq]
    · simp only [heq, if_false]
      exact h.stamps other

theorem numCached_without {victim : PageId} (cached : (p.page? victim).isSome) :
    (p.without victim).numCached + 1 = p.numCached :=
  Assoc.size_erase (by rwa [← isSome_page?])

theorem Tracked.without (h : Tracked uses p) {victim : PageId} (cached : (p.page? victim).isSome) :
    Tracked uses (p.without victim) where
  room := by
    have := numCached_without cached
    have := h.room
    change (p.without victim).numCached ≤ p.capacity
    omega
  keyed other page hpage := by
    rw [page?_without] at hpage
    split at hpage
    · cases hpage
    · exact h.keyed other page hpage
  used other hother := by
    rw [page?_without] at hother
    split at hother
    · cases hother
    · exact h.used other hother
  clock := h.clock
  stamps other := by
    change (p.recency.stamps.erase victim).get? other = _
    rw [Assoc.get?_erase, page?_without, h.stamps]
    split <;> rfl

theorem Tracked.withPage (h : Tracked uses p) {id : PageId} {f : Page → Page}
    (own : ∀ page, p.page? id = some page → (f page).id = id) : Tracked uses (p.withPage id f) where
  room := by
    change (p.frames.modify id _).size ≤ p.capacity
    rw [Assoc.size_modify]
    exact h.room
  keyed other page hpage := by
    rw [page?_withPage] at hpage
    split at hpage
    · rename_i heq
      subst heq
      obtain ⟨page', hpage', rfl⟩ := Option.map_eq_some_iff.mp hpage
      exact own page' hpage'
    · exact h.keyed other page hpage
  used other hother := by
    rw [page?_withPage] at hother
    split at hother
    · exact h.used other (by simpa using hother)
    · exact h.used other hother
  clock := h.clock
  stamps other := by
    change p.recency.stamps.get? other = _
    rw [h.stamps, page?_withPage]
    split <;> simp [Function.comp_def]

end Moves

/-- One getting of a page; when it fails, nothing was used. -/
theorem Fetched.tracked {busy : List PageId} {tx : TxId} {id : PageId} {mode : LockMode} {p q : Pool}
    {r : Except Error Page} {uses : List PageId} (h : Fetched busy tx id mode p r q)
    (hp : Tracked uses p) : match r with
      | .ok _ => Tracked (uses ++ [id]) q
      | .error _ => Tracked uses q := by
  have hasked : Tracked uses (p.asked tx id mode) := ⟨hp.room, hp.keyed, hp.used, hp.clock, hp.stamps⟩
  cases h with
  | refused => exact hasked
  | hit page _ there =>
    refine hasked.withUse ?_
    change (p.page? id).isSome
    rw [there]
    rfl
  | unread => exact hasked
  | loaded page _ absent stored room => exact hasked.withFrame absent room (Storage.id_of_readPage stored)
  | replaced page victim _ absent stored full oldest =>
    obtain ⟨old, hold, -⟩ := clean_of_mayGo (Recency.mayGo_of_oldest? oldest)
    have cached : ((p.asked tx id mode).page? victim).isSome := by
      change (p.page? victim).isSome
      rw [hold]
      rfl
    refine (hasked.without cached).withFrame ?_ ?_ (Storage.id_of_readPage stored)
    · rw [page?_without]
      split
      · rfl
      · exact absent
    · have hsize := numCached_without cached
      have hroom := hasked.room
      change ((p.asked tx id mode).without victim).numCached < (p.asked tx id mode).capacity
      omega
  | stuck => exact hasked

theorem Served.tracked {first p : Pool} {uses : List PageId} (h : Served first uses p)
    (hfirst : Tracked [] first) : Tracked uses p := by
  induction h with
  | start => exact hfirst
  | got _ busy tx id mode run ih => exact (fetched_of_run run).tracked ih
  | notGot _ busy tx id mode run ih => exact (fetched_of_run run).tracked ih
  | @noted _ p _ tx id cached ih =>
    have hmarked : Tracked _ (p.withPage id fun page => page.mark (some tx)) :=
      ih.withPage fun page hpage => ih.keyed id page hpage
    refine hmarked.withUse ?_
    rw [page?_withPage, if_pos rfl]
    simpa using cached
  | changed _ id f own ih => exact ih.withPage own
  | @dropped _ p _ id ih =>
    simp only [Pool.discard, Step.update_run]
    split
    · rename_i hcached
      exact ih.without (by rwa [isSome_page?])
    · exact ih
  | elsewhere _ storage locks ih => exact ⟨ih.room, ih.keyed, ih.used, ih.clock, ih.stamps⟩

/-! ## Which page goes -/

/-- A page in memory that nobody changed. -/
def Clean (p : Pool) (id : PageId) : Prop := ∃ page, p.page? id = some page ∧ page.dirtiedBy = none

theorem mayGo_iff_clean {p : Pool} {id : PageId} : p.mayGo [] id = true ↔ p.Clean id := by
  constructor
  · exact clean_of_mayGo
  · rintro ⟨page, hpage, hclean⟩
    simp [mayGo, hpage, hclean]

/-- A page is wanted that can be had, and there is no room for it. -/
structure WantsRoom (p : Pool) (tx : TxId) (id : PageId) (mode : LockMode) (page : Page) : Prop where
  absent : p.page? id = none
  full : p.capacity ≤ p.numCached
  granted : (p.locks.tryGrant tx id mode).1 = true
  stored : p.storage.readPage id = .ok page

/-- What is done then hangs on whether there is a page that may go. -/
theorem WantsRoom.cases {p : Pool} {tx : TxId} {id : PageId} {mode : LockMode} {page : Page}
    (h : p.WantsRoom tx id mode page) :
    (∃ victim, p.recency.oldest? (p.mayGo []) = some victim ∧ fetch tx id mode p =
      (.ok page, (((p.asked tx id mode).without victim).withFrame id page).withUse id)) ∨
    p.recency.oldest? (p.mayGo []) = none ∧
      fetch tx id mode p = (.error (.poolFull p.capacity), p.asked tx id mode) := by
  rcases hrun : fetch tx id mode p with ⟨r, q⟩
  have hfetched : Fetched [] tx id mode p r q := fetched_of_run hrun
  obtain ⟨absent, full, granted, stored⟩ := h
  cases hfetched with
  | refused denied => simp [granted] at denied
  | hit page' _ there => simp [absent] at there
  | unread e _ _ stored' => simp [stored] at stored'
  | loaded page' _ _ _ room => omega
  | replaced page' victim _ _ stored' _ oldest =>
    rw [stored, Except.ok.injEq] at stored'
    subst stored'
    exact .inl ⟨victim, oldest, rfl⟩
  | stuck page' _ _ _ _ none => exact .inr ⟨none, rfl⟩

theorem Tracked.stamp_of_clean {uses : List PageId} {p : Pool} (hp : Tracked uses p) {id : PageId}
    (clean : p.Clean id) : p.recency.stamps.get? id = some (lastUse uses id) ∧ id ∈ uses := by
  obtain ⟨page, hpage, -⟩ := clean
  refine ⟨?_, hp.used id ?_⟩
  · rw [hp.stamps, hpage]
    rfl
  · rw [hpage]
    rfl

/-- Where no page may go none is clean. -/
theorem Tracked.not_clean {uses : List PageId} {p : Pool} (hp : Tracked uses p)
    (none : p.recency.oldest? (p.mayGo []) = none) (id : PageId) : ¬ p.Clean id := by
  intro hclean
  have hstays := Recency.oldest?_eq_none none (hp.stamp_of_clean hclean).1
  rw [mayGo_iff_clean.mpr hclean] at hstays
  cases hstays

/-- Of the clean pages the one that was used last before all others goes, and no other page does. -/
theorem Tracked.replaces {uses : List PageId} {p : Pool} (hp : Tracked uses p) {tx : TxId} {id : PageId}
    {mode : LockMode} {page : Page} (h : p.WantsRoom tx id mode page) (hclean : ∃ other, p.Clean other) :
    ∃ victim q, fetch tx id mode p = (.ok page, q) ∧ p.Clean victim ∧
      (∀ other, p.Clean other → other ≠ victim → lastUse uses victim < lastUse uses other) ∧
      ∀ other, q.page? other =
        if other = id then some page else if other = victim then none else p.page? other := by
  rcases h.cases with ⟨victim, oldest, hrun⟩ | ⟨none, -⟩
  · have hvictim : p.Clean victim := mayGo_iff_clean.mp (Recency.mayGo_of_oldest? oldest)
    refine ⟨victim, _, hrun, hvictim, ?_, ?_⟩
    · intro other hother hne
      obtain ⟨stamp, hstamp', hleast⟩ := Recency.stamp_le_of_oldest? oldest
      obtain ⟨hvictimStamp, hvictimUsed⟩ := hp.stamp_of_clean hvictim
      obtain ⟨hotherStamp, hotherUsed⟩ := hp.stamp_of_clean hother
      rw [hvictimStamp, Option.some.injEq] at hstamp'
      subst hstamp'
      refine Nat.lt_of_le_of_ne (hleast other _ hotherStamp (mayGo_iff_clean.mpr hother)) ?_
      exact fun heq => hne (eq_of_lastUse hvictimUsed hotherUsed heq).symm
    · intro other
      rw [page?_withUse, page?_withFrame, page?_without]
      simp only [eq_comm]
      rfl
  · obtain ⟨other, hother⟩ := hclean
    exact absurd hother (hp.not_clean none other)

/-- Where all pages are changed there is nothing to be done. -/
theorem WantsRoom.stuck {p : Pool} {tx : TxId} {id : PageId} {mode : LockMode} {page : Page}
    (h : p.WantsRoom tx id mode page) (hdirty : ∀ other, ¬ p.Clean other) :
    (fetch tx id mode p).1 = .error (.poolFull p.capacity) := by
  rcases h.cases with ⟨victim, oldest, -⟩ | ⟨-, hrun⟩
  · exact absurd (mayGo_iff_clean.mp (Recency.mayGo_of_oldest? oldest)) (hdirty victim)
  · rw [hrun]

/-- A page that cannot be had leaves all pages in memory, and when they were used. -/
theorem unused_of_error {busy : List PageId} {tx : TxId} {id : PageId} {mode : LockMode} {p q : Pool}
    {e : Error} (run : fetchBeside busy tx id mode p = (.error e, q)) :
    q.frames = p.frames ∧ q.recency = p.recency := by
  cases fetched_of_run run with
  | refused => exact ⟨rfl, rfl⟩
  | unread => exact ⟨rfl, rfl⟩
  | stuck => exact ⟨rfl, rfl⟩

end PageStore.Pool
