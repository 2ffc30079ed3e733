-- Why a request that waits need only be tried again when it is told to. A lock that is given
-- to anyone never makes room for a request that was refused; a release may, but then it gave
-- something back, and those who wait are told of exactly these. So whoever tries again only
-- then gets a lock as soon as one who tries again after everything that happens.
import PageStore.Proofs.Lock.Histories

namespace PageStore

namespace LockTable

/-! ## What a grant does to a refused request -/

namespace Modes

variable {m : Modes} {q r : Request}

/-- Why a request is refused: its lock is not held yet, and somebody else holds one that clashes. -/
theorem not_grantable_iff :
    ¬ m.Grantable r ↔ ¬ m.Covered r ∧
      ∃ other held, other ≠ r.tx ∧ m other r.page = some held ∧ Clash r.mode held := by
  simp only [Grantable, not_or, Classical.not_forall, Classical.not_not, exists_prop]

/-- What clashes with a lock clashes with a greater one. -/
theorem Clash.greater {asked held : LockMode} (h : Clash asked held) (more : LockMode) :
    Clash asked (greater (some held) more) := by
  rcases h with rfl | rfl
  · exact .inl rfl
  · exact .inr rfl

theorem grant_of_ne {u : TxId} {page : PageId} (h : ¬ (u = q.tx ∧ page = q.page)) : m.grant q u page = m u page :=
  if_neg h

theorem grant_self : m.grant q q.tx q.page = some (Modes.greater (m q.tx q.page) q.mode) := if_pos ⟨rfl, rfl⟩

/-- A request of the same transaction on the same page: who clashes with the refused one would clash with it too,
unless it only reads, and reading is not what was refused. -/
theorem not_covered_grant (free : ∀ other held, other ≠ q.tx → m other q.page = some held → ¬ Clash q.mode held)
    (denied : ¬ m.Grantable r) (tx : q.tx = r.tx) (page : q.page = r.page) : ¬ (m.grant q).Covered r := by
  obtain ⟨hcovered, other, held, hother, hheld, hclash⟩ := not_grantable_iff.mp denied
  have hnoClash : ¬ Clash q.mode held := free other held (tx ▸ hother) (page ▸ hheld)
  have hreads : q.mode = .shared := by
    cases hq : q.mode with
    | shared => rfl
    | exclusive => exact absurd (.inl hq) hnoClash
  have hwrites : r.mode = .exclusive := hclash.resolve_right fun hx => hnoClash (.inr hx)
  unfold Covered at hcovered ⊢
  rw [← tx, ← page, grant_self, hreads, hwrites]
  rw [← tx, ← page, hwrites] at hcovered
  cases hm : m q.tx q.page with
  | none => simp [Modes.greater]
  | some mode =>
    cases mode with
    | shared => simp [Modes.greater]
    | exclusive => exact absurd (.inl hm) hcovered

/-- A lock that is given to anyone makes no room for a request that is refused. -/
theorem not_grantable_grant (granted : m.Grantable q) (denied : ¬ m.Grantable r) : ¬ (m.grant q).Grantable r := by
  rcases granted with hcovered | hfree
  · rwa [grant_of_covered hcovered]
  · obtain ⟨hnot, other, held, hother, hheld, hclash⟩ := not_grantable_iff.mp denied
    rw [not_grantable_iff]
    constructor
    · by_cases hsame : r.tx = q.tx ∧ r.page = q.page
      · exact not_covered_grant hfree denied hsame.1.symm hsame.2.symm
      · unfold Covered
        rwa [grant_of_ne hsame]
    · by_cases hsame : other = q.tx ∧ r.page = q.page
      · -- The one in the way is the one that is given more.
        obtain ⟨rfl, hpage⟩ := hsame
        rw [hpage] at hheld
        refine ⟨q.tx, _, hother, ?_, hclash.greater q.mode⟩
        rw [hpage, grant_self, hheld]
      · exact ⟨other, held, hother, by rwa [grant_of_ne hsame], hclash⟩

/-! ## What a release does to it -/

/-- A surrender gives something back exactly when a lock is gone afterwards. -/
theorem gives_iff (m : Modes) (s : Surrender) :
    m.Gives s ↔ ∃ tx page, m tx page ≠ none ∧ m.surrender s tx page = none := by
  constructor
  · intro h
    cases s with
    | page tx page => exact ⟨tx, page, h, if_pos ⟨rfl, rfl⟩⟩
    | all tx =>
      obtain ⟨page, hpage⟩ := h
      exact ⟨tx, page, hpage, if_pos rfl⟩
  · rintro ⟨tx, page, hheld, hgone⟩
    refine Classical.byContradiction fun hnot => hheld ?_
    rwa [surrender_of_not_gives hnot] at hgone

end Modes

/-! ## Operations -/

/-- What is done to a table at once, with nobody else in between. -/
inductive Operation where
  | acquire (r : Request)
  | surrender (s : Surrender)
  deriving Repr, DecidableEq

namespace Operation

def run : Operation → LockTable → Bool × LockTable
  | acquire r, t => t.tryGrant r.tx r.page r.mode
  | surrender s, t => s.run t

/-- Whether those who wait are told to try again. -/
def tells : Operation → LockTable → Bool
  | acquire _, _ => false
  | surrender s, t => (s.run t).1

end Operation

/-- Whether a request would be granted now. -/
def wouldGrant (t : LockTable) (r : Request) : Bool := (t.tryGrant r.tx r.page r.mode).1

/-- A request that is refused leaves the table as it is. -/
theorem tryGrant_of_denied {t : LockTable} {r : Request} (h : t.wouldGrant r = false) :
    t.tryGrant r.tx r.page r.mode = (false, t) := by
  unfold wouldGrant tryGrant at h
  unfold tryGrant
  split
  · rename_i hcovers
    rw [if_pos hcovers] at h
    cases h
  · rename_i hcovers
    rw [if_neg hcovers] at h
    split
    · rename_i hfree
      rw [if_pos hfree] at h
      cases h
    · rfl

theorem exists_of_wouldGrant {t : LockTable} {r : Request} (h : t.wouldGrant r = true) :
    ∃ entered, t.tryGrant r.tx r.page r.mode = (true, entered) := ⟨_, Prod.ext h rfl⟩

section WellKeptTables

variable {t : LockTable} {r : Request}

theorem wouldGrant_eq_false_iff (h : WellKept t) : t.wouldGrant r = false ↔ ¬ Modes.Grantable t.mode? r := by
  rw [← (tryGrant_spec h r).1, Bool.not_eq_true]
  rfl

theorem Operation.wellKept (h : WellKept t) (op : Operation) : WellKept (op.run t).2 := by
  cases op with
  | acquire q => exact (tryGrant_spec h q).2.2
  | surrender s => exact (surrender_spec h s).2.2

theorem denied_acquire (h : WellKept t) (denied : t.wouldGrant r = false) (q : Request) :
    ((Operation.acquire q).run t).2.wouldGrant r = false := by
  obtain ⟨hgrant, hmodes, hkept⟩ := tryGrant_spec h q
  rw [wouldGrant_eq_false_iff h] at denied
  change wouldGrant (t.tryGrant q.tx q.page q.mode).2 r = false
  rw [wouldGrant_eq_false_iff hkept, hmodes]
  split
  · rename_i hgranted
    exact Modes.not_grantable_grant (hgrant.mp hgranted) denied
  · exact denied

/-- A surrender of which nobody is told lets nobody in. -/
theorem denied_surrender (h : WellKept t) (denied : t.wouldGrant r = false) {s : Surrender}
    (silent : (s.run t).1 = false) : (s.run t).2.wouldGrant r = false := by
  obtain ⟨htold, hmodes, hkept⟩ := surrender_spec h s
  have hnothing : ¬ Modes.Gives t.mode? s := by
    rw [← htold, silent]
    exact Bool.false_ne_true
  rw [wouldGrant_eq_false_iff h] at denied
  rwa [wouldGrant_eq_false_iff hkept, hmodes, Modes.surrender_of_not_gives hnothing]

/-- One step: an operation of which nobody is told lets nobody in. -/
theorem denied_of_silent (h : WellKept t) (denied : t.wouldGrant r = false) {op : Operation}
    (silent : op.tells t = false) : (op.run t).2.wouldGrant r = false := by
  cases op with
  | acquire q => exact denied_acquire h denied q
  | surrender s => exact denied_surrender h denied silent

theorem told_iff_gone (h : WellKept t) (s : Surrender) :
    (Operation.surrender s).tells t = true ↔
      ∃ tx page, t.mode? tx page ≠ none ∧ (s.run t).2.mode? tx page = none := by
  obtain ⟨htold, hmodes, -⟩ := surrender_spec h s
  rw [hmodes, ← Modes.gives_iff]
  exact htold

end WellKeptTables

/-! ## Waiting -/

/-- A request waits while others go on. It is tried again after those of their operations of which `again`
says so. At its first grant it gives what of the others is still to come, and the table. -/
def waitWhile (again : Operation → LockTable → Bool) (r : Request) :
    List Operation → LockTable → Option (List Operation × LockTable)
  | [], _ => none
  | op :: rest, t =>
    let next := (op.run t).2
    if again op t then
      match next.tryGrant r.tx r.page r.mode with
      | (true, entered) => some (rest, entered)
      | (false, same) => waitWhile again r rest same
    else waitWhile again r rest next

/-- After whatever happens. -/
def always (_ : Operation) (_ : LockTable) : Bool := true

/-- Whoever tries again only when told is let in at the same moment as one who always tries again. -/
theorem waitWhile_tells {t : LockTable} (h : WellKept t) {r : Request} (denied : t.wouldGrant r = false)
    (others : List Operation) : waitWhile Operation.tells r others t = waitWhile always r others t := by
  induction others generalizing t with
  | nil => rfl
  | cons op rest ih =>
    have hkept := op.wellKept h
    simp only [waitWhile, always, if_true]
    cases hnext : (op.run t).2.wouldGrant r with
    | false =>
      simp only [tryGrant_of_denied hnext, ih hkept hnext, ite_self]
    | true =>
      have htold : op.tells t = true := by
        refine Bool.of_not_eq_false fun hsilent => ?_
        rw [denied_of_silent h denied hsilent] at hnext
        cases hnext
      obtain ⟨entered, hentered⟩ := exists_of_wouldGrant hnext
      rw [if_pos htold, hentered]

/-- A request that waits while others only give back is let in if it is let in when it tries after every one
of these releases. -/
theorem await_fst {t : LockTable} (h : WellKept t) (r : Request) (others : List Surrender) :
    (await r false others t).1 = (waitWhile Operation.tells r (others.map .surrender) t).isSome := by
  induction others generalizing t with
  | nil => rfl
  | cons s rest ih =>
    have hkept := (surrender_spec h s).2.2
    simp only [await, retry, List.map_cons, waitWhile, Operation.tells, Operation.run]
    by_cases htold : (s.run t).1 = true
    · cases hnext : (s.run t).2.wouldGrant r with
      | false => simpa [htold, tryGrant_of_denied hnext] using ih hkept
      | true =>
        obtain ⟨entered, hentered⟩ := exists_of_wouldGrant hnext
        have hin : WellKept entered := by
          have hspec := (tryGrant_spec hkept r).2.2
          rwa [hentered] at hspec
        simpa [htold, hentered] using (await_granted hin r rest).1
    · simpa [htold] using ih hkept

theorem acquireWaiting_fst {t : LockTable} (h : WellKept t) {r : Request} (denied : t.wouldGrant r = false)
    (others : List Surrender) :
    (t.acquireWaiting r others).1 = (waitWhile always r (others.map .surrender) t).isSome := by
  rw [← waitWhile_tells h denied, ← await_fst h, acquireWaiting, tryGrant_of_denied denied]

/-- After any history of calls, take a request that is refused. If it would be granted after one more
operation, that was a release that took a lock away and of which those who wait are told. No acquire lets it
in, whoever makes it and whatever comes of that, and a release tells of itself exactly if a lock is gone. So
a request that is tried again only when it is told gets its lock at the same moment, from the same table, as
one that is tried again after everything the others do, and a call that waits for its lock gets it whenever
it could. -/
theorem nobody_waits_in_vain (history : List Call) (r : Request)
    (denied : (Call.after history).wouldGrant r = false) :
    (∀ op : Operation, (op.run (Call.after history)).2.wouldGrant r = true →
      (∃ s, op = .surrender s) ∧ op.tells (Call.after history) = true ∧
        ∃ tx page, (Call.after history).mode? tx page ≠ none ∧
          (op.run (Call.after history)).2.mode? tx page = none) ∧
    (∀ q, ((Operation.acquire q).run (Call.after history)).2.wouldGrant r = false) ∧
    (∀ s, (Operation.surrender s).tells (Call.after history) = true ↔
      ∃ tx page, (Call.after history).mode? tx page ≠ none ∧ (s.run (Call.after history)).2.mode? tx page = none) ∧
    (∀ others, waitWhile Operation.tells r others (Call.after history) =
      waitWhile always r others (Call.after history)) ∧
    ∀ others : List Surrender, ((Call.after history).acquireWaiting r others).1 =
      (waitWhile always r (others.map .surrender) (Call.after history)).isSome := by
  have h := Call.wellKept_after history
  refine ⟨fun op granted => ?_, denied_acquire h denied, told_iff_gone h, waitWhile_tells h denied,
    acquireWaiting_fst h denied⟩
  have htold : op.tells (Call.after history) = true := by
    refine Bool.of_not_eq_false fun hsilent => ?_
    rw [denied_of_silent h denied hsilent] at granted
    cases granted
  cases op with
  | acquire q => cases htold
  | surrender s => exact ⟨⟨s, rfl⟩, htold, (told_iff_gone h s).mp htold⟩

/-- One transaction writes a page, and another one wants to read it. -/
def oneWriter : List Call := [.acquire ⟨1, ⟨1, 0⟩, .exclusive⟩]

def oneReader : Request := ⟨2, ⟨1, 0⟩, .shared⟩

/-- A third one is refused, and one that holds nothing gives it back. Then the writer ends, twice. -/
def theOthers : List Operation :=
  [.acquire ⟨3, ⟨1, 0⟩, .shared⟩, .surrender (.page 4 ⟨1, 0⟩), .surrender (.all 1), .surrender (.all 1)]

theorem the_reader_comes_in_behind_the_writer :
    (Call.after oneWriter).wouldGrant oneReader = false ∧
    waitWhile Operation.tells oneReader theOthers (Call.after oneWriter) =
      waitWhile always oneReader theOthers (Call.after oneWriter) ∧
    (waitWhile Operation.tells oneReader theOthers (Call.after oneWriter)).map Prod.fst =
      some [.surrender (.all 1)] := by
  have denied : (Call.after oneWriter).wouldGrant oneReader = false := by decide
  obtain ⟨-, -, -, hwaits, -⟩ := nobody_waits_in_vain oneWriter oneReader denied
  exact ⟨denied, hwaits theOthers, by decide⟩

end LockTable

end PageStore
