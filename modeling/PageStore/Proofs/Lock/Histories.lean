-- The laws of a whole history of lock calls, in which a request may wait while
-- others give their locks back: every call answers and changes what a table of
-- modes alone would have it answer and change.
import PageStore.Lock.Waiting
import PageStore.Proofs.Lock.Modes

namespace PageStore

namespace LockTable

/-! ## Waiting -/

namespace Modes

/-- What a request comes to that is tried once. -/
def Tried (r : Request) (m : Modes) (granted : Bool) (m' : Modes) : Prop :=
  (granted = true ↔ m.Grantable r) ∧ m' = if granted then m.grant r else m

/-- What a request comes to that waits while others surrender: it is granted at the first moment at
which it can be, or it is not granted at all. -/
def Waited (r : Request) : List Surrender → Modes → Bool → Modes → Prop
  | [], m, granted, m' => m.Tried r granted m'
  | s :: rest, m, granted, m' =>
    (m.Grantable r ∧ granted = true ∧ m' = (s :: rest).foldl surrender (m.grant r)) ∨
      (¬ m.Grantable r ∧ Waited r rest (m.surrender s) granted m')

theorem waited_of_grantable {r : Request} {m : Modes} (h : m.Grantable r) (others : List Surrender) :
    Waited r others m true (others.foldl surrender (m.grant r)) := by
  cases others with
  | nil => simp [Waited, Tried, h]
  | cons s rest => exact Or.inl ⟨h, rfl, rfl⟩

end Modes

/-- Once a request is granted, waiting on only does what the others do. -/
theorem await_granted {t : LockTable} (h : WellKept t) (r : Request) (others : List Surrender) :
    (await r true others t).1 = true ∧
    (await r true others t).2.mode? = others.foldl Modes.surrender t.mode? ∧
    WellKept (await r true others t).2 := by
  induction others generalizing t with
  | nil => exact ⟨rfl, rfl, h⟩
  | cons s rest ih =>
    obtain ⟨_, hmode, hkept⟩ := surrender_spec h s
    have heq : await r true (s :: rest) t = await r true rest (s.run t).2 := by
      simp only [await, retry]
      split <;> simp_all
    rw [heq, List.foldl_cons, ← hmode]
    exact ih hkept

theorem await_spec {t : LockTable} (h : WellKept t) {r : Request} (others : List Surrender)
    (hnot : ¬ Modes.Grantable t.mode? r) :
    Modes.Waited r others t.mode? (await r false others t).1 (await r false others t).2.mode? ∧
    WellKept (await r false others t).2 := by
  induction others generalizing t with
  | nil => exact ⟨by simp [Modes.Waited, Modes.Tried, await, hnot], h⟩
  | cons s rest ih =>
    obtain ⟨htold, hmode, hkept⟩ := surrender_spec h s
    obtain ⟨hgrant, hafter, hkept'⟩ := tryGrant_spec hkept r
    have hlater : ∀ {granted : Bool} {m' : Modes},
        Modes.Waited r rest (Modes.surrender t.mode? s) granted m' →
          Modes.Waited r (s :: rest) t.mode? granted m' := fun hw => Or.inr ⟨hnot, hw⟩
    by_cases htell : (s.run t).1 = true
    · cases htry : ((s.run t).2.tryGrant r.tx r.page r.mode).1 with
      | true =>
        have heq : await r false (s :: rest) t =
            await r true rest ((s.run t).2.tryGrant r.tx r.page r.mode).2 := by
          simp [await, retry, htell, htry]
        obtain ⟨hok, hmodes, hkept''⟩ := await_granted hkept' r rest
        rw [heq, hok, hmodes, hafter, htry]
        refine ⟨hlater ?_, hkept''⟩
        rw [hmode] at hgrant ⊢
        exact Modes.waited_of_grantable (hgrant.mp htry) rest
      | false =>
        have hsame : ((s.run t).2.tryGrant r.tx r.page r.mode).2.mode? = (s.run t).2.mode? := by
          simp [hafter, htry]
        have heq : await r false (s :: rest) t =
            await r false rest ((s.run t).2.tryGrant r.tx r.page r.mode).2 := by
          simp [await, retry, htell, htry]
        have hno : ¬ Modes.Grantable (s.run t).2.mode? r := by
          rw [← hgrant, htry]
          simp
        obtain ⟨hw, hk⟩ := ih hkept' (by rw [hsame]; exact hno)
        rw [heq]
        rw [hsame, hmode] at hw
        exact ⟨hlater hw, hk⟩
    · -- Nobody is told, but then nothing was given back and a new try would be refused too.
      have hsame : Modes.surrender t.mode? s = t.mode? :=
        Modes.surrender_of_not_gives (fun hg => htell (htold.mpr hg))
      have heq : await r false (s :: rest) t = await r false rest (s.run t).2 := by
        simp [await, htell]
      obtain ⟨hw, hk⟩ := ih hkept (by rw [hmode, hsame]; exact hnot)
      rw [heq]
      rw [hmode] at hw
      exact ⟨hlater hw, hk⟩

theorem acquireWaiting_spec {t : LockTable} (h : WellKept t) (r : Request) (others : List Surrender) :
    Modes.Waited r others t.mode? (t.acquireWaiting r others).1 (t.acquireWaiting r others).2.mode? ∧
    WellKept (t.acquireWaiting r others).2 := by
  obtain ⟨hgrant, hafter, hkept⟩ := tryGrant_spec h r
  cases htry : (t.tryGrant r.tx r.page r.mode).1 with
  | true =>
    obtain ⟨hok, hmodes, hkept'⟩ := await_granted hkept r others
    have heq : t.acquireWaiting r others =
        await r true others (t.tryGrant r.tx r.page r.mode).2 := by
      simp [acquireWaiting, htry]
    rw [heq, hok, hmodes, hafter, htry]
    exact ⟨Modes.waited_of_grantable (hgrant.mp htry) others, hkept'⟩
  | false =>
    have hno : ¬ Modes.Grantable t.mode? r := by
      rw [← hgrant, htry]
      simp
    have hsame : (t.tryGrant r.tx r.page r.mode).2.mode? = t.mode? := by simp [hafter, htry]
    have heq : t.acquireWaiting r others =
        await r false others (t.tryGrant r.tx r.page r.mode).2 := by
      simp [acquireWaiting, htry]
    rw [heq, ← hsame]
    exact await_spec hkept others (by rw [hsame]; exact hno)

/-! ## Histories of calls -/

/-- What can be asked of a lock table. A request that waits is told of what the others give back in the
meantime. -/
inductive Call where
  | acquire (r : Request)
  | acquireTimeout (r : Request) (others : List Surrender)
  | surrender (s : Surrender)
  deriving Repr, DecidableEq

namespace Call

/-- Whether a request was granted, or a lock was given back, and the table after it. -/
def run : Call → LockTable → Bool × LockTable
  | .acquire r, t => t.tryGrant r.tx r.page r.mode
  | .acquireTimeout r others, t => t.acquireWaiting r others
  | .surrender s, t => s.run t

/-- What a call answers and leaves, by the modes alone. -/
def Does : Call → Modes → Bool → Modes → Prop
  | .acquire r, m, granted, m' => m.Tried r granted m'
  | .acquireTimeout r others, m, granted, m' => m.Waited r others granted m'
  | .surrender s, m, given, m' => (given = true ↔ m.Gives s) ∧ m' = m.surrender s

/-- The table after these calls, the first one first. -/
def after (history : List Call) : LockTable := history.foldl (fun t call => (call.run t).2) empty

theorem run_spec {t : LockTable} (h : WellKept t) (call : Call) :
    call.Does t.mode? (call.run t).1 (call.run t).2.mode? ∧ WellKept (call.run t).2 := by
  cases call with
  | acquire r =>
    obtain ⟨hgrant, hafter, hkept⟩ := tryGrant_spec h r
    exact ⟨⟨hgrant, hafter⟩, hkept⟩
  | acquireTimeout r others => exact acquireWaiting_spec h r others
  | surrender s =>
    obtain ⟨hgives, hafter, hkept⟩ := surrender_spec h s
    exact ⟨⟨hgives, hafter⟩, hkept⟩

theorem wellKept_after (history : List Call) : WellKept (after history) := by
  apply List.foldlRecOn history _ wellKept_empty
  intro t h call _
  exact (run_spec h call).2

end Call

/-! ## The pages of a transaction -/

theorem mem_pagesOf {t : LockTable} (h : WellKept t) (tx : TxId) (page : PageId) :
    page ∈ t.pagesOf tx ↔ t.mode? tx page ≠ none := by
  unfold pagesOf
  rw [List.mem_mergeSort, h.indexed]

/-- The pages stand in order and none stands twice. -/
theorem pagesOf_sorted {t : LockTable} (h : WellKept t) (tx : TxId) :
    (t.pagesOf tx).Pairwise fun p q => p.order q = .lt := by
  have hsorted : (t.pagesOf tx).Pairwise fun p q => decide (p.order q ≠ .gt) = true := by
    apply List.pairwise_mergeSort
    · intro p q r hpq hqr
      simp only [decide_eq_true_eq, PageId.order_ne_gt_iff] at hpq hqr ⊢
      unfold TableId at *
      omega
    · intro p q
      simp only [Bool.or_eq_true, decide_eq_true_eq, PageId.order_ne_gt_iff]
      unfold TableId
      omega
  have hnodup : (t.pagesOf tx).Nodup :=
    (List.mergeSort_perm _ _).nodup_iff.mpr (nodup_listAt h.pages tx)
  refine (hsorted.and hnodup).imp ?_
  rintro ⟨pt, pn⟩ ⟨qt, qn⟩ ⟨hle, hne⟩
  simp only [decide_eq_true_eq, PageId.order_ne_gt_iff] at hle
  rw [PageId.order_eq_lt_iff]
  rcases hle with hlt | ⟨ht, hn⟩
  · exact Or.inl hlt
  · have : pn ≠ qn := fun h => hne (by rw [ht, h])
    exact Or.inr ⟨ht, Nat.lt_of_le_of_ne hn this⟩

/-- A table in which nobody holds anything is the empty one. -/
theorem eq_empty_of_no_holder {t : LockTable} (h : WellKept t) (hnone : ∀ tx page, t.mode? tx page = none) :
    t = empty := by
  have hno : ∀ tx page, t.exclusive.get? page ≠ some tx ∧ tx ∉ listAt t.shared page := by
    intro tx page
    have := (not_congr (mode?_ne_none_iff t tx page)).mp (by simp [hnone])
    exact not_or.mp this
  have hshared : t.shared = .empty := eq_empty_of_listAt h.readers fun page tx => (hno tx page).2
  have hexclusive : t.exclusive = .empty := by
    apply Assoc.eq_empty_of_get?
    intro page
    cases hx : t.exclusive.get? page with
    | none => rfl
    | some tx => exact absurd hx (hno tx page).1
  have hheld : t.held = .empty :=
    eq_empty_of_listAt h.pages fun tx page hp => (h.indexed tx page).mp hp (hnone tx page)
  obtain ⟨shared, exclusive, held⟩ := t
  simp_all [empty]

theorem entries_ne_nil {κ α : Type} [DecidableEq κ] {m : Assoc κ (List α)} (h : Filled m) :
    ∀ e ∈ m.entries, e.2 ≠ [] :=
  fun e he => (h e.1 e.2 (Assoc.mem_entries.mp he)).1

/-! ## The laws -/

/-- After every history of calls the table stands for how each transaction holds each page: nothing at
the start, and each call answers and changes what the modes alone would have it answer and change. A
writer is alone on its page, the index has the pages of each transaction, in order and without
repetition, and no map keeps an empty list, so that all maps are empty when nobody holds anything. -/
theorem the_table_is_a_table_of_modes (history : List Call) :
    (Call.after []).mode? = (fun _ _ => none) ∧
    (∀ call : Call, call.Does (Call.after history).mode? (call.run (Call.after history)).1
      (Call.after (history ++ [call])).mode?) ∧
    (∀ tx other page, (Call.after history).mode? tx page = some .exclusive →
      (Call.after history).mode? other page ≠ none → other = tx) ∧
    (∀ tx, ((Call.after history).pagesOf tx).Pairwise (fun p q => p.order q = .lt) ∧
      (listAt (Call.after history).held tx).Perm ((Call.after history).pagesOf tx) ∧
      ∀ page, page ∈ (Call.after history).pagesOf tx ↔ (Call.after history).mode? tx page ≠ none) ∧
    (∀ e ∈ (Call.after history).shared.entries, e.2 ≠ []) ∧
    (∀ e ∈ (Call.after history).held.entries, e.2 ≠ []) ∧
    ((∀ tx page, (Call.after history).mode? tx page = none) → Call.after history = empty) := by
  have h := Call.wellKept_after history
  refine ⟨?_, ?_, ?_, ?_, entries_ne_nil h.readers, entries_ne_nil h.pages, eq_empty_of_no_holder h⟩
  · funext tx page
    simp [Call.after, empty, mode?, listAt]
  · intro call
    have hnext : Call.after (history ++ [call]) = (call.run (Call.after history)).2 := by
      simp [Call.after]
    rw [hnext]
    exact (Call.run_spec h call).1
  · exact fun tx other page => only_holder h
  · exact fun tx => ⟨pagesOf_sorted h tx, (List.mergeSort_perm _ _).symm, mem_pagesOf h tx⟩

end LockTable

end PageStore
