-- What a lock table stands for: how each transaction holds each page. Granting and
-- releasing change these modes as the modes alone say, and keep the invariant
-- `WellKept` that ties the three maps together.
import PageStore.Lock.Waiting

namespace PageStore

namespace LockTable

/-! ## Lists without repetition at the keys of a map -/

section Lists

variable {κ α : Type} [DecidableEq κ]

/-- Every list that is kept holds something, and nothing twice. -/
def Filled (m : Assoc κ (List α)) : Prop := ∀ k l, m.get? k = some l → l ≠ [] ∧ l.Nodup

theorem listAt_insert (m : Assoc κ (List α)) (k j : κ) (l : List α) :
    listAt (m.insert k l) j = if k = j then l else listAt m j := by
  unfold listAt
  rw [Assoc.get?_insert]
  split <;> rfl

theorem listAt_erase (m : Assoc κ (List α)) (k j : κ) :
    listAt (m.erase k) j = if k = j then [] else listAt m j := by
  unfold listAt
  rw [Assoc.get?_erase]
  split <;> rfl

theorem nodup_listAt {m : Assoc κ (List α)} (h : Filled m) (k : κ) : (listAt m k).Nodup := by
  unfold listAt
  cases hk : m.get? k with
  | none => exact List.nodup_nil
  | some l => exact (h k l hk).2

theorem filled_erase {m : Assoc κ (List α)} (h : Filled m) (k : κ) : Filled (m.erase k) := by
  intro j l hj
  rw [Assoc.get?_erase] at hj
  split at hj
  · cases hj
  · exact h j l hj

theorem filled_insert {m : Assoc κ (List α)} (h : Filled m) (k : κ) {l : List α} (hne : l ≠ [])
    (hl : l.Nodup) : Filled (m.insert k l) := by
  intro j l' hj
  rw [Assoc.get?_insert] at hj
  split at hj
  · cases hj
    exact ⟨hne, hl⟩
  · exact h j l' hj

/-- A map whose lists all hold something is empty when no list has a member. -/
theorem eq_empty_of_listAt {m : Assoc κ (List α)} (h : Filled m) (hnone : ∀ k a, a ∉ listAt m k) :
    m = .empty := by
  apply Assoc.eq_empty_of_get?
  intro k
  cases hk : m.get? k with
  | none => rfl
  | some l =>
    obtain ⟨a, ha⟩ := List.exists_mem_of_ne_nil l (h k l hk).1
    exact absurd (show a ∈ listAt m k by simpa [listAt, hk] using ha) (hnone k a)

variable [DecidableEq α]

theorem mem_withMember (a b : α) (l : List α) : b ∈ withMember a l ↔ b = a ∨ b ∈ l := by
  unfold withMember
  split
  · rename_i ha
    constructor
    · exact Or.inr
    · rintro (rfl | hb)
      · exact ha
      · exact hb
  · exact List.mem_cons

theorem nodup_withMember (a : α) {l : List α} (h : l.Nodup) : (withMember a l).Nodup := by
  unfold withMember
  split
  · exact h
  · exact List.nodup_cons.mpr ⟨‹_›, h⟩

theorem withMember_ne_nil (a : α) (l : List α) : withMember a l ≠ [] := by
  unfold withMember
  split
  · exact List.ne_nil_of_mem ‹_›
  · exact List.cons_ne_nil _ _

theorem listAt_without (m : Assoc κ (List α)) (k j : κ) (a : α) :
    listAt (without m k a) j = if k = j then (listAt m k).filter (· ≠ a) else listAt m j := by
  unfold without
  split
  · rename_i h
    rw [listAt_erase, h]
  · rename_i h
    rw [listAt_insert]

theorem filled_withMember {m : Assoc κ (List α)} (h : Filled m) (k : κ) (a : α) :
    Filled (m.insert k (withMember a (listAt m k))) :=
  filled_insert h k (withMember_ne_nil a _) (nodup_withMember a (nodup_listAt h k))

theorem filled_without {m : Assoc κ (List α)} (h : Filled m) (k : κ) (a : α) :
    Filled (without m k a) := by
  unfold without
  split
  · exact filled_erase h k
  · rename_i hne
    exact filled_insert h k hne ((nodup_listAt h k).filter _)

end Lists

/-! ## The invariant -/

/-- The pages and their holders agree, a writer is alone, and no empty list is kept. -/
structure WellKept (t : LockTable) : Prop where
  readers : Filled t.shared
  alone : ∀ page tx, t.exclusive.get? page = some tx → listAt t.shared page = []
  pages : Filled t.held
  indexed : ∀ tx page, page ∈ listAt t.held tx ↔ t.mode? tx page ≠ none

theorem wellKept_empty : WellKept empty where
  readers := fun _ _ h => by cases h
  alone := fun _ _ h => by cases h
  pages := fun _ _ h => by cases h
  indexed := fun tx page => by simp [empty, listAt, mode?]

/-! ## Modes -/

theorem mode?_eq_exclusive_iff (t : LockTable) (tx : TxId) (page : PageId) :
    t.mode? tx page = some .exclusive ↔ t.exclusive.get? page = some tx := by
  unfold mode?
  split
  · simp [*]
  · split <;> simp [*]

theorem mode?_ne_none_iff (t : LockTable) (tx : TxId) (page : PageId) :
    t.mode? tx page ≠ none ↔ t.exclusive.get? page = some tx ∨ tx ∈ listAt t.shared page := by
  unfold mode?
  split
  · simp [*]
  · split <;> simp [*]

/-- A writer is the only holder of its page. -/
theorem only_holder {t : LockTable} (h : WellKept t) {tx other : TxId} {page : PageId}
    (hx : t.mode? tx page = some .exclusive) (ho : t.mode? other page ≠ none) : other = tx := by
  rw [mode?_eq_exclusive_iff] at hx
  rcases (mode?_ne_none_iff t other page).mp ho with hw | hr
  · exact Option.some.inj (hw.symm.trans hx)
  · rw [h.alone page tx hx] at hr
    cases hr

theorem same_of_exclusive {t : LockTable} {tx other : TxId} {page : PageId}
    (hx : t.mode? tx page = some .exclusive) (ho : t.mode? other page = some .exclusive) : other = tx := by
  rw [mode?_eq_exclusive_iff] at hx ho
  exact Option.some.inj (ho.symm.trans hx)

/-- How each transaction holds each page. -/
abbrev Modes := TxId → PageId → Option LockMode

namespace Modes

/-- One transaction holds one page in this way from now on. -/
def set (m : Modes) (tx : TxId) (page : PageId) (mode : Option LockMode) : Modes :=
  fun u p => if u = tx ∧ p = page then mode else m u p

/-- One transaction holds nothing any more. -/
def clear (m : Modes) (tx : TxId) : Modes := fun u p => if u = tx then none else m u p

/-- The lock that is held is as much as the one that is asked for. -/
def Covered (m : Modes) (r : Request) : Prop :=
  m r.tx r.page = some .exclusive ∨ m r.tx r.page = some r.mode

/-- A reader clashes with a writer only, a writer with everybody. -/
def Clash (asked held : LockMode) : Prop := asked = .exclusive ∨ held = .exclusive

/-- A request is granted when the lock that is held is enough, or when no other transaction holds the
page in a mode that clashes with it. -/
def Grantable (m : Modes) (r : Request) : Prop :=
  m.Covered r ∨ ∀ other held, other ≠ r.tx → m other r.page = some held → ¬ Clash r.mode held

/-- The greater of the mode that is held and the one that is asked for. -/
def greater : Option LockMode → LockMode → LockMode
  | some .exclusive, _ => .exclusive
  | _, asked => asked

/-- The modes after a request was granted. -/
def grant (m : Modes) (r : Request) : Modes :=
  m.set r.tx r.page (some (greater (m r.tx r.page) r.mode))

/-- The modes after a surrender. -/
def surrender (m : Modes) : Surrender → Modes
  | .page tx page => m.set tx page none
  | .all tx => m.clear tx

/-- Whether a surrender gives something back. -/
def Gives (m : Modes) : Surrender → Prop
  | .page tx page => m tx page ≠ none
  | .all tx => ∃ page, m tx page ≠ none

theorem set_same (m : Modes) (tx : TxId) (page : PageId) : m.set tx page (m tx page) = m := by
  funext u p
  unfold set
  split
  · rename_i h
    rw [h.1, h.2]
  · rfl

theorem set_set (m : Modes) (tx : TxId) (page : PageId) (mode mode' : Option LockMode) :
    (m.set tx page mode).set tx page mode' = m.set tx page mode' := by
  funext u other
  simp only [set]
  split <;> rfl

theorem covers_iff (m : Modes) (r : Request) :
    covers (m r.tx r.page) r.mode = true ↔ m.Covered r := by
  unfold Covered
  cases m r.tx r.page with
  | none => simp [covers]
  | some held => cases held <;> cases r.mode <;> simp [covers]

theorem compatible_iff (asked held : LockMode) :
    asked.compatible held = true ↔ ¬ Clash asked held := by
  cases asked <;> cases held <;> simp [LockMode.compatible, Clash]

/-- A granted request that the held lock covers changes nothing. -/
theorem grant_of_covered {m : Modes} {r : Request} (h : m.Covered r) : m.grant r = m := by
  have hg : some (greater (m r.tx r.page) r.mode) = m r.tx r.page := by
    rcases h with h | h
    · rw [h]
      rfl
    · rw [h]
      cases r.mode <;> rfl
  unfold grant
  rw [hg, set_same]

/-- A surrender that gives nothing back changes nothing. -/
theorem surrender_of_not_gives {m : Modes} {s : Surrender} (h : ¬ m.Gives s) : m.surrender s = m := by
  cases s with
  | page tx page =>
    have hm : m tx page = none := by simpa [Gives] using h
    have := set_same m tx page
    rw [hm] at this
    exact this
  | all tx =>
    have hm : ∀ page, m tx page = none := by simpa [Gives] using h
    funext u p
    simp only [surrender, clear]
    split
    · rename_i hu
      rw [hu, hm]
    · rfl

end Modes

theorem ne_none_of_covers {held : Option LockMode} {mode : LockMode} (h : covers held mode = true) :
    held ≠ none := by
  rintro rfl
  cases h

/-! ## Granting -/

/-- The rule of the table is the rule of the modes: the others are asked one by one. -/
theorem all_othersModes_iff (t : LockTable) (r : Request) :
    (t.othersModes r.tx r.page).all r.mode.compatible = true ↔
      ∀ other held, other ≠ r.tx → t.mode? other r.page = some held →
        r.mode.compatible held = true := by
  simp only [othersModes, List.all_append, Bool.and_eq_true, List.all_eq_true, List.mem_map,
    List.mem_filter, Option.mem_toList, decide_eq_true_eq]
  constructor
  · rintro ⟨hw, hr⟩ other held hne hm
    cases held with
    | exclusive =>
      exact hw _ ⟨other, ⟨(mode?_eq_exclusive_iff t other r.page).mp hm, hne⟩, rfl⟩
    | shared =>
      have hno : t.exclusive.get? r.page ≠ some other := fun h => by
        rw [(mode?_eq_exclusive_iff t other r.page).mpr h] at hm
        cases hm
      have hmem := (mode?_ne_none_iff t other r.page).mp (by simp [hm])
      exact hr _ ⟨other, ⟨hmem.resolve_left hno, hne⟩, rfl⟩
  · intro h
    constructor
    · rintro _ ⟨other, ⟨hx, hne⟩, rfl⟩
      exact h other _ hne ((mode?_eq_exclusive_iff t other r.page).mpr hx)
    · rintro _ ⟨other, ⟨hx, hne⟩, rfl⟩
      cases hm : t.mode? other r.page with
      | none => exact absurd hm ((mode?_ne_none_iff t other r.page).mpr (Or.inr hx))
      | some held =>
        have hc := h other held hne hm
        cases held with
        | shared => exact hc
        | exclusive => cases hr : r.mode <;> simp [hr, LockMode.compatible] at hc

theorem grantable_iff (t : LockTable) (r : Request) :
    Modes.Grantable t.mode? r ↔ covers (t.mode? r.tx r.page) r.mode = true ∨
      (t.othersModes r.tx r.page).all r.mode.compatible = true := by
  rw [all_othersModes_iff, Modes.covers_iff]
  simp only [Modes.compatible_iff]
  rfl

/-- A page that a reader may enter has no writer. -/
theorem no_writer {t : LockTable} {tx : TxId} {page : PageId}
    (hnew : ¬ covers (t.mode? tx page) .shared = true)
    (hfree : (t.othersModes tx page).all LockMode.shared.compatible = true) :
    t.exclusive.get? page = none := by
  cases hx : t.exclusive.get? page with
  | none => rfl
  | some writer =>
    have hm := (mode?_eq_exclusive_iff t writer page).mpr hx
    by_cases hw : writer = tx
    · subst hw
      simp [hm, covers] at hnew
    · have := (all_othersModes_iff t ⟨tx, page, .shared⟩).mp hfree writer _ hw hm
      simp [LockMode.compatible] at this

/-- A page that a writer may enter has no other holder. -/
theorem no_other {t : LockTable} {tx other : TxId} {page : PageId}
    (hfree : (t.othersModes tx page).all LockMode.exclusive.compatible = true)
    (hne : other ≠ tx) : t.mode? other page = none := by
  cases hm : t.mode? other page with
  | none => rfl
  | some held =>
    have := (all_othersModes_iff t ⟨tx, page, .exclusive⟩).mp hfree other held hne hm
    simp [LockMode.compatible] at this

theorem greater_exclusive (held : Option LockMode) : Modes.greater held .exclusive = .exclusive := by
  rcases held with _ | _ | _ <;> rfl

theorem greater_of_not_covers {held : Option LockMode} (h : ¬ covers held .shared = true) :
    Modes.greater held .shared = .shared := by
  rcases held with _ | _ | _
  · rfl
  · rfl
  · exact absurd rfl h

theorem mode?_enter {t : LockTable} {r : Request}
    (hnew : ¬ covers (t.mode? r.tx r.page) r.mode = true)
    (hfree : (t.othersModes r.tx r.page).all r.mode.compatible = true) :
    (t.enter r.tx r.page r.mode).mode? = Modes.grant t.mode? r := by
  obtain ⟨tx, page, mode⟩ := r
  have hmode : Modes.greater (t.mode? tx page) mode = mode := by
    cases mode with
    | shared => exact greater_of_not_covers hnew
    | exclusive => exact greater_exclusive _
  funext u p
  simp only [Modes.grant, Modes.set, hmode]
  by_cases hp : p = page
  · subst hp
    cases mode with
    | shared =>
      have hx := no_writer hnew hfree
      by_cases hu : u = tx
      · simp [enter, mode?, hx, hu, listAt_insert, mem_withMember]
      · simp [enter, mode?, hx, hu, listAt_insert, mem_withMember]
    | exclusive =>
      by_cases hu : u = tx
      · simp [enter, mode?, hu, Assoc.get?_insert]
      · have hnone := no_other hfree hu
        have hu' : ¬ tx = u := fun h => hu h.symm
        simp [enter, hu, hnone]
        simp [mode?, hu', Assoc.get?_insert, listAt_erase]
  · have hp' : ¬ page = p := fun h => hp h.symm
    cases mode with
    | shared => simp [enter, mode?, hp, hp', listAt_insert]
    | exclusive => simp [enter, mode?, hp, hp', Assoc.get?_insert, listAt_erase]

/-- A page that is entered has readers, or one writer alone. -/
theorem alone_enter {t : LockTable} {r : Request} (h : WellKept t)
    (hnew : ¬ covers (t.mode? r.tx r.page) r.mode = true)
    (hfree : (t.othersModes r.tx r.page).all r.mode.compatible = true) {page : PageId} {tx : TxId}
    (hx : (t.enter r.tx r.page r.mode).exclusive.get? page = some tx) :
    listAt (t.enter r.tx r.page r.mode).shared page = [] := by
  unfold enter at hx ⊢
  cases hm : r.mode with
  | shared =>
    rw [hm] at hnew hfree
    simp only [hm] at hx ⊢
    rw [listAt_insert]
    split
    · rename_i hp
      rw [← hp, no_writer hnew hfree] at hx
      cases hx
    · exact h.alone page tx hx
  | exclusive =>
    simp only [hm, Assoc.get?_insert] at hx ⊢
    rw [listAt_erase]
    split at hx
    · simp [*]
    · simp only [*, if_false]
      exact h.alone page tx hx

theorem wellKept_enter {t : LockTable} {r : Request} (h : WellKept t)
    (hnew : ¬ covers (t.mode? r.tx r.page) r.mode = true)
    (hfree : (t.othersModes r.tx r.page).all r.mode.compatible = true) :
    WellKept (t.enter r.tx r.page r.mode) := by
  have hmode := mode?_enter hnew hfree
  have hheld : (t.enter r.tx r.page r.mode).held =
      t.held.insert r.tx (withMember r.page (listAt t.held r.tx)) := by
    unfold enter
    cases r.mode <;> rfl
  refine ⟨?_, fun page tx hx => alone_enter h hnew hfree hx, ?_, ?_⟩
  · unfold enter
    cases r.mode with
    | shared => exact filled_withMember h.readers _ _
    | exclusive => exact filled_erase h.readers _
  · rw [hheld]
    exact filled_withMember h.pages _ _
  · intro tx page
    rw [hheld, hmode, listAt_insert]
    unfold Modes.grant Modes.set
    by_cases ht : tx = r.tx
    · subst ht
      by_cases hp : page = r.page
      · simp [hp, mem_withMember]
      · simp [hp, mem_withMember, h.indexed]
    · have ht' : ¬ r.tx = tx := fun e => ht e.symm
      simp [ht, ht', h.indexed]

/-- A request that is tried is granted as the modes say, and the modes say what it changes. -/
theorem tryGrant_spec {t : LockTable} (h : WellKept t) (r : Request) :
    ((t.tryGrant r.tx r.page r.mode).1 = true ↔ Modes.Grantable t.mode? r) ∧
    (t.tryGrant r.tx r.page r.mode).2.mode? =
      (if (t.tryGrant r.tx r.page r.mode).1 then Modes.grant t.mode? r else t.mode?) ∧
    WellKept (t.tryGrant r.tx r.page r.mode).2 := by
  rw [grantable_iff]
  unfold tryGrant
  split
  · rename_i hc
    refine ⟨by simp [hc], ?_, h⟩
    have hcov := (Modes.covers_iff t.mode? r).mp hc
    simp [Modes.grant_of_covered hcov]
  · rename_i hc
    split
    · rename_i hfree
      exact ⟨by simp [hfree], by simpa using mode?_enter hc hfree, wellKept_enter h hc hfree⟩
    · rename_i hfree
      exact ⟨by simp [hc, hfree], by simp, h⟩

/-- Only a writer keeps others from reading. -/
theorem exists_writer_of_denied {t : LockTable} (h : WellKept t) {tx : TxId} {page : PageId}
    (denied : (t.tryGrant tx page .shared).1 = false) : ∃ u, u ≠ tx ∧ t.mode? u page = some .exclusive := by
  have hnot : ¬ Modes.Grantable t.mode? ⟨tx, page, .shared⟩ := by
    rw [← (tryGrant_spec h ⟨tx, page, .shared⟩).1, denied]
    exact Bool.false_ne_true
  refine Classical.byContradiction fun hnone => ?_
  refine hnot (.inr fun other held hother hheld hclash => hnone ⟨other, hother, ?_⟩)
  rcases hclash with hread | rfl
  · cases hread
  · exact hheld

/-! ## Releasing -/

theorem mode?_release (t : LockTable) (tx : TxId) (page : PageId) :
    (t.release tx page).2.mode? = Modes.set t.mode? tx page none := by
  funext u p
  by_cases hp : p = page
  · subst hp
    by_cases hu : u = tx
    · subst hu
      by_cases hx : t.exclusive.get? p = some u <;>
        simp [release, mode?, Modes.set, hx, Assoc.get?_erase, listAt_without]
    · have hu' : ¬ tx = u := fun h => hu h.symm
      by_cases hx : t.exclusive.get? p = some tx <;>
        simp [release, mode?, Modes.set, hu, hu', hx, Assoc.get?_erase, listAt_without]
  · have hp' : ¬ page = p := fun h => hp h.symm
    by_cases hx : t.exclusive.get? page = some tx <;>
      simp [release, mode?, Modes.set, hp, hp', hx, Assoc.get?_erase, listAt_without]

theorem release_fst (t : LockTable) (tx : TxId) (page : PageId) :
    (t.release tx page).1 = true ↔ t.mode? tx page ≠ none := by
  rw [mode?_ne_none_iff]
  simp [release, or_comm]

/-- What one release keeps of the invariant. It does not speak of the index, which `releaseAll` takes
away beforehand. -/
theorem release_keeps {t : LockTable} (tx : TxId) (page : PageId) (hr : Filled t.shared)
    (ha : ∀ page tx, t.exclusive.get? page = some tx → listAt t.shared page = []) :
    Filled (t.release tx page).2.shared ∧
    ∀ p u, (t.release tx page).2.exclusive.get? p = some u →
      listAt (t.release tx page).2.shared p = [] := by
  refine ⟨filled_without hr _ _, ?_⟩
  intro p u hx
  have hold : t.exclusive.get? p = some u := by
    simp only [release] at hx
    split at hx
    · rw [Assoc.get?_erase] at hx
      split at hx
      · cases hx
      · exact hx
    · exact hx
  have := ha p u hold
  simp only [release, listAt_without]
  split
  · rename_i hp
    rw [hp, this]
    rfl
  · exact this

theorem wellKept_release {t : LockTable} (h : WellKept t) (tx : TxId) (page : PageId) :
    WellKept (t.release tx page).2 := by
  obtain ⟨hr, ha⟩ := release_keeps tx page h.readers h.alone
  refine ⟨hr, ha, filled_without h.pages _ _, ?_⟩
  intro u p
  rw [mode?_release]
  simp only [release, listAt_without, Modes.set]
  by_cases hu : u = tx
  · subst hu
    by_cases hp : p = page
    · simp [hp]
    · simp [hp, h.indexed]
  · have hu' : ¬ tx = u := fun e => hu e.symm
    simp [hu, hu', h.indexed]

/-- Releases one page after the other. -/
def releaseEach (tx : TxId) (pages : List PageId) (t : LockTable) : LockTable :=
  pages.foldl (fun t page => (t.release tx page).2) t

theorem mode?_releaseEach (tx : TxId) (pages : List PageId) (t : LockTable) (u : TxId) (p : PageId) :
    (releaseEach tx pages t).mode? u p = if u = tx ∧ p ∈ pages then none else t.mode? u p := by
  unfold releaseEach
  induction pages generalizing t with
  | nil => simp
  | cons page rest ih =>
    rw [List.foldl_cons, ih, mode?_release]
    simp only [Modes.set, List.mem_cons]
    by_cases hu : u = tx <;> by_cases hp : p = page <;> simp [hu, hp]

theorem held_releaseEach {tx : TxId} (pages : List PageId) {t : LockTable}
    (h : listAt t.held tx = []) (u : TxId) :
    listAt (releaseEach tx pages t).held u = listAt t.held u := by
  unfold releaseEach
  induction pages generalizing t with
  | nil => rfl
  | cons page rest ih =>
    have hw : ∀ v, listAt (t.release tx page).2.held v = listAt t.held v := by
      intro v
      simp only [release, listAt_without]
      split
      · rename_i hv
        rw [← hv, h]
        rfl
      · rfl
    rw [List.foldl_cons, ih (by rw [hw, h]), hw]

theorem releaseEach_keeps (tx : TxId) (pages : List PageId) {t : LockTable} (hr : Filled t.shared)
    (ha : ∀ page tx, t.exclusive.get? page = some tx → listAt t.shared page = [])
    (hh : Filled t.held) :
    Filled (releaseEach tx pages t).shared ∧
    (∀ p u, (releaseEach tx pages t).exclusive.get? p = some u →
      listAt (releaseEach tx pages t).shared p = []) ∧
    Filled (releaseEach tx pages t).held := by
  unfold releaseEach
  induction pages generalizing t with
  | nil => exact ⟨hr, ha, hh⟩
  | cons page rest ih =>
    obtain ⟨hr', ha'⟩ := release_keeps tx page hr ha
    exact ih hr' ha' (filled_without hh _ _)

theorem mode?_releaseAll {t : LockTable} (h : WellKept t) (tx : TxId) :
    (t.releaseAll tx).2.mode? = Modes.clear t.mode? tx := by
  funext u p
  have heq : (t.releaseAll tx).2 =
      releaseEach tx (listAt t.held tx) { t with held := t.held.erase tx } := rfl
  have hsame : mode? { t with held := t.held.erase tx } u p = t.mode? u p := rfl
  rw [heq, mode?_releaseEach, hsame]
  unfold Modes.clear
  by_cases hu : u = tx
  · subst hu
    by_cases hp : p ∈ listAt t.held u
    · simp [hp]
    · have hnone : t.mode? u p = none := by
        have := (not_congr (h.indexed u p)).mp hp
        simpa using this
      simp [hnone]
  · simp [hu]

theorem releaseAll_fst {t : LockTable} (h : WellKept t) (tx : TxId) :
    (t.releaseAll tx).1 = true ↔ ∃ page, t.mode? tx page ≠ none := by
  have hiff : (t.releaseAll tx).1 = true ↔ listAt t.held tx ≠ [] := by
    simp [releaseAll]
  rw [hiff]
  constructor
  · intro hne
    obtain ⟨page, hp⟩ := List.exists_mem_of_ne_nil _ hne
    exact ⟨page, (h.indexed tx page).mp hp⟩
  · rintro ⟨page, hp⟩
    exact List.ne_nil_of_mem ((h.indexed tx page).mpr hp)

theorem wellKept_releaseAll {t : LockTable} (h : WellKept t) (tx : TxId) :
    WellKept (t.releaseAll tx).2 := by
  have hmode := mode?_releaseAll h tx
  have heq : (t.releaseAll tx).2 =
      releaseEach tx (listAt t.held tx) { t with held := t.held.erase tx } := rfl
  obtain ⟨hr, ha, hh⟩ := releaseEach_keeps tx (listAt t.held tx)
    (t := { t with held := t.held.erase tx }) h.readers h.alone (filled_erase h.pages tx)
  have hgone : listAt (t.held.erase tx) tx = [] := by simp [listAt_erase]
  refine ⟨hr, ha, hh, ?_⟩
  intro u p
  rw [hmode, heq, held_releaseEach _ hgone]
  simp only [listAt_erase, Modes.clear]
  by_cases hu : u = tx
  · simp [hu]
  · have hu' : ¬ tx = u := fun e => hu e.symm
    simp [hu, hu', h.indexed]

theorem surrender_spec {t : LockTable} (h : WellKept t) (s : Surrender) :
    ((s.run t).1 = true ↔ Modes.Gives t.mode? s) ∧
    (s.run t).2.mode? = Modes.surrender t.mode? s ∧ WellKept (s.run t).2 := by
  cases s with
  | page tx page =>
    exact ⟨release_fst t tx page, mode?_release t tx page, wellKept_release h tx page⟩
  | all tx => exact ⟨releaseAll_fst h tx, mode?_releaseAll h tx, wellKept_releaseAll h tx⟩

end LockTable

end PageStore
