-- The clock and the stamps of a recency stand for a list: the pages that it knows, from the
-- one used longest ago to the one used last. Every call answers and changes what it would on
-- that list. The entries of the map may stand in any order, since no two stamps are the same.
import PageStore.Recency
import Mathlib.Data.List.Nodup

namespace PageStore

namespace Recency

/-! ## Calls -/

/-- What can be asked of a recency. -/
inductive Call where
  | touch (id : PageId)
  | evict (mayGo : PageId → Bool)
  | remove (id : PageId)

namespace Call

/-- The page that has to go, if the call asks for one and there is one, and the recency after the call. -/
def run : Call → Recency → Option PageId × Recency
  | touch id, r => (none, r.touch id)
  | evict mayGo, r => r.evict mayGo
  | remove id, r => (none, r.remove id)

/-- The same on a list of pages: one that is used goes to the end, the first that may go is taken out. -/
def onList : Call → List PageId → Option PageId × List PageId
  | touch id, pages => (none, pages.erase id ++ [id])
  | evict mayGo, pages =>
    match pages.find? mayGo with
    | some id => (some id, pages.erase id)
    | none => (none, pages)
  | remove id, pages => (none, pages.erase id)

/-- The recency after these calls, the first one first. -/
def after (history : List Call) : Recency := history.foldl (fun r call => (call.run r).2) empty

/-- The list after these calls. -/
def listAfter (history : List Call) : List PageId := history.foldl (fun pages call => (call.onList pages).2) []

end Call

/-! ## Entries in the order of their stamps -/

/-- The entries from the least stamp to the greatest. No stamp is ahead of the clock. -/
structure InLine (r : Recency) (line : List (PageId × Nat)) : Prop where
  perm : line.Perm r.stamps.entries
  rising : line.Pairwise fun a b => a.2 < b.2
  past : ∀ e ∈ line, e.2 ≤ r.clock

section Lines

variable {r : Recency} {line : List (PageId × Nat)}

theorem InLine.mem_iff (h : InLine r line) {id : PageId} {stamp : Nat} :
    (id, stamp) ∈ line ↔ r.stamps.get? id = some stamp := by
  rw [h.perm.mem_iff, Assoc.mem_entries]

theorem InLine.nodup (h : InLine r line) : (line.map Prod.fst).Nodup :=
  (h.perm.map Prod.fst).nodup_iff.mpr r.stamps.nodup

theorem InLine.mem_pages_iff (h : InLine r line) {id : PageId} :
    id ∈ line.map Prod.fst ↔ (r.stamps.get? id).isSome := by
  rw [(h.perm.map Prod.fst).mem_iff, ← Assoc.mem_keys]
  rfl

theorem inLine_empty : InLine empty [] where
  perm := .refl _
  rising := .nil
  past := fun _ h => nomatch h

/-- Without a page the others stand as before. -/
theorem InLine.remove (h : InLine r line) (id : PageId) :
    InLine (r.remove id) (line.filter fun e => e.1 ≠ id) where
  perm := h.perm.filter _
  rising := h.rising.sublist List.filter_sublist
  past e he := h.past e (List.mem_filter.mp he).1

/-- A page that is used goes to the end: its new stamp is ahead of all others. -/
theorem InLine.touch (h : InLine r line) (id : PageId) :
    InLine (r.touch id) (line.filter (fun e => e.1 ≠ id) ++ [(id, r.clock + 1)]) where
  perm := ((h.remove id).perm.append_right _).trans (r.stamps.perm_insert id (r.clock + 1)).symm
  rising := by
    refine List.pairwise_append.mpr ⟨(h.remove id).rising, List.pairwise_singleton .., fun a ha b hb => ?_⟩
    obtain rfl := List.mem_singleton.mp hb
    exact Nat.lt_succ_of_le ((h.remove id).past a ha)
  past e he := by
    rcases List.mem_append.mp he with hold | hnew
    · exact Nat.le_succ_of_le ((h.remove id).past e hold)
    · rw [List.mem_singleton.mp hnew]
      exact Nat.le_refl _

/-! ## The page that goes -/

/-- The least stamp among the entries that may go is the first of these in the line, in whatever order the
entries are looked at. -/
theorem InLine.least_eq_find? (h : InLine r line) {entries : List (PageId × Nat)}
    (perm : entries.Perm r.stamps.entries) (mayGo : PageId × Nat → Bool) :
    (entries.filter mayGo).foldl older none = line.find? mayGo := by
  have hsame : (entries.filter mayGo).Perm (line.filter mayGo) := (perm.trans h.perm.symm).filter _
  cases hleast : (entries.filter mayGo).foldl older none with
  | none =>
    rw [foldl_older_eq_none hleast] at hsame
    refine (List.find?_eq_none.mpr fun e he hgo => ?_).symm
    have hmem : e ∈ line.filter mayGo := List.mem_filter.mpr ⟨he, hgo⟩
    rw [hsame.nil_eq.symm] at hmem
    cases hmem
  | some e =>
    have hmem : e ∈ entries.filter mayGo := (foldl_older_mem hleast).resolve_left nofun
    obtain ⟨hline, hgo⟩ := List.mem_filter.mp (hsame.mem_iff.mp hmem)
    obtain ⟨front, back, rfl⟩ := List.append_of_mem hline
    refine (List.find?_eq_some_iff_append.mpr ⟨hgo, front, back, rfl, fun a ha => ?_⟩).symm
    -- Whatever stands before the entry has a lesser stamp, so it must not be one that may go.
    have hlt : a.2 < e.2 := (List.pairwise_append.mp h.rising).2.2 a ha e List.mem_cons_self
    rw [Bool.not_eq_true']
    refine Bool.eq_false_iff.mpr fun hgo' => ?_
    have hle : e.2 ≤ a.2 := by
      refine (foldl_older_le hleast).2 a (hsame.mem_iff.mpr (List.mem_filter.mpr ⟨?_, hgo'⟩))
      exact List.mem_append_left _ ha
    exact absurd hlt (Nat.not_lt.mpr hle)

theorem InLine.least_page (h : InLine r line) {entries : List (PageId × Nat)}
    (perm : entries.Perm r.stamps.entries) (mayGo : PageId → Bool) :
    ((entries.filter fun e => mayGo e.1).foldl older none).map Prod.fst =
      (line.map Prod.fst).find? mayGo := by
  rw [h.least_eq_find? perm, List.find?_map]
  rfl

theorem InLine.oldest? (h : InLine r line) (mayGo : PageId → Bool) :
    r.oldest? mayGo = (line.map Prod.fst).find? mayGo := h.least_page (.refl _) mayGo

/-- A stamp belongs to one page only. -/
theorem InLine.eq_of_stamp (h : InLine r line) {id other : PageId} {stamp : Nat}
    (hid : r.stamps.get? id = some stamp) (hother : r.stamps.get? other = some stamp) : id = other := by
  have hstamps : (line.map Prod.snd).Nodup := List.pairwise_map.mpr (h.rising.imp Nat.ne_of_lt)
  have hsame := List.inj_on_of_nodup_map hstamps (h.mem_iff.mpr hid) (h.mem_iff.mpr hother) rfl
  exact congrArg Prod.fst hsame

end Lines

/-! ## The list -/

/-- The stamps stand for this list of pages. -/
def StandsFor (r : Recency) (pages : List PageId) : Prop := ∃ line, InLine r line ∧ line.map Prod.fst = pages

section Lists

variable {r : Recency} {pages : List PageId}

theorem standsFor_empty : StandsFor empty [] := ⟨[], inLine_empty, rfl⟩

theorem StandsFor.remove (h : StandsFor r pages) (id : PageId) : StandsFor (r.remove id) (pages.erase id) := by
  obtain ⟨line, hline, rfl⟩ := h
  exact ⟨_, hline.remove id, Assoc.keys_filter_ne hline.nodup⟩

theorem StandsFor.touch (h : StandsFor r pages) (id : PageId) : StandsFor (r.touch id) (pages.erase id ++ [id]) := by
  obtain ⟨line, hline, rfl⟩ := h
  refine ⟨_, hline.touch id, ?_⟩
  rw [List.map_append, Assoc.keys_filter_ne hline.nodup]
  rfl

theorem StandsFor.oldest? (h : StandsFor r pages) (mayGo : PageId → Bool) :
    r.oldest? mayGo = pages.find? mayGo := by
  obtain ⟨line, hline, rfl⟩ := h
  exact hline.oldest? mayGo

/-- Nothing happens exactly when no page of the list may go. -/
theorem StandsFor.evict_none_iff (h : StandsFor r pages) (mayGo : PageId → Bool) :
    r.evict mayGo = (none, r) ↔ ∀ id ∈ pages, mayGo id = false := by
  simp only [Recency.evict, h.oldest? mayGo]
  cases hfind : pages.find? mayGo with
  | none =>
    refine iff_of_true rfl fun id hid => ?_
    exact Bool.eq_false_iff.mpr (List.find?_eq_none.mp hfind id hid)
  | some id =>
    refine iff_of_false (fun h => nomatch congrArg Prod.fst h) fun hnone => ?_
    have hgo := hnone id (List.mem_of_find?_eq_some hfind)
    rw [List.find?_some hfind] at hgo
    cases hgo

/-- One call answers what it answers on the list, and changes the list as it says. -/
theorem StandsFor.run (h : StandsFor r pages) (call : Call) :
    (call.run r).1 = (call.onList pages).1 ∧ StandsFor (call.run r).2 (call.onList pages).2 := by
  cases call with
  | touch id => exact ⟨rfl, h.touch id⟩
  | remove id => exact ⟨rfl, h.remove id⟩
  | evict mayGo =>
    simp only [Call.run, Call.onList, Recency.evict, h.oldest? mayGo]
    cases pages.find? mayGo with
    | none => exact ⟨rfl, h⟩
    | some id => exact ⟨rfl, h.remove id⟩

theorem standsFor_foldl (h : StandsFor r pages) (history : List Call) :
    StandsFor (history.foldl (fun r call => (call.run r).2) r)
      (history.foldl (fun pages call => (call.onList pages).2) pages) := by
  induction history generalizing r pages with
  | nil => exact h
  | cons call rest ih => exact ih (h.run call).2

end Lists

/-- After every history of calls the recency answers the next call as the list does on which the same calls
were made: the pages, each once, from the one used longest ago to the one used last. It knows as many pages
as the list has. When no page of the list may go, none is given and nothing changes. No two pages have the
same stamp and no stamp is ahead of the clock, so the page that goes is the first of the list that may, in
whatever order the entries of the map are looked at. -/
theorem the_stamps_stand_for_a_list (history : List Call) :
    (∀ call : Call, (call.run (Call.after history)).1 = (call.onList (Call.listAfter history)).1) ∧
    (Call.listAfter history).Nodup ∧
    (∀ id, id ∈ Call.listAfter history ↔ ((Call.after history).stamps.get? id).isSome) ∧
    (Call.after history).size = (Call.listAfter history).length ∧
    (∀ mayGo, (Call.after history).evict mayGo = (none, Call.after history) ↔
      ∀ id ∈ Call.listAfter history, mayGo id = false) ∧
    (∀ id other stamp, (Call.after history).stamps.get? id = some stamp →
      (Call.after history).stamps.get? other = some stamp → id = other) ∧
    (∀ id stamp, (Call.after history).stamps.get? id = some stamp → stamp ≤ (Call.after history).clock) ∧
    ∀ mayGo (entries : List (PageId × Nat)), entries.Perm (Call.after history).stamps.entries →
      ((entries.filter fun e => mayGo e.1).foldl older none).map Prod.fst =
        (Call.listAfter history).find? mayGo := by
  have h : StandsFor (Call.after history) (Call.listAfter history) := standsFor_foldl standsFor_empty history
  refine ⟨fun call => (h.run call).1, ?_⟩
  have hnone := h.evict_none_iff
  obtain ⟨line, hline, hpages⟩ := h
  rw [← hpages] at hnone ⊢
  refine ⟨hline.nodup, fun id => hline.mem_pages_iff, ?_, hnone, fun id other stamp => hline.eq_of_stamp,
    fun id stamp hstamp => ?_, fun mayGo entries perm => hline.least_page perm mayGo⟩
  · rw [List.length_map, hline.perm.length_eq]
    rfl
  · exact hline.past (id, stamp) (hline.mem_iff.mpr hstamp)

end Recency

end PageStore
