-- Which page was used longest ago. Every use of a page moves a clock on and
-- stamps the page with its new time, so no two pages have one stamp.
import PageStore.Assoc
import PageStore.Id

namespace PageStore

structure Recency where
  clock : Nat := 0
  stamps : Assoc PageId Nat := .empty
  deriving Repr, DecidableEq

namespace Recency

def empty : Recency := {}

/-- Notes a use of a page. -/
def touch (r : Recency) (id : PageId) : Recency :=
  { clock := r.clock + 1, stamps := r.stamps.insert id (r.clock + 1) }

/-- Forgets a page. -/
def remove (r : Recency) (id : PageId) : Recency := { r with stamps := r.stamps.erase id }

/-- The entry with the lesser stamp. -/
def older (best : Option (PageId × Nat)) (e : PageId × Nat) : Option (PageId × Nat) :=
  match best with
  | some b => if e.2 < b.2 then some e else some b
  | none => some e

/-- The page whose last use is longest ago among those that may go. -/
def oldest? (r : Recency) (mayGo : PageId → Bool) : Option PageId :=
  ((r.stamps.entries.filter fun e => mayGo e.1).foldl older none).map Prod.fst

/-- Picks the page that has to go, and forgets it. -/
def evict (r : Recency) (mayGo : PageId → Bool) : Option PageId × Recency :=
  match r.oldest? mayGo with
  | some id => (some id, r.remove id)
  | none => (none, r)

def size (r : Recency) : Nat := r.stamps.size

theorem foldl_older_mem {l : List (PageId × Nat)} {best : Option (PageId × Nat)} {e : PageId × Nat}
    (h : l.foldl older best = some e) : best = some e ∨ e ∈ l := by
  induction l generalizing best with
  | nil => exact Or.inl h
  | cons x rest ih =>
    rcases ih h with hb | hr
    · cases best with
      | none =>
        cases hb
        exact Or.inr (List.mem_cons_self ..)
      | some b =>
        simp only [older] at hb
        split at hb
        · cases hb
          exact Or.inr (List.mem_cons_self ..)
        · exact Or.inl hb
    · exact Or.inr (List.mem_cons_of_mem _ hr)

theorem foldl_older_le {l : List (PageId × Nat)} {best : Option (PageId × Nat)} {e : PageId × Nat}
    (h : l.foldl older best = some e) :
    (∀ b, best = some b → e.2 ≤ b.2) ∧ ∀ x ∈ l, e.2 ≤ x.2 := by
  induction l generalizing best with
  | nil => exact ⟨fun b hb => by simp_all, by simp⟩
  | cons x rest ih =>
    obtain ⟨hbest, hrest⟩ := ih h
    cases best with
    | none => exact ⟨by simp, List.forall_mem_cons.mpr ⟨hbest x rfl, hrest⟩⟩
    | some b =>
      simp only [older] at hbest
      split at hbest
      · have hx := hbest x rfl
        exact ⟨by rintro _ ⟨⟩; omega, List.forall_mem_cons.mpr ⟨hx, hrest⟩⟩
      · have hb := hbest b rfl
        exact ⟨by rintro _ ⟨⟩; exact hb, List.forall_mem_cons.mpr ⟨by omega, hrest⟩⟩

theorem foldl_older_eq_none {l : List (PageId × Nat)} {best : Option (PageId × Nat)}
    (h : l.foldl older best = none) : l = [] := by
  induction l generalizing best with
  | nil => rfl
  | cons x rest ih =>
    obtain rfl := ih h
    cases best with
    | none => cases h
    | some b =>
      simp only [List.foldl_cons, older] at h
      split at h <;> cases h

/-- The page that goes is one that may go. -/
theorem mayGo_of_oldest? {r : Recency} {mayGo : PageId → Bool} {id : PageId}
    (h : r.oldest? mayGo = some id) : mayGo id = true := by
  obtain ⟨e, he, rfl⟩ := Option.map_eq_some_iff.mp h
  rcases foldl_older_mem he with hn | hm
  · cases hn
  · exact (List.mem_filter.mp hm).2

/-- No page that may go has a lesser stamp than the page that goes. -/
theorem stamp_le_of_oldest? {r : Recency} {mayGo : PageId → Bool} {id : PageId}
    (h : r.oldest? mayGo = some id) : ∃ stamp, r.stamps.get? id = some stamp ∧
      ∀ other t, r.stamps.get? other = some t → mayGo other = true → stamp ≤ t := by
  obtain ⟨⟨_, stamp⟩, he, rfl⟩ := Option.map_eq_some_iff.mp h
  refine ⟨stamp, ?_, fun other t hother hgo => ?_⟩
  · rcases foldl_older_mem he with hn | hm
    · cases hn
    · exact Assoc.mem_entries.mp (List.mem_filter.mp hm).1
  · exact (foldl_older_le he).2 (other, t) (List.mem_filter.mpr ⟨Assoc.mem_entries.mpr hother, hgo⟩)

theorem oldest?_eq_none {r : Recency} {mayGo : PageId → Bool} (h : r.oldest? mayGo = none)
    {other : PageId} {t : Nat} (hother : r.stamps.get? other = some t) : mayGo other = false := by
  have hnil := foldl_older_eq_none (Option.map_eq_none_iff.mp h)
  refine Bool.eq_false_iff.mpr fun hgo => ?_
  have hmem : (other, t) ∈ r.stamps.entries.filter fun e => mayGo e.1 :=
    List.mem_filter.mpr ⟨Assoc.mem_entries.mpr hother, hgo⟩
  rw [hnil] at hmem
  cases hmem

end Recency

end PageStore
