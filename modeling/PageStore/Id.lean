-- The numbers that name things: tables, pages, places of rows, transactions.

namespace PageStore

abbrev TableId := Nat

/-- Names one unit of work; every access to a page is made for one. -/
abbrev TxId := Nat

/-- The text of a transaction's name. -/
def TxId.text (t : TxId) : String := s!"Txn{t}"

/-- A page: its table and its place in the table's file. -/
structure PageId where
  table : TableId
  number : Nat
  deriving Repr, DecidableEq

namespace PageId

def text (p : PageId) : String := s!"{p.table}:{p.number}"

/-- By table, then by number. -/
def order (p q : PageId) : Ordering := (compare p.table q.table).then (compare p.number q.number)

instance : Ord PageId := ⟨order⟩

theorem order_eq_eq_iff (p q : PageId) : p.order q = .eq ↔ p = q := by
  cases p
  cases q
  simp [order, Ordering.then_eq_eq]

theorem order_ne_gt_iff (p q : PageId) :
    p.order q ≠ .gt ↔ p.table < q.table ∨ p.table = q.table ∧ p.number ≤ q.number := by
  unfold order
  rcases Nat.lt_trichotomy p.table q.table with h | h | h
  · simp [Nat.compare_eq_lt.mpr h, h]
  · simp [h, Nat.compare_ne_gt]
  · simp [Nat.compare_eq_gt.mpr h, Nat.lt_asymm h, Nat.ne_of_gt h]

theorem order_eq_lt_iff (p q : PageId) :
    p.order q = .lt ↔ p.table < q.table ∨ p.table = q.table ∧ p.number < q.number := by
  unfold order
  rcases Nat.lt_trichotomy p.table q.table with h | h | h
  · simp [Nat.compare_eq_lt.mpr h, h]
  · simp [h, Nat.compare_eq_lt]
  · simp [Nat.compare_eq_gt.mpr h, Nat.lt_asymm h, Nat.ne_of_gt h]

end PageId

/-- The place of a row: a page and a slot of it. -/
structure RecordId where
  page : PageId
  slot : Nat
  deriving Repr, DecidableEq

namespace RecordId

/-- By page, then by slot. -/
def order (r s : RecordId) : Ordering := (compare r.page s.page).then (compare r.slot s.slot)

instance : Ord RecordId := ⟨order⟩

theorem order_eq_lt_iff (r s : RecordId) :
    r.order s = .lt ↔ r.page.order s.page = .lt ∨ r.page = s.page ∧ r.slot < s.slot := by
  rw [order, Ordering.then_eq_lt, Nat.compare_eq_lt]
  exact or_congr_right (and_congr_left' (PageId.order_eq_eq_iff ..))

end RecordId

end PageStore
