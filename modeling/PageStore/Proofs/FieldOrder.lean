-- The order of values, and of the keys of groups: a linear order, in which only what
-- is the same compares as equal. Everything comes from the orders of numbers and of lists.
import PageStore.Operator.Aggregate
import Mathlib.Order.Defs.Unbundled

namespace PageStore

open Std

namespace Field

theorem compare_toNat (a b : UInt8) : compare a.toNat b.toNat = compare a b := by
  change compareOfLessAndEq a.toNat b.toNat = compareOfLessAndEq a b
  simp only [compareOfLessAndEq, UInt8.lt_iff_toNat_lt, UInt8.toNat_inj]

/-- Byte strings stand in the order of lists. -/
theorem orderBytes_eq_compare (as bs : Bytes) : orderBytes as bs = compare as bs := by
  induction as generalizing bs with
  | nil => cases bs <;> rfl
  | cons a as ih =>
    cases bs with
    | nil => rfl
    | cons b bs => rw [orderBytes, compare_toNat, ih, List.compare_cons_cons]

theorem order_str (s t : String) : order (.str s) (.str t) = compare (Utf8.encode s) (Utf8.encode t) :=
  orderBytes_eq_compare _ _

instance : OrientedCmp Field.order where
  eq_swap {a b} := by
    cases a <;> cases b
    · exact OrientedOrd.eq_swap
    · rfl
    · rfl
    · rw [order_str, order_str]
      exact OrientedOrd.eq_swap

instance : TransCmp Field.order where
  isLE_trans {a b c} hab hbc := by
    cases a <;> cases b <;> cases c <;>
      first
      | exact TransOrd.isLE_trans hab hbc
      | contradiction
      | rfl
      | (rw [order_str] at hab hbc ⊢; exact TransOrd.isLE_trans hab hbc)

instance : LawfulEqCmp Field.order where
  eq_of_compare {a b} h := by
    cases a with
    | int v =>
      cases b with
      | int w => exact congrArg int (Int32.toInt_inj.mp (LawfulEqOrd.eq_of_compare h))
      | str t => cases h
    | str s =>
      cases b with
      | int w => cases h
      | str t =>
        rw [order_str] at h
        exact congrArg str (Utf8.encode_injective (LawfulEqOrd.eq_of_compare h))

end Field

namespace GroupKey

theorem order_some (a b : Field) : order (some a) (some b) = a.order b := rfl

instance : OrientedCmp GroupKey.order where
  eq_swap {a b} := by
    rcases a with _ | a <;> rcases b with _ | b
    · rfl
    · rfl
    · rfl
    · rw [order_some, order_some]
      exact OrientedCmp.eq_swap

instance : TransCmp GroupKey.order where
  isLE_trans {a b c} hab hbc := by
    rcases a with _ | a <;> rcases b with _ | b <;> rcases c with _ | c <;>
      first
      | contradiction
      | rfl
      | (rw [order_some] at hab hbc ⊢; exact TransCmp.isLE_trans hab hbc)

instance : LawfulEqCmp GroupKey.order where
  eq_of_compare {a b} h := by
    rcases a with _ | a <;> rcases b with _ | b
    · rfl
    · cases h
    · cases h
    · rw [order_some] at h
      exact congrArg some (LawfulEqCmp.eq_of_compare h)

theorem order_swap (j k : GroupKey) : order j k = (order k j).swap := OrientedCmp.eq_swap

theorem order_self (k : GroupKey) : order k k = .eq := ReflCmp.compare_self

theorem ne_of_order {j k : GroupKey} {o : Ordering} (h : order j k = o) (ho : o ≠ .eq) : j ≠ k := by
  rintro rfl
  exact ho (h.symm.trans (order_self j))

/-- One key is the other one or stands before it. -/
def AtMost (j k : GroupKey) : Prop := (order j k).isLE = true

instance : DecidableRel AtMost := fun j k => inferInstanceAs (Decidable ((order j k).isLE = true))

instance : IsTrans GroupKey AtMost := ⟨fun _ _ _ => TransCmp.isLE_trans⟩

instance : Std.Total AtMost where
  total j k := by
    unfold AtMost
    rw [order_swap k]
    cases order j k
    · exact .inl rfl
    · exact .inl rfl
    · exact .inr rfl

end GroupKey

end PageStore
