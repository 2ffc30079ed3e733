-- Whole numbers in decimal text, read into a range. Digits are taken from the
-- left and the first thing that is wrong decides which fault is reported.

namespace PageStore.Decimal

inductive Fault where
  | empty
  | invalidDigit
  | tooLarge
  | tooSmall
  deriving Repr, DecidableEq

def Fault.message : Fault → String
  | .empty => "cannot parse integer from empty string"
  | .invalidDigit => "invalid digit found in string"
  | .tooLarge => "number too large to fit in target type"
  | .tooSmall => "number too small to fit in target type"

/-- The value of an ASCII digit. -/
def digit? (c : Char) : Option Nat :=
  if '0' ≤ c ∧ c ≤ '9' then some (c.toNat - '0'.toNat) else none

/-- One more digit behind `value`, which must stay at most `limit`. The digit is looked at before
the product is tested. -/
def push (limit : Nat) (overflow : Fault) (value : Nat) (c : Char) : Except Fault Nat :=
  match digit? c with
  | none => .error .invalidDigit
  | some d =>
    if limit < value * 10 then .error overflow
    else if limit < value * 10 + d then .error overflow
    else .ok (value * 10 + d)

def digits (limit : Nat) (overflow : Fault) (cs : List Char) : Except Fault Nat :=
  cs.foldlM (push limit overflow) 0

/-- A number from `-below` to `above`. One sign may stand in front; a minus is no sign where no
number lies below zero, and a lone sign is a bad digit. -/
def read (below above : Nat) (text : String) : Except Fault Int :=
  match text.toList with
  | [] => .error .empty
  | [c] =>
    match digit? c with
    | none => .error .invalidDigit
    | some _ => (digits above .tooLarge [c]).map Int.ofNat
  | '+' :: cs => (digits above .tooLarge cs).map Int.ofNat
  | '-' :: cs =>
    if below = 0 then .error .invalidDigit
    else (digits below .tooSmall cs).map fun n => -(n : Int)
  | cs => (digits above .tooLarge cs).map Int.ofNat

/-- A signed number of 32 bits. -/
def readInt32 (text : String) : Except Fault Int32 :=
  (read 0x80000000 0x7fffffff text).map Int32.ofInt

end PageStore.Decimal
