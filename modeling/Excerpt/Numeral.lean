import Excerpt.Text.Digit

/-!
# Numbers in decimal

Numbers have any size, but a run of more than `maxDigits` digits is neither
read nor written. A reader counts every digit, leading zeros included; a writer
counts the digits of the magnitude. `Writable` is the bound in arithmetic.
-/

namespace Excerpt.Numeral

open Text

def maxDigits : Nat := 4300

def Writable (n : Int) : Prop := n.natAbs < Nat.pow 10 maxDigits

instance (n : Int) : Decidable (Writable n) := inferInstanceAs (Decidable (_ < _))

def value (digits : List Char) : Nat :=
  digits.foldl (fun n c => 10 * n + digitValue c) 0

theorem foldl_lt (digits : List Char) (n k : Nat) (h : n < Nat.pow 10 k) :
    digits.foldl (fun n c => 10 * n + digitValue c) n < Nat.pow 10 (k + digits.length) := by
  induction digits generalizing n k with
  | nil => exact h
  | cons c ds ih =>
    have hc := digitValue_lt_ten c
    have grows : Nat.pow 10 (k + 1) = Nat.pow 10 k * 10 := rfl
    have next := ih (10 * n + digitValue c) (k + 1) (by omega)
    rwa [Nat.add_right_comm] at next

theorem value_lt (digits : List Char) : value digits < Nat.pow 10 digits.length := by
  have h := foldl_lt digits 0 0 Nat.one_pos
  rwa [Nat.zero_add] at h

theorem value_lt_of_length_le (digits : List Char) (k : Nat) (h : digits.length ≤ k) :
    value digits < Nat.pow 10 k :=
  Nat.lt_of_lt_of_le (value_lt digits) (Nat.pow_le_pow_right (Nat.succ_pos 9) h)

/-- What is read within the limit can be written again. -/
theorem writable_value (digits : List Char) (h : digits.length ≤ maxDigits) :
    Writable (value digits) := value_lt_of_length_le digits maxDigits h

end Excerpt.Numeral
