/-!
# Decimal digits

The decimal digits of all scripts. They stand in runs of ten code points whose
values ascend from zero to nine, so a table of the zeros describes them all.
Digits of different scripts may stand in one number.
-/

namespace Excerpt.Text

/-- The code points of the digits that mean zero. -/
def zeroDigits : List Nat :=
  [0x30, 0x660, 0x6F0, 0x7C0, 0x966, 0x9E6, 0xA66, 0xAE6, 0xB66, 0xBE6, 0xC66, 0xCE6, 0xD66, 0xDE6,
   0xE50, 0xED0, 0xF20, 0x1040, 0x1090, 0x17E0, 0x1810, 0x1946, 0x19D0, 0x1A80, 0x1A90, 0x1B50,
   0x1BB0, 0x1C40, 0x1C50, 0xA620, 0xA8D0, 0xA900, 0xA9D0, 0xA9F0, 0xAA50, 0xABF0, 0xFF10, 0x104A0,
   0x10D30, 0x11066, 0x110F0, 0x11136, 0x111D0, 0x112F0, 0x11450, 0x114D0, 0x11650, 0x116C0,
   0x11730, 0x118E0, 0x11950, 0x11C50, 0x11D50, 0x11DA0, 0x16A60, 0x16AC0, 0x16B50, 0x1D7CE,
   0x1D7D8, 0x1D7E2, 0x1D7EC, 0x1D7F6, 0x1E140, 0x1E2F0, 0x1E950, 0x1FBF0]

def digitValue? (c : Char) : Option Nat :=
  zeroDigits.findSome? (fun z =>
    if z ≤ c.toNat ∧ c.toNat < z + 10 then some (c.toNat - z) else none)

def isDigit (c : Char) : Bool := (digitValue? c).isSome

/-- A character that is no digit counts as zero. -/
def digitValue (c : Char) : Nat := (digitValue? c).getD 0

theorem digitValue_lt_ten (c : Char) : digitValue c < 10 := by
  unfold digitValue digitValue?
  cases h : zeroDigits.findSome? _ with
  | none => simp
  | some d =>
    obtain ⟨z, _, hz⟩ := List.exists_of_findSome?_eq_some h
    split at hz
    · simp only [Option.some.injEq] at hz
      simp only [Option.getD_some]
      omega
    · simp at hz

/-- The digits that numbers are written in are among those of the table. -/
theorem digitValue?_of_isDigit (c : Char) (h : c.isDigit) :
    digitValue? c = some (c.toNat - '0'.toNat) := by
  have range : 0x30 ≤ c.toNat ∧ c.toNat < 0x30 + 10 := by
    rw [Char.isDigit, Bool.and_eq_true, decide_eq_true_eq, decide_eq_true_eq] at h
    obtain ⟨low, high⟩ := h
    exact ⟨UInt32.le_iff_toNat_le.mp low, Nat.lt_succ_of_le (UInt32.le_iff_toNat_le.mp high)⟩
  rw [digitValue?, zeroDigits, List.findSome?_cons, if_pos range]
  rfl

end Excerpt.Text
