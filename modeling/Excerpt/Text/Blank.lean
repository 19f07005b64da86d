/-!
# Blank characters

The characters that may surround a number or a term without changing it, by
code point. `strip` takes them off both ends of a text; what is left neither
starts nor ends with one, and nothing else is lost.
-/

namespace Excerpt.Text

/-- Each pair is a first and a last code point. -/
def blankRanges : List (Nat × Nat) :=
  [(0x09, 0x0D), (0x1C, 0x20), (0x85, 0x85), (0xA0, 0xA0), (0x1680, 0x1680), (0x2000, 0x200A),
   (0x2028, 0x2029), (0x202F, 0x202F), (0x205F, 0x205F), (0x3000, 0x3000)]

def isBlank (c : Char) : Bool :=
  blankRanges.any (fun r => r.1 ≤ c.toNat && c.toNat ≤ r.2)

def skipBlank (cs : List Char) : List Char := cs.dropWhile isBlank

def strip (cs : List Char) : List Char := (skipBlank (skipBlank cs).reverse).reverse

theorem head_skipBlank (cs : List Char) (c : Char) (h : (skipBlank cs).head? = some c) :
    isBlank c = false := by
  induction cs with
  | nil => simp [skipBlank] at h
  | cons d r ih =>
    by_cases hd : isBlank d
    · exact ih (by simpa [skipBlank, hd] using h)
    · rw [skipBlank, List.dropWhile_cons_of_neg hd, List.head?_cons, Option.some_inj] at h
      exact h ▸ Bool.eq_false_iff.mpr hd

theorem skipBlank_eq_nil_iff (cs : List Char) : skipBlank cs = [] ↔ ∀ c ∈ cs, isBlank c := by
  induction cs with
  | nil => simp [skipBlank]
  | cons d r ih =>
    by_cases hd : isBlank d
    · rw [skipBlank, List.dropWhile_cons_of_pos hd, List.forall_mem_cons]
      exact ih.trans (and_iff_right hd).symm
    · simp [skipBlank, hd]

theorem strip_eq_nil_iff (cs : List Char) : strip cs = [] ↔ ∀ c ∈ cs, isBlank c := by
  rw [strip, List.reverse_eq_nil_iff, skipBlank_eq_nil_iff, ← skipBlank_eq_nil_iff cs]
  constructor
  · intro h
    cases hs : skipBlank cs with
    | nil => rfl
    | cons d r =>
      have hd := head_skipBlank cs d (by simp [hs])
      simp [h d (by simp [hs])] at hd
  · intro h
    simp [h]

end Excerpt.Text
