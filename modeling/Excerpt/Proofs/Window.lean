import Mathlib.Algebra.Order.Ring.Int
import Excerpt.Proofs.Naming

/-!
# Windows and what they select

Once the total is known a term is a window of lines, and every line has a place,
counted from the anchor. The anchor is the first line of the window if the places
run forwards, and the last one if they run backwards. A mixed term that ends
before its anchor is reversed: there too the anchor is the last line, but places
run forwards, so those before the anchor are not positive. In each case the term
selects a progression that begins at the anchor.
-/

namespace Excerpt

namespace Term

theorem fromStart_or_fromEnd_or_mixed (t : Term) : t.FromStart ∨ t.FromEnd ∨ t.Mixed := by
  have ordered := t.normal
  unfold Normal at ordered
  unfold FromStart FromEnd Mixed
  omega

/-- A mixed term that ends before its anchor. -/
def Reversed (t : Term) (n : Int) : Prop := t.Mixed ∧ n + t.limit + 1 < t.anchor

instance (t : Term) (n : Int) : Decidable (t.Reversed n) := inferInstanceAs (Decidable (_ ∧ _))

section Window

variable {t : Term} {n : Int}

theorem window_of_fromEnd (h : t.FromEnd) :
    t.window n = (n + t.limit + 1, n + t.anchor + 1) := by
  have ordered := t.normal
  unfold Normal at ordered
  unfold FromEnd at h
  rw [window, lineOf_of_neg h.1, lineOf_of_neg h.2]
  split
  · exact Prod.ext (by omega) (by omega)
  · rfl

theorem window_of_mixed (h : t.Mixed) (forward : t.anchor ≤ n + t.limit + 1) :
    t.window n = (t.anchor, n + t.limit + 1) := by
  rw [window, lineOf_of_pos h.1, lineOf_of_neg h.2]
  exact if_pos forward

theorem window_of_reversed (h : t.Reversed n) : t.window n = (n + t.limit + 1, t.anchor) := by
  obtain ⟨⟨start, endless⟩, back⟩ := h
  rw [window, lineOf_of_pos start, lineOf_of_neg endless]
  exact if_neg (not_le_of_gt back)

theorem place_of_anchor_pos (h : 0 < t.anchor) (i : Int) : t.place i n = i - t.anchor + 1 :=
  if_pos h

theorem place_of_fromEnd (h : t.FromEnd) (i : Int) : t.place i n = n + t.anchor + 1 - i + 1 :=
  if_neg (not_lt_of_gt h.1)

end Window

/-- The places run forwards from the first line of the window, backwards from the last one, or, in
a reversed term, forwards to the last one. -/
theorem place_cases (t : Term) (n : Int) :
    (¬ t.Reversed n ∧ ∀ i, t.place i n = i - (t.window n).1 + 1) ∨
    (¬ t.Reversed n ∧ ∀ i, t.place i n = (t.window n).2 - i + 1) ∨
    (t.Reversed n ∧ ∀ i, t.place i n = i - (t.window n).2 + 1) := by
  by_cases reversed : t.Reversed n
  · right; right
    rw [window_of_reversed reversed]
    exact ⟨reversed, place_of_anchor_pos reversed.1.1⟩
  rcases t.fromStart_or_fromEnd_or_mixed with known | late | mixed
  · left
    rw [window_of_fromStart known]
    exact ⟨reversed, place_of_anchor_pos known.1⟩
  · right; left
    rw [window_of_fromEnd late]
    exact ⟨reversed, place_of_fromEnd late⟩
  · left
    rw [window_of_mixed mixed (le_of_not_gt fun back => reversed ⟨mixed, back⟩)]
    exact ⟨reversed, place_of_anchor_pos mixed.1⟩

theorem pos_multiple_iff {p : Int} {s : Nat} (pos : 0 < s) :
    (0 < p ∧ p % s = 0) ↔ ∃ k : Nat, 1 ≤ k ∧ p = k * s := by
  constructor
  · rintro ⟨above, multiple⟩
    obtain ⟨k, rfl⟩ := Int.dvd_of_emod_eq_zero multiple
    have least : 0 < k := (mul_pos_iff_of_pos_left (Int.natCast_pos.mpr pos)).mp above
    obtain ⟨k, rfl⟩ := Int.eq_ofNat_of_zero_le least.le
    exact ⟨k, by omega, Int.mul_comm _ _⟩
  · rintro ⟨k, least, rfl⟩
    exact ⟨Int.mul_pos (by omega) (by omega), Int.mul_emod_left _ _⟩

theorem nonpos_multiple_iff {p : Int} {s : Nat} (pos : 0 < s) :
    (p ≤ 0 ∧ p % s = 0) ↔ ∃ k : Nat, p = -(k * s) := by
  constructor
  · rintro ⟨below, multiple⟩
    obtain ⟨k, rfl⟩ := Int.dvd_of_emod_eq_zero multiple
    have nonpos : 0 ≤ -k := by
      rw [← mul_nonneg_iff_of_pos_left (Int.natCast_pos.mpr pos), Int.mul_neg]
      omega
    obtain ⟨j, away⟩ := Int.eq_ofNat_of_zero_le nonpos
    exact ⟨j, by rw [← away, Int.neg_mul, Int.neg_neg, Int.mul_comm]⟩
  · rintro ⟨k, rfl⟩
    have nonneg : (0 : Int) ≤ k * s := Int.mul_nonneg (by omega) (by omega)
    exact ⟨by omega, by rw [← Int.neg_mul]; exact Int.mul_emod_left _ _⟩

section Selects

variable {t : Term} {n : Int}

theorem selects_iff_of_forward {last : Int} (start : 0 < t.anchor)
    (window : t.window n = (t.anchor, last)) (i : Int) :
    t.Selects n i ↔ ∃ k : Nat, 1 ≤ k ∧ i = t.anchor - 1 + k * t.step ∧ i ≤ min last n := by
  rw [Selects, window, place_of_anchor_pos start]
  constructor
  · rintro ⟨inside, between, onStep⟩
    obtain ⟨k, least, place⟩ := (pos_multiple_iff t.step_pos).mp ⟨by omega, onStep⟩
    exact ⟨k, least, by omega, by omega⟩
  · rintro ⟨k, least, line, high⟩
    obtain ⟨pos, onStep⟩ := (pos_multiple_iff (p := i - t.anchor + 1) t.step_pos).mpr
      ⟨k, least, by omega⟩
    exact ⟨⟨by omega, by omega⟩, ⟨by omega, by omega⟩, onStep⟩

theorem selects_iff_of_fromEnd (h : t.FromEnd) (i : Int) :
    t.Selects n i ↔ ∃ k : Nat, 1 ≤ k ∧ i = n + t.anchor + 2 - k * t.step ∧
      max 1 (n + t.limit + 1) ≤ i := by
  have behind := h.1
  rw [Selects, window_of_fromEnd h, place_of_fromEnd h]
  constructor
  · rintro ⟨inside, between, onStep⟩
    obtain ⟨k, least, place⟩ := (pos_multiple_iff t.step_pos).mp ⟨by omega, onStep⟩
    exact ⟨k, least, by omega, by omega⟩
  · rintro ⟨k, least, line, low⟩
    obtain ⟨pos, onStep⟩ :=
      (pos_multiple_iff (p := n + t.anchor + 1 - i + 1) t.step_pos).mpr ⟨k, least, by omega⟩
    exact ⟨⟨by omega, by omega⟩, ⟨by omega, by omega⟩, onStep⟩

/-- The anchor has place 1, which is on no step but 1. -/
theorem selects_iff_of_reversed (h : t.Reversed n) (i : Int) :
    t.Selects n i ↔
      ((∃ k : Nat, i = t.anchor - 1 - k * t.step) ∨ i = t.anchor ∧ t.step = 1) ∧
        max 1 (n + t.limit + 1) ≤ i ∧ i ≤ n := by
  have pos := t.step_pos
  rw [Selects, window_of_reversed h, place_of_anchor_pos h.1.1]
  constructor
  · rintro ⟨inside, between, onStep⟩
    refine ⟨?_, by omega, inside.2⟩
    by_cases first : i = t.anchor
    · right
      subst first
      rw [Int.sub_self, Int.zero_add] at onStep
      exact ⟨rfl, by simpa using Int.natAbs_dvd_natAbs.mpr (Int.dvd_of_emod_eq_zero onStep)⟩
    · left
      obtain ⟨k, place⟩ := (nonpos_multiple_iff pos).mp ⟨by omega, onStep⟩
      exact ⟨k, by omega⟩
  · rintro ⟨⟨k, line⟩ | ⟨rfl, one⟩, low, high⟩
    · obtain ⟨before, onStep⟩ :=
        (nonpos_multiple_iff (p := i - t.anchor + 1) pos).mpr ⟨k, by omega⟩
      exact ⟨⟨by omega, high⟩, ⟨by omega, by omega⟩, onStep⟩
    · refine ⟨⟨by omega, high⟩, ⟨by omega, le_rfl⟩, ?_⟩
      rw [one]
      exact Int.emod_one _

end Selects

end Term

/-- The lines that a term selects, as a progression. Between two bounds from the start it begins a
step behind the line before the anchor and goes up; between two bounds from the end it begins a step
before the line behind the anchor and goes down. A mixed term goes up to its end. If it ends before
its anchor it goes down from the line before the anchor, and only a step of 1 selects the anchor. -/
theorem Term.selects_progression (t : Term) (n : Int) :
    (t.FromStart → ∀ i, t.Selects n i ↔
      ∃ k : Nat, 1 ≤ k ∧ i = t.anchor - 1 + k * t.step ∧ i ≤ min t.limit n) ∧
    (t.FromEnd → ∀ i, t.Selects n i ↔
      ∃ k : Nat, 1 ≤ k ∧ i = n + t.anchor + 2 - k * t.step ∧ max 1 (n + t.limit + 1) ≤ i) ∧
    (t.Mixed → t.anchor ≤ n + t.limit + 1 → ∀ i, t.Selects n i ↔
      ∃ k : Nat, 1 ≤ k ∧ i = t.anchor - 1 + k * t.step ∧ i ≤ n + t.limit + 1) ∧
    (t.Mixed → n + t.limit + 1 < t.anchor → ∀ i, t.Selects n i ↔
      ((∃ k : Nat, i = t.anchor - 1 - k * t.step) ∨ i = t.anchor ∧ t.step = 1) ∧
        max 1 (n + t.limit + 1) ≤ i ∧ i ≤ n) := by
  refine ⟨?_, ?_, ?_, ?_⟩
  · intro known
    exact Term.selects_iff_of_forward known.1 (Term.window_of_fromStart known)
  · exact Term.selects_iff_of_fromEnd
  · intro mixed forward i
    have before : min (n + t.limit + 1) n = n + t.limit + 1 := min_eq_left (by
      have endless := mixed.2
      omega)
    rw [Term.selects_iff_of_forward mixed.1 (Term.window_of_mixed mixed forward), before]
  · intro mixed back
    exact Term.selects_iff_of_reversed ⟨mixed, back⟩

/-- One term of each kind over ten lines. -/
theorem Term.selects_progression_kinds :
    Term.Selects ⟨2, 20, 3, by decide, by decide⟩ 10 10 ∧
    Term.Selects ⟨-2, -20, 4, by decide, by decide⟩ 10 2 ∧
    Term.Selects ⟨3, -2, 2, by decide, by decide⟩ 10 8 ∧
    Term.Selects ⟨20, -9, 7, by decide, by decide⟩ 10 5 ∧
    ¬ Term.Selects ⟨9, -4, 2, by decide, by decide⟩ 10 9 := by
  refine ⟨?_, ?_, ?_, ?_, ?_⟩
  · exact ((Term.selects_progression _ _).1 (by decide) _).mpr ⟨3, by decide⟩
  · exact ((Term.selects_progression _ _).2.1 (by decide) _).mpr ⟨2, by decide⟩
  · exact ((Term.selects_progression _ _).2.2.1 (by decide) (by decide) _).mpr ⟨3, by decide⟩
  · exact ((Term.selects_progression _ _).2.2.2 (by decide) (by decide) _).mpr
      ⟨.inl ⟨2, by decide⟩, by decide⟩
  · intro selected
    obtain ⟨⟨k, line⟩ | ⟨-, one⟩, -⟩ :=
      ((Term.selects_progression _ _).2.2.2 (by decide) (by decide) _).mp selected
    · dsimp only at line
      omega
    · exact absurd one (by decide)

end Excerpt
