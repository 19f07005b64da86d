import Mathlib.Data.Int.ConditionallyCompleteOrder
import Mathlib.Data.List.Range
import Mathlib.Data.List.Sort
import Mathlib.Data.Set.Function
import Mathlib.Order.Interval.Set.Basic
import Excerpt.Proofs.Window

/-!
# Places in a window

The places of the lines of a window are the numbers from 1 to their count, except
in a reversed term, where they run down from 1. The lines on the step are told as
a list: the step apart from each other, and so many as the length of the window
allows.
-/

namespace Excerpt

theorem length_interval (lo hi : Int) : (interval lo hi).length = (hi + 1 - lo).toNat := by
  rw [interval, List.length_map, List.length_range]

theorem isChain_interval (lo hi : Int) : (interval lo hi).IsChain (fun i j => j = i + 1) := by
  rw [interval, List.isChain_map, List.isChain_range]
  intro k _
  omega

theorem interval_ascends (lo hi : Int) : (interval lo hi).Pairwise (· < ·) := by
  rw [← List.isChain_iff_pairwise]
  refine (isChain_interval lo hi).imp ?_
  omega

/-- The lines of an interval that are a multiple of `s` away from `c`. -/
theorem filter_interval_eq_map (lo hi c : Int) {s : Int} (pos : 0 < s) :
    (interval lo hi).filter (fun i => (i - c) % s = 0) =
      (interval ((lo - 1 - c) / s + 1) ((hi - c) / s)).map (fun k => c + k * s) := by
  refine List.Pairwise.eq_of_mem_iff ((interval_ascends lo hi).filter _) ?_ ?_
  · rw [List.pairwise_map]
    refine (interval_ascends _ _).imp ?_
    intro j k before
    have := Int.mul_lt_mul_of_pos_right before pos
    omega
  · intro i
    have after (k : Int) : (lo - 1 - c) / s + 1 ≤ k ↔ lo ≤ c + k * s := by
      rw [Int.add_one_le_iff, Int.ediv_lt_iff_lt_mul pos]
      omega
    have before (k : Int) : k ≤ (hi - c) / s ↔ c + k * s ≤ hi := by
      rw [Int.le_ediv_iff_mul_le pos]
      omega
    simp only [List.mem_filter, List.mem_map, mem_interval, after, before, decide_eq_true_eq]
    constructor
    · rintro ⟨inside, multiple⟩
      obtain ⟨k, away⟩ := Int.dvd_of_emod_eq_zero multiple
      rw [Int.mul_comm] at away
      exact ⟨k, by omega, by omega⟩
    · rintro ⟨k, inside, rfl⟩
      exact ⟨inside, by rw [add_sub_cancel_left, Int.mul_emod_left]⟩

theorem neg_add_one_ediv (m : Int) {s : Int} (pos : 0 < s) : -(m + 1) / s = -(m / s) - 1 := by
  have nonneg := Int.emod_nonneg m pos.ne'
  have small := Int.emod_lt_of_pos m pos
  have split := Int.emod_add_mul_ediv m s
  refine ((Int.ediv_emod_unique pos (r := s - 1 - m % s)).mpr ⟨?_, by omega, by omega⟩).1
  rw [Int.mul_sub, Int.mul_neg]
  omega

theorem bijOn_of_eq_add {f : Int → Int} {c : Int} (h : ∀ i, f i = i + c) (lo hi : Int) :
    Set.BijOn f (Set.Icc lo hi) (Set.Icc (lo + c) (hi + c)) := by
  refine ⟨?_, ?_, ?_⟩
  · intro i inside
    rw [Set.mem_Icc] at inside ⊢
    rw [h]
    omega
  · intro i _ j _ same
    rw [h, h] at same
    omega
  · intro p inside
    rw [Set.mem_Icc] at inside
    exact ⟨p - c, by rw [Set.mem_Icc]; omega, by rw [h]; omega⟩

theorem bijOn_of_eq_sub {f : Int → Int} {c : Int} (h : ∀ i, f i = c - i) (lo hi : Int) :
    Set.BijOn f (Set.Icc lo hi) (Set.Icc (c - hi) (c - lo)) := by
  refine ⟨?_, ?_, ?_⟩
  · intro i inside
    rw [Set.mem_Icc] at inside ⊢
    rw [h]
    omega
  · intro i _ j _ same
    rw [h, h] at same
    omega
  · intro p inside
    rw [Set.mem_Icc] at inside
    exact ⟨c - p, by rw [Set.mem_Icc]; omega, by rw [h]; omega⟩

namespace Term

/-- How many lines the window has. -/
def extent (t : Term) (n : Int) : Int := (t.window n).2 - (t.window n).1 + 1

/-- The lines of the window that are on the step. -/
def stepped (t : Term) (n : Int) : List Int :=
  (interval (t.window n).1 (t.window n).2).filter (fun i => t.onStep i (some n) = .ok true)

section Stepped

variable {t : Term} {n c : Int} (h : ∀ i, t.place i n % t.step = 0 ↔ (i - c) % t.step = 0)

include h

theorem stepped_eq_map :
    t.stepped n =
      (interval (((t.window n).1 - 1 - c) / t.step + 1) (((t.window n).2 - c) / t.step)).map
        (fun k => c + k * t.step) := by
  rw [← filter_interval_eq_map _ _ _ (Int.natCast_pos.mpr t.step_pos), stepped]
  apply List.filter_congr
  intro i _
  rw [onStep_some]
  simp only [Except.ok.injEq, decide_eq_true_eq, h]

theorem isChain_stepped_of : (t.stepped n).IsChain (fun i j : Int => j = i + t.step) := by
  rw [stepped_eq_map h, List.isChain_map]
  refine (isChain_interval _ _).imp ?_
  rintro j _ rfl
  rw [Int.add_mul, Int.one_mul, Int.add_assoc]

theorem length_stepped_of :
    ((t.stepped n).length : Int) =
      ((t.window n).2 - c) / t.step - ((t.window n).1 - 1 - c) / t.step := by
  have ordered := t.window_fst_le_snd n
  have grows : ((t.window n).1 - 1 - c) / t.step ≤ ((t.window n).2 - c) / t.step :=
    Int.ediv_le_ediv (Int.natCast_pos.mpr t.step_pos) (by omega)
  rw [stepped_eq_map h, List.length_map, length_interval]
  omega

end Stepped

/-- The lines on the step are multiples of it away from the line before the window, from the line
behind it, or, in a reversed term, from the line before the last one. -/
theorem exists_origin (t : Term) (n : Int) :
    ∃ c, (∀ i, t.place i n % t.step = 0 ↔ (i - c) % t.step = 0) ∧
      (¬ t.Reversed n ∧ (c = (t.window n).1 - 1 ∨ c = (t.window n).2 + 1) ∨
        t.Reversed n ∧ c = (t.window n).2 - 1) := by
  obtain ⟨forward, place⟩ | ⟨forward, place⟩ | ⟨reversed, place⟩ := t.place_cases n
  · refine ⟨(t.window n).1 - 1, ?_, .inl ⟨forward, .inl rfl⟩⟩
    intro i
    rw [place, show i - (t.window n).1 + 1 = i - ((t.window n).1 - 1) by omega]
  · refine ⟨(t.window n).2 + 1, ?_, .inl ⟨forward, .inr rfl⟩⟩
    intro i
    rw [place, show (t.window n).2 - i + 1 = -(i - ((t.window n).2 + 1)) by omega,
      ← Int.dvd_iff_emod_eq_zero, ← Int.dvd_iff_emod_eq_zero, Int.dvd_neg]
  · refine ⟨(t.window n).2 - 1, ?_, .inr ⟨reversed, rfl⟩⟩
    intro i
    rw [place, show i - (t.window n).2 + 1 = i - ((t.window n).2 - 1) by omega]

theorem isChain_stepped (t : Term) (n : Int) :
    (t.stepped n).IsChain (fun i j : Int => j = i + t.step) := by
  obtain ⟨c, same, -⟩ := t.exists_origin n
  exact isChain_stepped_of same

theorem length_stepped (t : Term) (n : Int) :
    ((t.stepped n).length : Int) =
      if t.Reversed n ∧ t.step ≠ 1 then (t.extent n - 2) / t.step + 1
      else t.extent n / t.step := by
  have pos : (0 : Int) < t.step := Int.natCast_pos.mpr t.step_pos
  obtain ⟨c, same, ⟨forward, rfl | rfl⟩ | ⟨reversed, rfl⟩⟩ := t.exists_origin n
  · have ends : (t.window n).2 - ((t.window n).1 - 1) = t.extent n := by
      unfold extent
      omega
    rw [length_stepped_of same, if_neg (fun h => forward h.1), ends, Int.sub_self, Int.zero_ediv,
      Int.sub_zero]
  · have ends : (t.window n).2 - ((t.window n).2 + 1) = -(0 + 1) := by omega
    have begins : (t.window n).1 - 1 - ((t.window n).2 + 1) = -(t.extent n + 1) := by
      unfold extent
      omega
    rw [length_stepped_of same, if_neg (fun h => forward h.1), ends, begins,
      neg_add_one_ediv _ pos, neg_add_one_ediv _ pos, Int.zero_ediv]
    omega
  · have ends : (t.window n).2 - ((t.window n).2 - 1) = 1 := by omega
    have begins : (t.window n).1 - 1 - ((t.window n).2 - 1) = -(t.extent n - 2 + 1) := by
      unfold extent
      omega
    rw [length_stepped_of same, ends, begins, neg_add_one_ediv _ pos]
    by_cases one : t.step = 1
    · rw [if_neg (fun h => h.2 one), one, Int.natCast_one, Int.ediv_one, Int.ediv_one, Int.ediv_one]
      omega
    · rw [if_pos ⟨reversed, one⟩, Int.ediv_eq_zero_of_lt (by omega) (by omega)]
      omega

theorem bijOn_place (t : Term) (n : Int) :
    Set.BijOn (fun i => t.place i n) (Set.Icc (t.window n).1 (t.window n).2)
      (if t.Reversed n then Set.Icc (2 - t.extent n) 1 else Set.Icc 1 (t.extent n)) := by
  unfold extent
  obtain ⟨forward, place⟩ | ⟨forward, place⟩ | ⟨reversed, place⟩ := t.place_cases n
  · have shifted := bijOn_of_eq_add (f := fun i => t.place i n) (c := 1 - (t.window n).1)
      (fun i => by rw [place]; omega) (t.window n).1 (t.window n).2
    rw [if_neg forward]
    convert shifted using 2
    · omega
    · omega
  · have mirrored := bijOn_of_eq_sub (f := fun i => t.place i n) (c := (t.window n).2 + 1)
      (fun i => by rw [place]; omega) (t.window n).1 (t.window n).2
    rw [if_neg forward]
    convert mirrored using 2
    · omega
    · omega
  · have shifted := bijOn_of_eq_add (f := fun i => t.place i n) (c := 1 - (t.window n).2)
      (fun i => by rw [place]; omega) (t.window n).1 (t.window n).2
    rw [if_pos reversed]
    convert shifted using 2
    · omega
    · omega

theorem two_le_extent_of_reversed {t : Term} {n : Int} (h : t.Reversed n) : 2 ≤ t.extent n := by
  have back := h.2
  rw [extent, window_of_reversed h]
  dsimp only
  omega

/-- The place of the last line but the anchor is not in a window of a reversed term. -/
theorem not_bijOn_of_reversed {t : Term} {n : Int} (h : t.Reversed n) :
    ¬ Set.BijOn (fun i => t.place i n) (Set.Icc (t.window n).1 (t.window n).2)
      (Set.Icc 1 (t.extent n)) := by
  intro onto
  have lines := two_le_extent_of_reversed h
  have back := t.bijOn_place n
  rw [if_pos h] at back
  have same : Set.Icc (2 - t.extent n) 1 = Set.Icc 1 (t.extent n) :=
    back.image_eq.symm.trans onto.image_eq
  have last : t.extent n ∈ Set.Icc (2 - t.extent n) 1 := by
    rw [same, Set.mem_Icc]
    omega
  rw [Set.mem_Icc] at last
  omega

end Term

/-- Each line of the window has a place from 1 to the number of lines, each of them once, a step of
`s` keeps one line in `s`, rounded down, and two lines that are kept one after the other lie `s`
apart: this is so exactly if the term does not end before its anchor. If it does, the places run
from 1 down, and a step of two lines or more keeps the line before the anchor and every `s`-th line
before that. -/
theorem Term.places_fill_window_iff (t : Term) (n : Int) :
    (∀ i, t.position i (some n) = .ok (t.place i n)) ∧
    ((Set.BijOn (fun i => t.place i n) (Set.Icc (t.window n).1 (t.window n).2)
          (Set.Icc 1 (t.extent n)) ∧
        ((t.stepped n).length : Int) = t.extent n / t.step ∧
        (t.stepped n).IsChain (fun i j : Int => j = i + t.step)) ↔ ¬ t.Reversed n) ∧
    Set.BijOn (fun i => t.place i n) (Set.Icc (t.window n).1 (t.window n).2)
      (if t.Reversed n then Set.Icc (2 - t.extent n) 1 else Set.Icc 1 (t.extent n)) ∧
    ((t.stepped n).length : Int) =
      (if t.Reversed n ∧ t.step ≠ 1 then (t.extent n - 2) / t.step + 1
        else t.extent n / t.step) ∧
    (t.stepped n).IsChain (fun i j : Int => j = i + t.step) := by
  have places := t.bijOn_place n
  have count := t.length_stepped n
  refine ⟨fun i => t.position_some i n, ⟨?_, ?_⟩, places, count, t.isChain_stepped n⟩
  · rintro ⟨fills, -⟩ reversed
    exact not_bijOn_of_reversed reversed fills
  · intro forward
    rw [if_neg forward] at places
    rw [if_neg (fun h => forward h.1)] at count
    exact ⟨places, count, t.isChain_stepped n⟩

/-- A term that ends one line before its anchor: the places of its two lines are 0 and 1, and a step
of three keeps one of them. -/
theorem Term.places_miss_window_reversed :
    (Term.window ⟨5, -3, 3, by decide, by decide⟩ 6) = (4, 5) ∧
    Term.position ⟨5, -3, 3, by decide, by decide⟩ 4 (some 6) = .ok 0 ∧
    ¬ Set.BijOn (fun i => Term.place ⟨5, -3, 3, by decide, by decide⟩ i 6)
      (Set.Icc 4 5) (Set.Icc 1 2) ∧
    Term.stepped ⟨5, -3, 3, by decide, by decide⟩ 6 = [4] ∧ (2 : Int) / 3 = 0 := by
  refine ⟨rfl, rfl, ?_, by decide, by decide⟩
  intro fills
  have place : (0 : Int) ∈ Set.Icc 1 2 := fills.mapsTo (show (4 : Int) ∈ Set.Icc 4 5 by decide)
  exact absurd place.1 (by decide)

end Excerpt
