import Excerpt.Proofs.Faults
import Excerpt.Proofs.Writing

/-!
# Counting from the end is counting in the reversed input

Ranges of line numbers can be written as they are or with a minus before both
numbers. The two specifications are read differently and run differently, one
decided while the lines are read and the other behind the last of them; still
each selects of an input what the other selects of the reversed input.
-/

namespace Excerpt

open Text

variable {α : Type}

namespace Term

/-- The term `u` counts from the end what `t` counts from the start. -/
structure Mirrors (t u : Term) : Prop where
  fromStart : t.FromStart
  anchor : u.anchor = -t.anchor
  limit : u.limit = -t.limit
  step : u.step = t.step

theorem Mirrors.names_iff {t u : Term} (h : Mirrors t u) (n line : Int) :
    u.Names n line ↔ t.Names n (n + 1 - line) := by
  obtain ⟨anchor_pos, limit_pos⟩ := h.fromStart
  have place : n + -t.anchor + 1 - line + 1 = n + 1 - line - t.anchor + 1 := by omega
  simp only [Names, h.anchor, h.limit, h.step, anchor_pos, limit_pos, if_true,
    if_neg (show ¬ 0 < -t.anchor by omega), if_neg (show ¬ 0 < -t.limit by omega), place]
  refine and_congr_left fun _ => ?_
  omega

end Term

theorem itemAt_reverse (xs : List α) (line : Int) :
    itemAt xs.reverse (xs.length + 1 - line) = itemAt xs line := by
  by_cases inside : 1 ≤ line ∧ line ≤ xs.length
  · rw [itemAt, if_pos (by omega), itemAt, if_pos inside.1, List.getElem?_reverse (by omega)]
    congr 1
    omega
  · rw [itemAt_eq_none xs line (by omega), itemAt_eq_none]
    rw [List.length_reverse]
    omega

/-- The selection of mirrored terms is the selection of the reversed input, read backwards. -/
theorem materialised_mirror {ts us : List Term} (h : List.Forall₂ Term.Mirrors ts us)
    (xs : List α) :
    materialised us xs =
      ((materialised ts xs.reverse).map (fun e => ((xs.length : Int) + 1 - e.1, e.2))).reverse := by
  refine eq_of_ascends (materialised_ascends us xs) ?_ ?_
  · rw [List.pairwise_reverse, List.pairwise_map]
    refine (materialised_ascends ts xs.reverse).imp ?_
    intro e f before
    omega
  · rintro ⟨line, a⟩
    have named : (∃ u ∈ us, u.Names xs.length line) ↔
        ∃ t ∈ ts, t.Names xs.length (xs.length + 1 - line) := by
      constructor
      · rintro ⟨u, hu, names⟩
        obtain ⟨t, ht, mirrors⟩ := exists_of_mem_right h hu
        exact ⟨t, ht, (mirrors.names_iff _ line).mp names⟩
      · rintro ⟨t, ht, names⟩
        obtain ⟨u, hu, mirrors⟩ := exists_of_mem_right h.flip ht
        exact ⟨u, hu, (mirrors.names_iff _ line).mpr names⟩
    rw [mem_materialised_iff, named, ← itemAt_reverse, List.mem_reverse, List.mem_map]
    constructor
    · intro selected
      refine ⟨(xs.length + 1 - line, a), ?_, Prod.ext (by dsimp only; omega) rfl⟩
      rw [mem_materialised_iff, List.length_reverse]
      exact selected
    · rintro ⟨⟨line', a'⟩, mem, same⟩
      obtain ⟨rfl, rfl⟩ := Prod.mk.inj same
      rw [mem_materialised_iff, List.length_reverse] at mem
      rwa [show (xs.length : Int) + 1 - (xs.length + 1 - line') = line' by omega]

/-- A bound that a ring can reach has few digits. -/
theorem Numeral.writable_of_reachable {n : Int} (low : -Tail.capacityLimit < n)
    (high : n < Tail.capacityLimit) : Writable n := by
  have short : Tail.capacityLimit.natAbs ≤ Nat.pow 10 maxDigits := by decide +kernel
  unfold Tail.capacityLimit at low high short
  unfold Writable
  generalize Nat.pow 10 maxDigits = limit at short ⊢
  omega

namespace Spec

/-- Two line numbers, in either order, and a step. -/
structure Range where
  first : Nat
  second : Nat
  step : Nat
  first_pos : 0 < first
  second_pos : 0 < second
  step_pos : 0 < step

namespace Range

/-- The range with a sign before both numbers. -/
def text (sign : String) (r : Range) : String :=
  sign ++ toString r.first ++ ".." ++ sign ++ toString r.second ++ "/" ++ toString r.step

def fromStart (r : Range) : Term where
  anchor := min r.first r.second
  limit := max r.first r.second
  step := r.step
  normal := by
    have := r.first_pos
    have := r.second_pos
    unfold Term.Normal
    omega
  step_pos := r.step_pos

def fromEnd (r : Range) : Term where
  anchor := max (-r.first) (-r.second)
  limit := min (-r.first) (-r.second)
  step := r.step
  normal := by
    have := r.first_pos
    have := r.second_pos
    unfold Term.Normal
    omega
  step_pos := r.step_pos

theorem mirrors (r : Range) : r.fromStart.Mirrors r.fromEnd := by
  have := r.first_pos
  have := r.second_pos
  constructor
  · dsimp only [Term.FromStart, fromStart]
    omega
  · dsimp only [fromStart, fromEnd]
    omega
  · dsimp only [fromStart, fromEnd]
    omega
  · rfl

/-- A ring can hold as many lines as the numbers count, and the step is short enough to be read. -/
structure Reachable (r : Range) : Prop where
  first : r.first < Tail.capacityLimit
  second : r.second < Tail.capacityLimit
  step : Numeral.Writable r.step

/-- The text of the range is read as a term that a run can provide for. -/
structure Reads (sign : String) (r : Range) (t : Term) : Prop where
  plain : Plain (r.text sign).toList
  read : Term.read (r.text sign).toList = .ok t
  writable : t.Writable
  reach : -t.anchor < Tail.capacityLimit ∧ -t.limit < Tail.capacityLimit

/-- A range is read as its numbers, here `first` and `second`, stand behind their sign. -/
theorem Reachable.reads {r : Range} (h : r.Reachable) {sign : String} (first second : Int)
    {t : Term} (written : toString first = sign ++ toString r.first)
    (written' : toString second = sign ++ toString r.second)
    (size : first.natAbs = r.first ∧ second.natAbs = r.second)
    (bounds : (t.anchor, t.limit) = Shape.ordered first second) (step : t.step = r.step) :
    Reads sign r t := by
  have small : r.first < Tail.capacityLimit ∧ r.second < Tail.capacityLimit := ⟨h.first, h.second⟩
  have among := Shape.eq_or_swap_of_ordered bounds
  have short : Numeral.Writable first ∧ Numeral.Writable second :=
    ⟨Numeral.writable_of_reachable (by omega) (by omega),
      Numeral.writable_of_reachable (by omega) (by omega)⟩
  have text : (r.text sign).toList = (Shape.ofNumbers first (some second) (some r.step)).text := by
    rw [Shape.text_ofNumbers, Range.text, Shape.numbersText, Option.elim_some, Option.elim_some,
      written, written']
    simp only [String.append_assoc]
  refine ⟨?_, ?_, ?_, ?_⟩
  · rw [text]
    exact Shape.proper_ofNumbers.plain
  · rw [text]
    apply Shape.proper_ofNumbers.read_text
    · exact Shape.short_ofNumbers short.1 (by rintro n ⟨rfl⟩; exact short.2)
        (by rintro n ⟨rfl⟩; exact h.step)
    · exact Shape.means_ofNumbers bounds step
  · refine ⟨?_, ?_, ?_⟩
    · exact Numeral.writable_of_reachable (by omega) (by omega)
    · exact Numeral.writable_of_reachable (by omega) (by omega)
    · rw [step]
      exact h.step
  · omega

theorem Reachable.reads_fromStart {r : Range} (h : r.Reachable) : Reads "" r r.fromStart := by
  apply h.reads r.first r.second
  · rw [Numeral.toString_int, if_neg (by omega), Int.natAbs_natCast, String.empty_append]
  · rw [Numeral.toString_int, if_neg (by omega), Int.natAbs_natCast, String.empty_append]
  · omega
  · have := r.first_pos
    have := r.second_pos
    exact (if_pos (by omega)).symm
  · rfl

theorem Reachable.reads_fromEnd {r : Range} (h : r.Reachable) : Reads "-" r r.fromEnd := by
  have first := r.first_pos
  have second := r.second_pos
  apply h.reads (-r.first) (-r.second)
  · rw [Numeral.toString_int, if_pos (by omega), Int.natAbs_neg, Int.natAbs_natCast]
  · rw [Numeral.toString_int, if_pos (by omega), Int.natAbs_neg, Int.natAbs_natCast]
  · omega
  · exact (if_neg (by omega)).symm
  · rfl

end Range

/-- The ranges as one specification. -/
def ranges (sign : String) (rs : List Range) : String := ",".intercalate (rs.map (Range.text sign))

section Reads

variable {sign : String} {term : Range → Term} {rs : List Range}
  (reads : ∀ r ∈ rs, r.Reads sign (term r))

include reads

theorem parse_ranges (nonempty : rs ≠ []) : parse (ranges sign rs) = .ok (rs.map term) := by
  apply parse_join (by simpa using nonempty)
  · intro written mem
    obtain ⟨r, hr, rfl⟩ := List.mem_map.mp mem
    exact (reads r hr).plain
  · rw [List.forall₂_map_left_iff, List.forall₂_map_right_iff]
    exact List.forall₂_same.mpr fun r hr => (reads r hr).read

theorem feasible_ranges : Plan.Feasible (rs.map term) := by
  rw [Plan.feasible_iff]
  intro t ht
  obtain ⟨r, hr, rfl⟩ := List.mem_map.mp ht
  exact ⟨(reads r hr).writable, (reads r hr).reach⟩

/-- A run over ranges is the selection of the terms that they are read as. -/
theorem numbered_of_ranges (nonempty : rs ≠ []) (lines : List α) :
    ∃ sel, (Run.ofSpec (ranges sign rs) (Source.ofList lines)).outcome = .ok sel ∧
      sel.numbered = materialised (rs.map term) lines := by
  rw [Run.ofSpec_of_ok (parse_ranges reads nonempty)]
  exact Run.numbered_ofTerms_ofList (feasible_ranges reads) lines

end Reads

end Spec

/-- Ranges that count from the end select what the same ranges, counting from the start, select of
the reversed input, in reverse. -/
theorem Run.reversal_exchanges_ends (rs : List Spec.Range) (nonempty : rs ≠ [])
    (reachable : ∀ r ∈ rs, r.Reachable) (lines : List α) :
    ∃ fromEnd fromStart,
      (Run.ofSpec (Spec.ranges "-" rs) (Source.ofList lines)).outcome = .ok fromEnd ∧
      (Run.ofSpec (Spec.ranges "" rs) (Source.ofList lines.reverse)).outcome = .ok fromStart ∧
      fromEnd.lines = fromStart.lines.reverse := by
  obtain ⟨fromEnd, outcome, selected⟩ :=
    Spec.numbered_of_ranges (fun r hr => (reachable r hr).reads_fromEnd) nonempty lines
  obtain ⟨fromStart, outcome', selected'⟩ :=
    Spec.numbered_of_ranges (fun r hr => (reachable r hr).reads_fromStart) nonempty lines.reverse
  have mirrored : List.Forall₂ Term.Mirrors (rs.map Spec.Range.fromStart)
      (rs.map Spec.Range.fromEnd) := by
    rw [List.forall₂_map_left_iff, List.forall₂_map_right_iff]
    exact List.forall₂_same.mpr fun r _ => r.mirrors
  refine ⟨fromEnd, fromStart, outcome, outcome', ?_⟩
  calc
    fromEnd.lines = (materialised (rs.map Spec.Range.fromEnd) lines).map Prod.snd := by
      rw [Selection.lines, selected]
    _ = ((materialised (rs.map Spec.Range.fromStart) lines.reverse).map Prod.snd).reverse := by
      rw [materialised_mirror mirrored, List.map_reverse, List.map_map]
      rfl
    _ = fromStart.lines.reverse := by
      rw [Selection.lines, selected']

/-- Windows that stick out of the input on either side, in both orders of their numbers. -/
theorem Run.reversal_exchanges_ends_outside :
    ∃ fromEnd fromStart,
      (Run.ofSpec "-4..-2/2,-5..-9/1" (Source.ofList ["a", "b", "c", "d", "e", "f"])).outcome =
        .ok fromEnd ∧
      (Run.ofSpec "4..2/2,5..9/1" (Source.ofList ["f", "e", "d", "c", "b", "a"])).outcome =
        .ok fromStart ∧
      fromEnd.lines = ["a", "b", "d"] ∧ fromStart.lines = ["d", "b", "a"] := by
  obtain ⟨fromEnd, fromStart, outcome, outcome', mirrored⟩ := Run.reversal_exchanges_ends
    [⟨4, 2, 2, by decide, by decide, by decide⟩, ⟨5, 9, 1, by decide, by decide, by decide⟩]
    (List.cons_ne_nil _ _) (List.forall_mem_cons.mpr ⟨⟨by decide, by decide, by decide +kernel⟩,
      List.forall_mem_singleton.mpr ⟨by decide, by decide, by decide +kernel⟩⟩)
    ["a", "b", "c", "d", "e", "f"]
  have known : (Run.ofSpec "4..2/2,5..9/1" (Source.ofList ["f", "e", "d", "c", "b", "a"])).outcome =
      .ok ⟨[(3, "d"), (5, "b"), (6, "a")], 6, false⟩ := by decide +kernel
  obtain rfl := Except.ok.inj (outcome'.symm.trans known)
  exact ⟨fromEnd, _, outcome, outcome', mirrored, rfl⟩

end Excerpt
