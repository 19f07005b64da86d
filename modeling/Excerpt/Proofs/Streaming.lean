import Excerpt.Proofs.Correction
import Excerpt.Proofs.Naming
import Excerpt.Run

/-!
# A streamed run is the materialised selection

A run takes each line once, holds only the last few, and may stop before the
end. Its outcome is nevertheless told by the lines that it took: the pass is
exact before the lines that the tail holds, and the correction decides the rest.
-/

namespace Excerpt

variable {α : Type}

namespace Pass

/-- Where wanting a line is the same as selecting it, the pass needs no correction. -/
theorem Reads.kept_of_wants_iff {terms : List Term} {capacity : Nat} {stopped : Bool}
    {xs : List α} {p : Pass α} (h : p.Reads terms capacity stopped xs) (line : Int)
    (same : 1 ≤ line ∧ line ≤ xs.length →
      ∀ t ∈ terms, t.Wants line ↔ t.Selects xs.length line) :
    p.kept[line]? = if ∃ t ∈ terms, t.Selects xs.length line then itemAt xs line else none := by
  rw [h.kept]
  by_cases inside : 1 ≤ line ∧ line ≤ xs.length
  · refine if_congr ?_ rfl rfl
    exact exists_congr fun t => and_congr_right fun ht => same inside t ht
  · rw [itemAt_eq_none xs line (by omega), ite_self, ite_self]

theorem Reads.heldAt_of_open {terms : List Term} {capacity : Nat} {stopped : Bool}
    {xs : List α} {p : Pass α} (h : p.Reads terms capacity stopped xs) (line : Int)
    (open_ : p.Open line) : p.heldAt (xs.rtake capacity) line = itemAt xs line := by
  have start := h.tail.startLine p.total
  have last := h.total
  rw [List.rtake, List.length_drop] at start
  have first : p.startLine ≤ line ∧ 1 ≤ line := by
    have := open_.1
    unfold firstOpen at this
    omega
  have high := open_.2
  unfold startLine at first
  rw [heldAt, startLine, List.rtake, List.getElem?_drop, itemAt, if_pos first.2]
  congr 1
  omega

section Covered

variable {terms : List Term} {capacity : Nat} {stopped : Bool} {xs : List α} {p : Pass α}
  (h : p.Reads terms capacity stopped xs)

include h

theorem Reads.kept_of_nothing_waits (waits : Plan.waiting terms = []) (line : Int) :
    p.kept[line]? = if ∃ t ∈ terms, t.Selects xs.length line then itemAt xs line else none := by
  apply h.kept_of_wants_iff line
  intro inside t ht
  apply t.wants_iff_selects_of_fromStart _ line _ inside
  by_contra late
  have : t ∈ Plan.waiting terms :=
    (Plan.mem_waiting terms t).mpr ⟨ht, t.needsTotal_iff_not_fromStart.mpr late⟩
  simp [waits] at this

/-- An open line that no waiting term selects was kept by a term that starts at a known line. -/
theorem Reads.kept_of_no_late {line : Int} (selected : ∃ t ∈ terms, t.Selects xs.length line)
    (early : ¬ ∃ t ∈ terms, t.NeedsTotal ∧ t.Selects xs.length line) :
    p.kept[line]? = itemAt xs line := by
  obtain ⟨t, ht, selects⟩ := selected
  have known : t.FromStart := by
    by_contra waits
    exact early ⟨t, ht, t.needsTotal_iff_not_fromStart.mpr waits, selects⟩
  have wanted := (t.wants_iff_selects_of_fromStart _ line known selects.1).mpr selects
  rw [h.kept, if_pos ⟨t, ht, wanted⟩]

variable (enough : Plan.capacityFor terms ≤ capacity)

include enough

/-- The ring has room for a line if some term waits, so an empty one has seen no line. -/
theorem Reads.size_eq_zero_iff (waits : Plan.waiting terms ≠ []) : p.tail.size = 0 ↔ xs = [] := by
  have room := Plan.capacityFor_pos_of_waiting waits
  rw [h.tail.size_eq, List.length_eq_zero_iff]
  exact Tail.rtake_eq_nil_iff (by omega) xs

theorem Reads.kept_of_nothing_held (waits : Plan.waiting terms ≠ [])
    (empty : xs.rtake capacity = []) (line : Int) :
    p.kept[line]? = if ∃ t ∈ terms, t.Selects xs.length line then itemAt xs line else none := by
  have none_read : xs = [] := by
    apply (h.size_eq_zero_iff enough waits).mp
    rw [h.tail.size_eq, empty, List.length_nil]
  apply h.kept_of_wants_iff line
  intro inside
  rw [none_read, List.length_nil] at inside
  omega

/-- Every bound that counts from the end lies among the lines that the tail holds, or before the
first line, so no term waits for the total to be decided on a line before them. -/
theorem Reads.wants_iff_selects_of_not_open {line : Int} (inside : 1 ≤ line ∧ line ≤ xs.length)
    (closed : ¬ p.Open line) {t : Term} (ht : t ∈ terms) :
    t.Wants line ↔ t.Selects xs.length line := by
  obtain ⟨anchor, limit⟩ := Plan.neg_le_capacityFor terms t ht
  apply t.wants_iff_selects_of_le_sub _ line capacity (anchor.trans enough) (limit.trans enough)
    inside
  have start := h.startLine_eq
  unfold Open firstOpen at closed
  rw [h.total] at closed
  omega

/-- A line before those that the tail holds is decided when it is read. -/
theorem Reads.kept_of_not_open (line : Int) (closed : ¬ p.Open line) :
    p.kept[line]? = if ∃ t ∈ terms, t.Selects xs.length line then itemAt xs line else none :=
  h.kept_of_wants_iff line (fun inside _ ht =>
    h.wants_iff_selects_of_not_open enough inside closed ht)

theorem Reads.mem_kept_iff_of_not_open {line : Int} (inside : 1 ≤ line ∧ line ≤ p.total)
    (closed : ¬ p.Open line) : line ∈ p.kept ↔ ∃ t ∈ terms, t.Selects p.total line := by
  have total := h.total
  rw [h.mem_kept_iff, and_iff_right inside, total]
  rw [total] at inside
  exact exists_congr fun t => and_congr_right fun ht =>
    h.wants_iff_selects_of_not_open enough inside closed ht

/-- The correction of a pass with at least the planned capacity leaves what the terms select. -/
theorem Reads.kept_settle :
    ∃ p' c, p.settle terms = .ok (p', c) ∧ p'.total = p.total ∧ p'.stopped = p.stopped ∧
      ∀ line : Int, p'.kept[line]? =
        if ∃ t ∈ terms, t.Selects xs.length line then itemAt xs line else none := by
  by_cases waits : Plan.waiting terms = []
  · exact ⟨p, none, settle_of_nothing_open terms h.tail (.inl waits), rfl, rfl,
      h.kept_of_nothing_waits waits⟩
  by_cases empty : xs.rtake capacity = []
  · exact ⟨p, none, settle_of_nothing_open terms h.tail (.inr empty), rfl, rfl,
      h.kept_of_nothing_held enough waits empty⟩
  obtain ⟨kept, c, settled, told⟩ := settle_of_open terms h.tail waits empty
  refine ⟨_, _, settled, rfl, rfl, ?_⟩
  intro line
  dsimp only
  rw [told, h.total]
  by_cases open_ : p.Open line
  · rw [if_pos open_, h.heldAt_of_open line open_]
    by_cases late : ∃ t ∈ terms, t.NeedsTotal ∧ t.Selects xs.length line
    · rw [if_pos late, if_pos (late.imp fun t ht => ⟨ht.1, ht.2.2⟩)]
    · rw [if_neg late]
      exact ite_congr rfl (fun selected => h.kept_of_no_late selected late) (fun _ => rfl)
  · rw [if_neg open_]
    exact h.kept_of_not_open enough line open_

end Covered

end Pass

/-- What a pass has kept before the lines that its tail holds is final. Under the plan for the terms
it has kept a line there if and only if some term selects it in an input as long as what was read,
so a line that a waiting term selects and that was not kept is one that the tail holds. -/
theorem Scan.decides_lines_before_tail (terms : List Term) (feasible : Plan.Feasible terms)
    (lines : List α) :
    ∃ plan p, Plan.ofTerms terms = .ok plan ∧
      (Scan.ofPlan terms plan (Source.ofList lines)).outcome = .ok p ∧
      p.startLine = p.total - min plan.capacity p.total + 1 ∧
      (∀ i, 1 ≤ i → i < p.startLine → (i ∈ p.kept ↔ ∃ t ∈ terms, t.Selects p.total i)) ∧
      ∀ i, (∃ t ∈ terms, t.limit < 0 ∧ t.Selects p.total i) → i ∉ p.kept →
        max p.startLine 1 ≤ i ∧ i ≤ p.total := by
  have low := Plan.capacityFor_nonneg terms
  obtain ⟨p, k, stopped, scanned, reads, -⟩ := Scan.exists_reads_ofList terms
    ⟨Plan.capacityFor terms, Plan.ceilingFor terms⟩ low feasible.fits lines
  have start := reads.startLine_eq
  rw [← reads.total, Int.toNat_of_nonneg low] at start
  refine ⟨_, p, Plan.ofTerms_eq_ok terms feasible.writable, scanned, start, ?_, ?_⟩
  · intro i first before
    have inside : i ≤ p.total := by omega
    refine reads.mem_kept_iff_of_not_open (Int.self_le_toNat _) ⟨first, inside⟩ ?_
    intro open_
    exact absurd (le_trans (Int.le_max_left _ _) open_.1) (not_le_of_gt before)
  · rintro i ⟨t, ht, -, selected⟩ missed
    by_contra closed
    exact missed ((reads.mem_kept_iff_of_not_open (Int.self_le_toNat _) selected.1 closed).mpr
      ⟨t, ht, selected⟩)

/-- A tail of four lines. A term that ends before its anchor selects the fourth line, which was not
kept; of the lines before the tail the third was kept and the second was not. -/
theorem Scan.decides_lines_before_tail_reversed :
    ∃ p, (Scan.ofPlan [⟨2, -3, 2, by decide, by decide⟩, ⟨6, -4, 1, by decide, by decide⟩]
        ⟨4, none⟩ (Source.ofList ["a", "b", "c", "d", "e", "f", "g"])).outcome = .ok p ∧
      3 ∈ p.kept ∧ 2 ∉ p.kept ∧ 4 ∉ p.kept ∧ p.startLine ≤ 4 := by
  obtain ⟨plan, p, planned, scanned, start, before, missed⟩ := Scan.decides_lines_before_tail
    [⟨2, -3, 2, by decide, by decide⟩, ⟨6, -4, 1, by decide, by decide⟩]
    ⟨by decide +kernel, by decide +kernel⟩ ["a", "b", "c", "d", "e", "f", "g"]
  have made : Plan.ofTerms [⟨2, -3, 2, by decide, by decide⟩, ⟨6, -4, 1, by decide, by decide⟩] =
      .ok ⟨4, none⟩ := by decide +kernel
  cases planned.symm.trans made
  have seen : (Scan.ofPlan [⟨2, -3, 2, by decide, by decide⟩, ⟨6, -4, 1, by decide, by decide⟩]
      ⟨4, none⟩ (Source.ofList ["a", "b", "c", "d", "e", "f", "g"])).outcome.map
        (fun p => (p.total, decide (4 ∈ p.kept))) = .ok (7, false) := by decide +kernel
  rw [scanned] at seen
  obtain ⟨total, unkept⟩ := Prod.mk.inj (Except.ok.inj seen)
  rw [total] at start before missed
  dsimp only at start
  have fourth := of_decide_eq_false unkept
  refine ⟨p, scanned, ?_, ?_, fourth, ?_⟩
  · exact (before 3 (by decide) (by omega)).mpr (by decide)
  · rw [before 2 (by decide) (by omega)]
    decide
  · have := (missed 4 (by decide) fourth).1
    omega

namespace Run

theorem ofPass_reads {terms : List Term} {stopped : Bool} {xs : List α} {p : Pass α}
    (h : p.Reads terms (Plan.capacityFor terms).toNat stopped xs) (events : List Event)
    (s : Source α) :
    (ofPass terms p events s).outcome = .ok ⟨materialised terms xs, xs.length, stopped⟩ ∧
      (ofPass terms p events s).source = s := by
  obtain ⟨p', c, settled, total, flag, kept⟩ := h.kept_settle (Int.self_le_toNat _)
  rw [ofPass, settled]
  refine ⟨?_, rfl⟩
  rw [← toList_eq_materialised terms xs p'.kept kept, ← h.total, ← h.stopped_eq, ← total, ← flag]
  rfl

variable {terms : List Term} (feasible : Plan.Feasible terms) (s : Source α)

include feasible

/-- A run that meets its last needed line is told by the lines up to it. -/
theorem ofTerms_stops (k : Nat) (last : Plan.lastNeeded terms = k)
    (enough : (k : ℕ∞) ≤ s.available) :
    (ofTerms terms s).outcome = .ok ⟨materialised terms (s.items k), k, true⟩ ∧
      (ofTerms terms s).source = s.after k := by
  rw [← Plan.stopLine_ceilingFor] at last
  obtain ⟨p, reads, scanned⟩ := Scan.ofPlan_stops terms
    ⟨Plan.capacityFor terms, Plan.ceilingFor terms⟩ s (Plan.capacityFor_nonneg terms)
    feasible.fits k last enough
  rw [ofTerms, Plan.ofTerms_eq_ok terms feasible.writable]
  simp only [scanned]
  rw [(ofPass_reads reads _ _).1, (ofPass_reads reads _ _).2, s.length_items k enough]
  exact ⟨rfl, rfl⟩

/-- A run over an input that ends before that line is told by all lines. -/
theorem ofTerms_ends (n : Nat) (count : s.available = n) (ends : s.ending? = some .finished)
    (below : (n : ℕ∞) < Plan.lastNeeded terms) :
    (ofTerms terms s).outcome = .ok ⟨materialised terms (s.items n), n, false⟩ ∧
      (ofTerms terms s).source = s.after n := by
  rw [← Plan.stopLine_ceilingFor] at below
  obtain ⟨p, reads, scanned⟩ := (Scan.ofPlan_ends terms
    ⟨Plan.capacityFor terms, Plan.ceilingFor terms⟩ s (Plan.capacityFor_nonneg terms)
    feasible.fits n count below).1 ends
  rw [ofTerms, Plan.ofTerms_eq_ok terms feasible.writable]
  simp only [scanned]
  rw [(ofPass_reads reads _ _).1, (ofPass_reads reads _ _).2, s.length_items n count.ge]
  exact ⟨rfl, rfl⟩

theorem ofTerms_fails (n : Nat) (count : s.available = n) (reason : String)
    (fails : s.ending? = some (.failed reason)) (below : (n : ℕ∞) < Plan.lastNeeded terms) :
    (ofTerms terms s).outcome = .error (.sourceFailed reason) ∧
      (ofTerms terms s).source = s.after n := by
  rw [← Plan.stopLine_ceilingFor] at below
  have scanned := (Scan.ofPlan_ends terms
    ⟨Plan.capacityFor terms, Plan.ceilingFor terms⟩ s (Plan.capacityFor_nonneg terms)
    feasible.fits n count below).2 reason fails
  rw [ofTerms, Plan.ofTerms_eq_ok terms feasible.writable]
  simp only [scanned]
  exact ⟨rfl, rfl⟩

theorem ofTerms_unending (last : Plan.lastNeeded terms = ⊤) (endless : s.available = ⊤) :
    (ofTerms terms s).outcome = .error .sourceUnending ∧ (ofTerms terms s).source = s := by
  rw [← Plan.stopLine_ceilingFor, Plan.stopLine_eq_top_iff] at last
  have scanned := Scan.ofPlan_unending terms
    ⟨Plan.capacityFor terms, Plan.ceilingFor terms⟩ s (Plan.capacityFor_nonneg terms)
    feasible.fits last endless
  rw [ofTerms, Plan.ofTerms_eq_ok terms feasible.writable]
  simp only [scanned]
  exact ⟨rfl, rfl⟩

/-- The four ways in which a run can end. -/
theorem ofTerms_cases :
    (∃ k : Nat, Plan.lastNeeded terms = k ∧ (k : ℕ∞) ≤ s.available ∧
      (ofTerms terms s).outcome = .ok ⟨materialised terms (s.items k), k, true⟩ ∧
      (ofTerms terms s).source = s.after k) ∨
    (∃ n : Nat, s.available = n ∧ (n : ℕ∞) < Plan.lastNeeded terms ∧
      s.ending? = some .finished ∧
      (ofTerms terms s).outcome = .ok ⟨materialised terms (s.items n), n, false⟩ ∧
      (ofTerms terms s).source = s.after n) ∨
    (∃ n : Nat, ∃ reason, s.available = n ∧ (n : ℕ∞) < Plan.lastNeeded terms ∧
      s.ending? = some (.failed reason) ∧
      (ofTerms terms s).outcome = .error (.sourceFailed reason) ∧
      (ofTerms terms s).source = s.after n) ∨
    (Plan.lastNeeded terms = ⊤ ∧ s.available = ⊤ ∧
      (ofTerms terms s).outcome = .error .sourceUnending ∧ (ofTerms terms s).source = s) := by
  by_cases enough : Plan.lastNeeded terms ≤ s.available
  · cases last : Plan.lastNeeded terms with
    | top =>
      have endless : s.available = ⊤ := top_le_iff.mp (last ▸ enough)
      exact .inr (.inr (.inr ⟨rfl, endless, ofTerms_unending feasible s last endless⟩))
    | coe k =>
      rw [last] at enough
      exact .inl ⟨k, rfl, enough, ofTerms_stops feasible s k last enough⟩
  · have below := lt_of_not_ge enough
    obtain ⟨n, count⟩ := ENat.ne_top_iff_exists.mp (ne_top_of_lt below)
    rw [← count] at below
    cases ends : s.ending? with
    | none => exact absurd (s.available_eq_top_iff.mpr ends) (ne_top_of_lt (count ▸ below))
    | some ending =>
      cases ending with
      | finished =>
        exact .inr (.inl ⟨n, count.symm, below, rfl,
          ofTerms_ends feasible s n count.symm ends below⟩)
      | failed reason =>
        exact .inr (.inr (.inl ⟨n, reason, count.symm, below, rfl,
          ofTerms_fails feasible s n count.symm reason ends below⟩))

omit s in
theorem numbered_ofTerms_ofList (lines : List α) :
    ∃ sel, (ofTerms terms (Source.ofList lines)).outcome = .ok sel ∧
      sel.numbered = materialised terms lines := by
  obtain ⟨k, last, enough, outcome, _⟩ | ⟨n, count, _, _, outcome, _⟩ |
    ⟨_, reason, _, _, fails, _⟩ | ⟨_, endless, _⟩ := ofTerms_cases feasible (Source.ofList lines)
  · refine ⟨_, outcome, ?_⟩
    dsimp only
    rw [Source.items_ofList]
    exact materialised_take terms lines k (Nat.cast_le.mp enough)
      (Plan.limit_le_of_lastNeeded terms k last)
  · refine ⟨_, outcome, ?_⟩
    dsimp only
    rw [Source.items_ofList, List.take_of_length_le (Nat.cast_inj.mp count).le]
  · cases fails
  · exact absurd endless (ENat.natCast_ne_top _)

end Run

/-- Streaming selects what materialising selects: each line once, in ascending order, that some
term names in an input as long as the whole of it. -/
theorem Run.streams_materialised (terms : List Term) (feasible : Plan.Feasible terms)
    (lines : List α) :
    ∃ sel, (Run.ofTerms terms (Source.ofList lines)).outcome = .ok sel ∧
      sel.numbered = materialised terms lines ∧
      sel.numbers.Pairwise (· < ·) ∧
      ∀ line a, (line, a) ∈ sel.numbered ↔
        (1 ≤ line ∧ lines[(line - 1).toNat]? = some a) ∧
          ∃ t ∈ terms, t.Names lines.length line := by
  obtain ⟨sel, outcome, same⟩ := Run.numbered_ofTerms_ofList feasible lines
  refine ⟨sel, outcome, same, ?_, ?_⟩
  · rw [Selection.numbers, same, List.pairwise_map]
    exact materialised_ascends terms lines
  · intro line a
    rw [same, mem_materialised_iff, itemAt, Option.ite_none_right_eq_some]

/-- Two reversed mixed terms and a counted one from the end over six lines. -/
theorem Run.streams_materialised_overlapping :
    ∃ sel, (Run.ofTerms [⟨5, -3, 1, by decide, by decide⟩, ⟨2, -1, 3, by decide, by decide⟩,
        ⟨-1, -9, 5, by decide, by decide⟩]
        (Source.ofList ["a", "b", "c", "d", "e", "f"])).outcome = .ok sel ∧
      sel.numbered = [(2, "b"), (4, "d"), (5, "e")] := by
  obtain ⟨sel, outcome, same, _⟩ := Run.streams_materialised
    [⟨5, -3, 1, by decide, by decide⟩, ⟨2, -1, 3, by decide, by decide⟩,
      ⟨-1, -9, 5, by decide, by decide⟩]
    ⟨by decide +kernel, by decide +kernel⟩ ["a", "b", "c", "d", "e", "f"]
  exact ⟨sel, outcome, same.trans (by decide +kernel)⟩

end Excerpt
