import Excerpt.Proofs.Streaming

/-!
# Plans that provide for more than is needed

A plan covers the terms if it holds at least the lines that their bounds reach
back to, and stops, if at all, behind the last line that they can select. What
a pass under such a plan keeps, what the correction drops and restores, and what
is left at the end do not depend on the plan: a line that only the larger ring
holds is decided anew as the pass has decided it.
-/

namespace Excerpt

variable {α : Type}

namespace Plan

/-- The plan provides for the terms, and perhaps for more. -/
structure Covers (plan : Plan) (terms : List Term) : Prop where
  capacity : capacityFor terms ≤ plan.capacity
  fits : plan.capacity < Tail.capacityLimit
  ceiling : ∀ c ∈ plan.ceiling, terms ≠ [] ∧ ∀ t ∈ terms, t.FromStart ∧ t.limit ≤ c

/-- Of `n` lines those behind line `k` need not be read. -/
def Suffices (terms : List Term) (n k : Nat) : Prop :=
  n ≤ k ∨ ∀ t ∈ terms, t.FromStart ∧ t.limit ≤ k

theorem covers_ceilingFor {terms : List Term} (feasible : Feasible terms) :
    Covers ⟨capacityFor terms, ceilingFor terms⟩ terms where
  capacity := le_refl _
  fits := feasible.fits
  ceiling c reached := by
    dsimp only [ceilingFor] at reached
    split at reached
    · rename_i known
      obtain ⟨mem, bound⟩ := List.max?_eq_some_iff.mp reached
      obtain ⟨t, ht, -⟩ := List.mem_map.mp mem
      refine ⟨List.ne_nil_of_mem ht, ?_⟩
      intro u hu
      exact ⟨known u hu, bound _ (List.mem_map_of_mem hu)⟩
    · cases reached

/-- A ceiling stands behind every limit, so no term selects a line behind it. -/
theorem Covers.suffices_of_stopLine {plan : Plan} {terms : List Term} (h : plan.Covers terms)
    {k : Nat} (stop : stopLine plan.ceiling = k) (n : Nat) : Suffices terms n k := by
  cases given : plan.ceiling with
  | none =>
    rw [given] at stop
    exact absurd stop.symm (ENat.natCast_ne_top k)
  | some c =>
    rw [given, stopLine, Option.elim_some, Nat.cast_inj] at stop
    right
    intro t ht
    obtain ⟨known, limit⟩ := (h.ceiling c given).2 t ht
    exact ⟨known, by omega⟩

end Plan

section Suffices

variable {terms : List Term} {xs : List α} {k : Nat} (enough : Plan.Suffices terms xs.length k)

include enough

theorem take_of_waiting (waits : Plan.waiting terms ≠ []) : xs.take k = xs := by
  rcases enough with all | bound
  · exact List.take_of_length_le all
  · obtain ⟨t, ht⟩ := List.exists_mem_of_ne_nil _ waits
    obtain ⟨mem, late⟩ := (Plan.mem_waiting terms t).mp ht
    exact absurd (bound t mem).1 (t.needsTotal_iff_not_fromStart.mp late)

theorem materialised_of_suffices : materialised terms (xs.take k) = materialised terms xs := by
  by_cases all : xs.length ≤ k
  · rw [List.take_of_length_le all]
  · exact materialised_take terms xs k (Nat.le_of_not_le all) (enough.resolve_left all)

theorem selects_take_iff {t : Term} (ht : t ∈ terms) (line : Int) :
    t.Selects (xs.take k).length line ↔ t.Selects xs.length line := by
  rcases enough with all | bound
  · rw [List.take_of_length_le all]
  · obtain ⟨known, limit⟩ := bound t ht
    rw [t.selects_iff_names, t.selects_iff_names, t.names_iff_of_fromStart _ _ known,
      t.names_iff_of_fromStart _ _ known, List.length_take]
    refine and_congr_left ?_
    rintro ⟨inside, -⟩
    omega

/-- A line that a term may still want is among those that are read. -/
theorem itemAt_take_of_wants {line : Int} (wanted : ∃ t ∈ terms, t.Wants line) :
    itemAt (xs.take k) line = itemAt xs line := by
  rcases enough with all | bound
  · rw [List.take_of_length_le all]
  · obtain ⟨t, ht, -, ⟨-, inside⟩, -⟩ := wanted
    obtain ⟨known, limit⟩ := bound t ht
    unfold Term.FromStart at known
    unfold itemAt
    split
    · exact List.getElem?_take_of_lt (by omega)
    · rfl

end Suffices

namespace Pass

section Covered

variable {terms : List Term} {capacity : Nat} {stopped : Bool} {xs : List α} {p : Pass α}
  (h : p.Reads terms capacity stopped xs) (covers : Plan.capacityFor terms ≤ capacity)

include h covers

/-- A correction drops what no term selects; the lines that it does not look at have been decided
the same way by the pass. -/
theorem Reads.getElem?_prune (line : Int) :
    (p.prune terms)[line]? =
      if ∃ t ∈ terms, t.Selects xs.length line then p.kept[line]? else none := by
  rw [Pass.getElem?_prune, h.total]
  by_cases open_ : p.Open line
  · simp only [open_, true_and, ite_not]
  · rw [if_neg (fun both => open_ both.1), h.kept_of_not_open covers line open_]
    split
    · rfl
    · rfl

end Covered

/-- The pass `p` is corrected to `p'`, and what it keeps before, between and behind the two parts of
the correction is told by the terms and the input. -/
structure Settles (terms : List Term) (lines : List α) (p p' : Pass α)
    (c : Option Correction) : Prop where
  settle : p.settle terms = .ok (p', c)
  kept : ∀ line, p.kept[line]? = if ∃ t ∈ terms, t.Wants line then itemAt lines line else none
  pruned : ∀ line, (p.prune terms)[line]? =
    if ∃ t ∈ terms, t.Selects lines.length line then p.kept[line]? else none
  settled : p'.kept.toList = materialised terms lines
  held : Plan.waiting terms ≠ [] → (p.tail.size = 0 ↔ lines = [])

theorem Reads.exists_settles {terms : List Term} {capacity k : Nat} {stopped : Bool}
    {lines : List α} {p : Pass α} (h : p.Reads terms capacity stopped (lines.take k))
    (covers : Plan.capacityFor terms ≤ capacity) (enough : Plan.Suffices terms lines.length k) :
    ∃ p' c, Settles terms lines p p' c := by
  obtain ⟨p', c, settled, -, -, kept⟩ := h.kept_settle covers
  refine ⟨p', c, settled, ?_, ?_, ?_, ?_⟩
  · intro line
    rw [h.kept]
    exact ite_congr rfl (itemAt_take_of_wants enough) (fun _ => rfl)
  · intro line
    rw [h.getElem?_prune covers]
    refine if_congr ?_ rfl rfl
    exact exists_congr fun t => and_congr_right fun ht => selects_take_iff enough ht line
  · rw [toList_eq_materialised terms _ _ kept, materialised_of_suffices enough]
  · intro waits
    rw [h.size_eq_zero_iff covers waits, take_of_waiting enough waits]

section Settles

variable {terms : List Term} {lines : List α} {p p' q q' : Pass α} {c d : Option Correction}
  (h : Settles terms lines p p' c) (g : Settles terms lines q q' d)

include h g

theorem Settles.kept_eq : p.kept = q.kept := by
  apply Std.ExtTreeMap.ext_getElem?
  intro line
  rw [h.kept, g.kept]

theorem Settles.prune_eq : p.prune terms = q.prune terms := by
  apply Std.ExtTreeMap.ext_getElem?
  intro line
  rw [h.pruned, g.pruned, h.kept_eq g]

theorem Settles.settled_eq : p'.kept = q'.kept := by
  rw [← Std.ExtTreeMap.toList_inj, h.settled, g.settled]

/-- Both corrections change as many lines, or there is none of either. -/
theorem Settles.changes_eq :
    c.map (fun c => (c.removed, c.added)) = d.map (fun d => (d.removed, d.added)) := by
  rw [correction_of_settle h.settle, correction_of_settle g.settle, h.kept_eq g, h.prune_eq g,
    h.settled_eq g]
  by_cases waits : Plan.waiting terms = []
  · rw [if_pos (.inl waits), if_pos (.inl waits)]
  · simp only [waits, false_or, h.held waits, g.held waits]
    split
    · rfl
    · rfl

end Settles

end Pass

namespace Scan

/-- Under a plan that covers the terms a pass reads as many lines as are needed. -/
theorem exists_reads_of_covers {terms : List Term} {plan : Plan} (covers : plan.Covers terms)
    (lines : List α) :
    ∃ p k stopped, (ofPlan terms plan (Source.ofList lines)).outcome = .ok p ∧
      p.Reads terms plan.capacity.toNat stopped (lines.take k) ∧
      Plan.Suffices terms lines.length k := by
  have low : 0 ≤ plan.capacity := (Plan.capacityFor_nonneg terms).trans covers.capacity
  obtain ⟨p, k, stopped, scanned, reads, count, -⟩ :=
    exists_reads_ofList terms plan low covers.fits lines
  refine ⟨p, k, stopped, scanned, reads, ?_⟩
  rcases le_total (lines.length : ℕ∞) (Plan.stopLine plan.ceiling) with below | reached
  · rw [min_eq_left below, Nat.cast_inj] at count
    exact .inl count.ge
  · rw [min_eq_right reached] at count
    exact covers.suffices_of_stopLine count.symm _

theorem exists_settles_of_covers {terms : List Term} {plan : Plan} (covers : plan.Covers terms)
    (lines : List α) :
    ∃ p p' c, (ofPlan terms plan (Source.ofList lines)).outcome = .ok p ∧
      Pass.Settles terms lines p p' c := by
  obtain ⟨p, k, stopped, scanned, reads, enough⟩ := exists_reads_of_covers covers lines
  obtain ⟨p', c, settles⟩ :=
    reads.exists_settles (covers.capacity.trans (Int.self_le_toNat _)) enough
  exact ⟨p, p', c, scanned, settles⟩

end Scan

/-- A plan that provides for more than the terms need changes nothing: the pass keeps the same
lines, the correction drops and restores the same lines, and the terms' own lines are left. -/
theorem Scan.settled_independent_of_plan (terms : List Term) (feasible : Plan.Feasible terms)
    (plan : Plan) (covers : plan.Covers terms) (lines : List α) :
    ∃ planned p p' c q q' d, Plan.ofTerms terms = .ok planned ∧
      (Scan.ofPlan terms planned (Source.ofList lines)).outcome = .ok p ∧
      p.settle terms = .ok (p', c) ∧
      (Scan.ofPlan terms plan (Source.ofList lines)).outcome = .ok q ∧
      q.settle terms = .ok (q', d) ∧
      q'.kept = p'.kept ∧ q'.kept.toList = materialised terms lines ∧
      q.kept = p.kept ∧ q.prune terms = p.prune terms ∧
      d.map (fun d => (d.removed, d.added)) = c.map (fun c => (c.removed, c.added)) := by
  obtain ⟨p, p', c, scanned, settles⟩ :=
    Scan.exists_settles_of_covers (Plan.covers_ceilingFor feasible) lines
  obtain ⟨q, q', d, scanned', settles'⟩ := Scan.exists_settles_of_covers covers lines
  exact ⟨_, p, p', c, q, q', d, Plan.ofTerms_eq_ok terms feasible.writable, scanned,
    settles.settle, scanned', settles'.settle, settles'.settled_eq settles, settles'.settled,
    settles'.kept_eq settles, settles'.prune_eq settles, settles'.changes_eq settles⟩

/-- A ring of nine slots over seven lines, for terms that reach back four. -/
theorem Scan.settled_independent_of_plan_wide :
    ∃ q q' d, (Scan.ofPlan [⟨2, -3, 2, by decide, by decide⟩, ⟨6, -4, 1, by decide, by decide⟩]
        ⟨9, none⟩ (Source.ofList ["a", "b", "c", "d", "e", "f", "g"])).outcome = .ok q ∧
      q.settle [⟨2, -3, 2, by decide, by decide⟩, ⟨6, -4, 1, by decide, by decide⟩] = .ok (q', d) ∧
      q'.kept.toList = [(3, "c"), (4, "d"), (5, "e"), (6, "f")] := by
  obtain ⟨_, _, _, _, q, q', d, -, -, -, scanned, settled, -, selected, -⟩ :=
    Scan.settled_independent_of_plan
      [⟨2, -3, 2, by decide, by decide⟩, ⟨6, -4, 1, by decide, by decide⟩]
      ⟨by decide +kernel, by decide +kernel⟩ ⟨9, none⟩ ⟨by decide, by decide, nofun⟩
      ["a", "b", "c", "d", "e", "f", "g"]
  exact ⟨q, q', d, scanned, settled, selected.trans (by decide +kernel)⟩

end Excerpt
