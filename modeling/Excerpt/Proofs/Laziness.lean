import Mathlib.Data.ENat.Lattice
import Excerpt.Proofs.Streaming

/-!
# A run reads no further than it must

A run pulls a line only if one of its terms may need it. What would come behind
the last needed line cannot be told from the outcome: neither an end, nor more
lines, nor a failure of the source.
-/

namespace Excerpt

variable {α : Type}

namespace Run

variable {terms : List Term} (feasible : Plan.Feasible terms) (s : Source α)

include feasible

theorem served_ofTerms (finite : min (Plan.lastNeeded terms) s.available ≠ ⊤) :
    ((ofTerms terms s).source.served : ℕ∞) =
      s.served + min (Plan.lastNeeded terms) s.available := by
  obtain ⟨k, last, enough, _, source⟩ | ⟨n, count, below, _, _, source⟩ |
    ⟨n, reason, count, below, _, _, source⟩ | ⟨last, endless, _⟩ := ofTerms_cases feasible s
  · rw [source, s.served_after k enough, last, min_eq_left enough, Nat.cast_add]
  · rw [source, s.served_after n count.ge, count, min_eq_right below.le, Nat.cast_add]
  · rw [source, s.served_after n count.ge, count, min_eq_right below.le, Nat.cast_add]
  · rw [last, endless, min_self] at finite
    exact absurd rfl finite

/-- A run that is never done pulls as often as it is allowed to. -/
theorem read_of_unending (last : Plan.lastNeeded terms = ⊤) (endless : s.available = ⊤) :
    ∃ p, Pass.new ⟨Plan.capacityFor terms, Plan.ceilingFor terms⟩ = .ok p ∧ ∀ pulls : Nat,
      Scan.read (Term.live terms) (Plan.ceilingFor terms) pulls s p =
        ⟨.error .sourceUnending, s.after pulls⟩ ∧
      (s.after pulls).served = s.served + pulls := by
  obtain ⟨p, made, reads⟩ := Pass.new_reads (α := α) terms
    ⟨Plan.capacityFor terms, Plan.ceilingFor terms⟩ (Plan.capacityFor_nonneg terms) feasible.fits
  rw [← Plan.stopLine_ceilingFor, Plan.stopLine_eq_top_iff] at last
  refine ⟨p, made, ?_⟩
  intro pulls
  rw [last]
  exact ⟨Scan.read_unending reads s endless pulls,
    s.served_after pulls (by rw [endless]; exact le_top)⟩

theorem outcome_eq_of_prefix (k : Nat) (last : Plan.lastNeeded terms = k)
    (enough : (k : ℕ∞) ≤ s.available) :
    (ofTerms terms s).outcome = (ofTerms terms (Source.ofList (s.items k))).outcome := by
  have length := s.length_items k enough
  have enough' : (k : ℕ∞) ≤ (Source.ofList (s.items k)).available := by
    change (k : ℕ∞) ≤ ((s.items k).length : ℕ∞)
    rw [length]
  rw [(ofTerms_stops feasible s k last enough).1, (ofTerms_stops feasible _ k last enough').1,
    Source.items_ofList, List.take_of_length_le length.le]

theorem outcome_eq_sourceFailed_iff (reason : String) :
    (ofTerms terms s).outcome = .error (.sourceFailed reason) ↔
      s.available < Plan.lastNeeded terms ∧ s.ending? = some (.failed reason) := by
  obtain ⟨k, last, enough, outcome, _⟩ | ⟨n, count, below, ends, outcome, _⟩ |
    ⟨n, met, count, below, fails, outcome, _⟩ | ⟨last, endless, outcome, _⟩ :=
    ofTerms_cases feasible s
  · rw [outcome, last]
    simp [enough]
  · rw [outcome, ends]
    simp
  · rw [outcome, count, fails]
    simp [below]
  · rw [outcome, endless]
    simp

end Run

/-- With `c` the last line that the terms can need and `n` the number of lines that the source can
give, a run pulls exactly `min c n` lines, or goes on for ever if both are infinite. It stops at
`c`, or ends or fails at `n` before that, and nothing behind `c` has any influence. -/
theorem Run.reads_no_further (terms : List Term) (feasible : Plan.Feasible terms) (s : Source α) :
    (min (Plan.lastNeeded terms) s.available ≠ ⊤ →
      ((Run.ofTerms terms s).source.served : ℕ∞) =
        s.served + min (Plan.lastNeeded terms) s.available) ∧
    (min (Plan.lastNeeded terms) s.available = ⊤ →
      (Run.ofTerms terms s).outcome = .error .sourceUnending ∧
      ∃ p, Pass.new ⟨Plan.capacityFor terms, Plan.ceilingFor terms⟩ = .ok p ∧ ∀ pulls : Nat,
        Scan.read (Term.live terms) (Plan.ceilingFor terms) pulls s p =
          ⟨.error .sourceUnending, s.after pulls⟩ ∧
        (s.after pulls).served = s.served + pulls) ∧
    (∀ c : Nat, Plan.lastNeeded terms = c → (c : ℕ∞) ≤ s.available →
      (∃ sel, (Run.ofTerms terms s).outcome = .ok sel ∧ sel.total = c ∧ sel.stopped = true) ∧
      (Run.ofTerms terms s).outcome =
        (Run.ofTerms terms (Source.ofList (s.items c))).outcome) ∧
    (∀ n : Nat, s.available = n → (n : ℕ∞) < Plan.lastNeeded terms →
      s.ending? = some .finished →
      ∃ sel, (Run.ofTerms terms s).outcome = .ok sel ∧ sel.total = n ∧ sel.stopped = false) ∧
    (∀ reason, (Run.ofTerms terms s).outcome = .error (.sourceFailed reason) ↔
      s.available < Plan.lastNeeded terms ∧ s.ending? = some (.failed reason)) ∧
    ((∀ t ∈ terms, t.FromStart) → ∀ xs ys : List α, ∃ shorter longer,
      (Run.ofTerms terms (Source.ofList xs)).outcome = .ok shorter ∧
      (Run.ofTerms terms (Source.ofList (xs ++ ys))).outcome = .ok longer ∧
      longer.numbered.filter (fun e => e.1 ≤ (xs.length : Int)) = shorter.numbered) := by
  refine ⟨Run.served_ofTerms feasible s, ?_, ?_, ?_, Run.outcome_eq_sourceFailed_iff feasible s, ?_⟩
  · intro infinite
    obtain ⟨last, endless⟩ := min_eq_top.mp infinite
    exact ⟨(Run.ofTerms_unending feasible s last endless).1,
      Run.read_of_unending feasible s last endless⟩
  · intro c last enough
    exact ⟨⟨_, (Run.ofTerms_stops feasible s c last enough).1, rfl, rfl⟩,
      Run.outcome_eq_of_prefix feasible s c last enough⟩
  · intro n count below ends
    exact ⟨_, (Run.ofTerms_ends feasible s n count ends below).1, rfl, rfl⟩
  · intro known xs ys
    obtain ⟨shorter, outcome, same⟩ := Run.numbered_ofTerms_ofList feasible xs
    obtain ⟨longer, outcome', same'⟩ := Run.numbered_ofTerms_ofList feasible (xs ++ ys)
    refine ⟨shorter, longer, outcome, outcome', ?_⟩
    rw [same, same', materialised_append terms xs ys known]

/-- A source that fails behind the third line is read to the end by a term that needs no fourth. -/
theorem Run.reads_no_further_before_failure :
    Plan.lastNeeded [⟨2, 3, 1, by decide, by decide⟩] = (3 : Nat) ∧
    ∃ sel, (Run.ofTerms [⟨2, 3, 1, by decide, by decide⟩]
        ((Source.endless (fun n => n)).failAfter 3 "gone")).outcome = .ok sel ∧
      sel.total = 3 ∧ sel.stopped = true := by
  have last : Plan.lastNeeded [⟨2, 3, 1, by decide, by decide⟩] = (3 : Nat) := rfl
  obtain ⟨_, _, stops, _⟩ := Run.reads_no_further [⟨2, 3, 1, by decide, by decide⟩]
    ⟨by decide +kernel, by decide +kernel⟩ ((Source.endless (fun n => n)).failAfter 3 "gone")
  exact ⟨last, (stops 3 last le_rfl).1⟩

end Excerpt
