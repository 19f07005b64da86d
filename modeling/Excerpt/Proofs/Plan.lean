import Mathlib.Data.ENat.Lattice
import Mathlib.Data.List.MinMax
import Excerpt.Plan
import Excerpt.Tail
import Excerpt.Proofs.Traversal

/-!
# What a plan provides for

A plan is made for terms that can be written out. `stopLine` is the line after
which a pass stops under a ceiling, and `lastNeeded` the last line that the
terms can select, if there is one: for the ceiling of a plan the two are equal.
-/

namespace Excerpt

namespace Term

theorem exists_text_iff (t : Term) : (∃ written, t.text = .ok written) ↔ t.Writable := by
  unfold Term.text
  split
  · rename_i short
    exact ⟨fun _ => short, fun _ => ⟨t.render, rfl⟩⟩
  · rename_i long
    constructor
    · rintro ⟨written, h⟩
      exact absurd h (raise_ne_ok _ _)
    · intro short
      exact absurd short long

theorem tooLongToWrite_of_text {t : Term} {f : Fault} (h : t.text = .error f) :
    f = .tooLongToWrite := by
  unfold Term.text at h
  split at h
  · cases h
  · cases h
    rfl

end Term

namespace Plan

theorem mem_waiting (terms : List Term) (t : Term) :
    t ∈ waiting terms ↔ t ∈ terms ∧ t.NeedsTotal := by
  simp [waiting]

theorem capacityFor_lt_iff (terms : List Term) {c : Int} (pos : 0 < c) :
    capacityFor terms < c ↔ ∀ t ∈ terms, -t.anchor < c ∧ -t.limit < c := by
  constructor
  · intro less t mem
    obtain ⟨anchor, limit⟩ := neg_le_capacityFor terms t mem
    exact ⟨anchor.trans_lt less, limit.trans_lt less⟩
  · intro each
    induction terms with
    | nil => exact pos
    | cons t ts ih =>
      obtain ⟨here, behind⟩ := List.forall_mem_cons.mp each
      exact max_lt (max_lt here.1 here.2) (ih behind)

theorem capacityFor_pos_of_waiting {terms : List Term} (waits : waiting terms ≠ []) :
    0 < capacityFor terms := by
  obtain ⟨t, ht⟩ := List.exists_mem_of_ne_nil _ waits
  obtain ⟨mem, late⟩ := (mem_waiting terms t).mp ht
  have reach := (neg_le_capacityFor terms t mem).2
  unfold Term.NeedsTotal at late
  omega

/-- A plan can be made for the terms, and the ring that it asks for can exist. -/
structure Feasible (terms : List Term) : Prop where
  writable : ∀ t ∈ terms, t.Writable
  fits : capacityFor terms < Tail.capacityLimit

theorem feasible_iff (terms : List Term) :
    Feasible terms ↔ ∀ t ∈ terms, t.Writable ∧
      -t.anchor < Tail.capacityLimit ∧ -t.limit < Tail.capacityLimit := by
  have fits := capacityFor_lt_iff terms (c := Tail.capacityLimit) (by decide)
  constructor
  · intro feasible t ht
    exact ⟨feasible.writable t ht, fits.mp feasible.fits t ht⟩
  · intro each
    exact ⟨fun t ht => (each t ht).1, fits.mpr (fun t ht => (each t ht).2)⟩

theorem ofTerms_eq_ok (terms : List Term) (h : ∀ t ∈ terms, t.Writable) :
    ofTerms terms = .ok ⟨capacityFor terms, ceilingFor terms⟩ := by
  have each : ∀ t ∈ terms, ∃ written, t.text = .ok written :=
    fun t mem => t.exists_text_iff.mpr (h t mem)
  obtain ⟨texts, written⟩ := (exists_mapM_eq_ok_iff Term.text terms).mpr each
  rw [ofTerms, written]
  rfl

theorem ofTerms_eq_error (terms : List Term) (h : ¬ ∀ t ∈ terms, t.Writable) :
    ofTerms terms = .error .tooLongToWrite := by
  rw [ofTerms]
  cases written : terms.mapM Term.text with
  | ok texts =>
    have each := (exists_mapM_eq_ok_iff Term.text terms).mp ⟨texts, written⟩
    exact absurd (fun t mem => t.exists_text_iff.mp (each t mem)) h
  | error f =>
    obtain ⟨before, t, rest, -, -, failed⟩ := (mapM_eq_error_iff Term.text terms f).mp written
    rw [Term.tooLongToWrite_of_text failed]
    rfl

/-- The line after which a pass stops; `⊤` without a ceiling. -/
def stopLine (ceiling : Option Int) : ℕ∞ :=
  ceiling.elim ⊤ (fun c => (max c 1).toNat)

theorem stopLine_pos (ceiling : Option Int) : 0 < stopLine ceiling := by
  cases ceiling with
  | none => exact ENat.top_pos
  | some c =>
    have pos : 0 < (max c 1).toNat := by omega
    exact Nat.cast_lt.mpr pos

theorem stopLine_eq_top_iff (ceiling : Option Int) : stopLine ceiling = ⊤ ↔ ceiling = none := by
  cases ceiling with
  | none => exact ⟨fun _ => rfl, fun _ => rfl⟩
  | some c => exact ⟨fun h => absurd h (ENat.natCast_ne_top _), fun h => nomatch h⟩

theorem reached_iff_stopLine_le (ceiling : Option Int) (line : Nat) (h : 0 < line) :
    Reached ceiling line ↔ stopLine ceiling ≤ line := by
  cases ceiling with
  | none => simp [Reached, stopLine]
  | some c =>
    rw [stopLine, Option.elim_some, Nat.cast_le]
    simp only [Reached, Option.mem_some_iff, exists_eq_left']
    omega

theorem stopLine_le_iff (ceiling : Option Int) (n : Nat) :
    stopLine ceiling ≤ n ↔ ∃ c ∈ ceiling, max c 1 ≤ n := by
  cases ceiling with
  | none => simp [stopLine]
  | some c =>
    rw [stopLine, Option.elim_some, Nat.cast_le]
    simp only [Option.mem_some_iff, exists_eq_left']
    omega

/-- How many of `n` lines are read, if a pass stops at the ceiling. -/
theorem cast_eq_of_eq_min_stopLine {ceiling : Option Int} {n k : Nat}
    (h : (k : ℕ∞) = min (n : ℕ∞) (stopLine ceiling)) :
    (k : Int) = ceiling.elim (n : Int) (fun c => min n (max c 1)) := by
  cases ceiling with
  | none =>
    rw [stopLine, Option.elim_none, min_eq_left le_top, Nat.cast_inj] at h
    exact congrArg Nat.cast h
  | some c =>
    rw [stopLine, Option.elim_some, ← Nat.mono_cast.map_min, Nat.cast_inj] at h
    rw [Option.elim_some]
    omega

/-- The last line that a run may need: the largest limit if there are terms and all of them count
from the start. Otherwise no line is the last one. -/
def lastNeeded (terms : List Term) : ℕ∞ :=
  if terms ≠ [] ∧ ∀ t ∈ terms, t.FromStart then
    ((terms.map (fun t => t.limit.toNat)).foldr max 0 : Nat)
  else ⊤

theorem limit_le_of_lastNeeded (terms : List Term) (k : Nat) (h : lastNeeded terms = k) (t : Term)
    (ht : t ∈ terms) : t.FromStart ∧ t.limit ≤ k := by
  unfold lastNeeded at h
  split at h
  · rename_i known
    have reach : t.limit.toNat ≤ (terms.map (fun t => t.limit.toNat)).foldr max 0 :=
      List.le_max_of_le (List.mem_map_of_mem ht) le_rfl
    rw [Nat.cast_inj.mp h] at reach
    exact ⟨known.2 t ht, by omega⟩
  · exact absurd h (ENat.top_ne_natCast k)

theorem stopLine_ceilingFor (terms : List Term) :
    stopLine (ceilingFor terms) = lastNeeded terms := by
  unfold lastNeeded ceilingFor
  by_cases known : ∀ t ∈ terms, t.FromStart
  · rw [if_pos known]
    cases greatest : (terms.map (·.limit)).max? with
    | none =>
      have empty : terms = [] := by simpa using greatest
      rw [if_neg (fun h => h.1 empty)]
      rfl
    | some m =>
      obtain ⟨mem, bound⟩ := List.max?_eq_some_iff.mp greatest
      obtain ⟨t, ht, rfl⟩ := List.mem_map.mp mem
      have pos := (known t ht).2
      rw [if_pos ⟨List.ne_nil_of_mem ht, known⟩, stopLine, Option.elim_some, Nat.cast_inj,
        max_eq_left (by omega)]
      refine le_antisymm (List.le_max_of_le (List.mem_map_of_mem ht) le_rfl)
        (List.max_le_of_forall_le _ _ ?_)
      intro n hn
      obtain ⟨u, hu, rfl⟩ := List.mem_map.mp hn
      exact Int.toNat_le_toNat (bound _ (List.mem_map_of_mem hu))
  · rw [if_neg known, if_neg (fun h => known h.2)]
    rfl

end Plan

end Excerpt
