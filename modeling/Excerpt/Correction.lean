import Excerpt.Pass

/-!
# Correction at the end of the input

When the input has ended its total is known, and every term can be decided on
the lines that the tail holds. Lines there that no term selects are dropped,
then the lines that the waiting terms select are restored from the tail. Lines
older than the tail are left as the pass kept them.
-/

namespace Excerpt

/-- The lines from `first` to the last one were decided anew; so many of them changed. -/
structure Correction where
  first : Int
  total : Int
  removed : Nat
  added : Nat
  deriving DecidableEq

/-- The whole numbers from `lo` to `hi` in ascending order. -/
def interval (lo hi : Int) : List Int :=
  (List.range (hi + 1 - lo).toNat).map (fun k : Nat => lo + k)

theorem mem_interval (lo hi n : Int) : n ∈ interval lo hi ↔ lo ≤ n ∧ n ≤ hi := by
  simp only [interval, List.mem_map, List.mem_range]
  constructor
  · rintro ⟨k, hk, rfl⟩
    omega
  · intro h
    exact ⟨(n - lo).toNat, by omega, by omega⟩

namespace Pass

variable {α : Type}

/-- The first line of the tail that is a line of the input. -/
def firstOpen (p : Pass α) : Int := max p.startLine 1

/-- Drops what no term selects among the kept lines of the tail. -/
def prune (terms : List Term) (p : Pass α) : Kept α :=
  (interval p.firstOpen p.total).foldl
    (fun kept line =>
      if line ∉ kept then kept
      else if ∃ t ∈ terms, t.Selects p.total line then kept
      else kept.erase line) p.kept

/-- The lines of the tail between the bounds of a term. -/
def reach (p : Pass α) (t : Term) : List Int :=
  interval (max (t.window p.total).1 p.firstOpen) (min (t.window p.total).2 p.total)

/-- Restores a line that is on the step of the term. -/
def restoreLine (p : Pass α) (t : Term) (kept : Kept α) (line : Int) : Except Fault (Kept α) := do
  if ← t.onStep line (some p.total) then
    return kept.insert line (← p.tail.lineAt line p.total)
  else return kept

def restore (terms : List Term) (p : Pass α) (kept : Kept α) : Except Fault (Kept α) :=
  (Plan.waiting terms).foldlM (fun kept t => (p.reach t).foldlM (p.restoreLine t) kept) kept

/-- The pass with its kept lines corrected. Nothing is decided anew if no term waits for the total
or the tail is empty. -/
def settle (terms : List Term) (p : Pass α) : Except Fault (Pass α × Option Correction) :=
  if Plan.waiting terms = [] ∨ p.tail.size = 0 then .ok (p, none)
  else
    let pruned := p.prune terms
    (p.restore terms pruned).map (fun restored =>
      ({ p with kept := restored },
        some ⟨p.firstOpen, p.total, p.kept.size - pruned.size, restored.size - pruned.size⟩))

end Pass

end Excerpt
