import Excerpt.Term.Basic

/-!
# Plans

What one pass over the input has to provide for: how many of the last lines to
hold, and after which line nothing more can be selected. The capacity covers
every bound that counts from the end; there is a ceiling only if every term
counts from the start.
-/

namespace Excerpt

structure Plan where
  capacity : Int
  ceiling : Option Int
  deriving DecidableEq

namespace Plan

/-- The largest magnitude of a negative bound. -/
def capacityFor (terms : List Term) : Int :=
  terms.foldr (fun t c => max (max (-t.anchor) (-t.limit)) c) 0

theorem capacityFor_nonneg (terms : List Term) : 0 ≤ capacityFor terms := by
  induction terms with
  | nil => exact Int.le_refl 0
  | cons t ts ih => exact Int.le_trans ih (Int.le_max_right _ _)

theorem neg_le_capacityFor (terms : List Term) (t : Term) (h : t ∈ terms) :
    -t.anchor ≤ capacityFor terms ∧ -t.limit ≤ capacityFor terms := by
  induction terms with
  | nil => simp at h
  | cons s ts ih =>
    simp only [capacityFor, List.foldr_cons]
    rcases List.mem_cons.mp h with rfl | h
    · omega
    · have := ih h
      unfold capacityFor at this
      omega

/-- The last line that a term can select, if every term counts from the start. -/
def ceilingFor (terms : List Term) : Option Int :=
  if ∀ t ∈ terms, t.FromStart then (terms.map (·.limit)).max? else none

def fromStart (terms : List Term) : List Term := terms.filter (fun t => t.FromStart)

/-- The terms that wait for the total. -/
def waiting (terms : List Term) : List Term := terms.filter (fun t => t.NeedsTotal)

/-- A plan is made only for terms that can all be written. -/
def ofTerms (terms : List Term) : Except Fault Plan :=
  (terms.mapM Term.text).map (fun _ => ⟨capacityFor terms, ceilingFor terms⟩)

def Reached (ceiling : Option Int) (line : Int) : Prop := ∃ c ∈ ceiling, c ≤ line

instance (ceiling : Option Int) (line : Int) : Decidable (Reached ceiling line) :=
  match ceiling with
  | none => isFalse (by simp [Reached])
  | some c => decidable_of_iff (c ≤ line) (by simp [Reached])

end Plan

end Excerpt
