import Excerpt.Fault

/-!
# Terms

A term names lines by two bounds and a step. A positive bound counts from the
first line, a negative one from the last. The step counts from the anchor: of
two positive bounds the anchor is the smaller, of two negative ones the one
nearer the end, of a mixed pair the positive one. `Selects` is the meaning of a
term once the number of lines is known; `window` may stick out of the input.
-/

namespace Excerpt

namespace Term

/-- The order in which a term keeps its two bounds. -/
def Normal (anchor limit : Int) : Prop :=
  (0 < anchor ∧ (anchor ≤ limit ∨ limit < 0)) ∨ (anchor < 0 ∧ limit ≤ anchor)

instance (anchor limit : Int) : Decidable (Normal anchor limit) :=
  inferInstanceAs (Decidable (_ ∨ _))

end Term

structure Term where
  anchor : Int
  limit : Int
  step : Nat
  normal : Term.Normal anchor limit
  step_pos : 0 < step
  deriving DecidableEq

namespace Term

def make (anchor limit step : Int) : Except Fault Term :=
  if zero : anchor = 0 ∨ limit = 0 then raise (.zeroBound anchor limit)
  else if small : step < 1 then raise (.stepBelowOne step)
  else if start : 0 < anchor ∧ 0 < limit ∧ limit < anchor then raise (.startDescends anchor limit)
  else if fromEnd : anchor < 0 ∧ limit < 0 ∧ anchor < limit then raise (.endAscends anchor limit)
  else if mixed : anchor < 0 ∧ 0 < limit then raise (.endBeforeStart anchor limit)
  else .ok ⟨anchor, limit, step.toNat, by unfold Normal; omega, by omega⟩

theorem make_normal (anchor limit step : Int) (h : Normal anchor limit) (hs : 1 ≤ step) :
    make anchor limit step = .ok ⟨anchor, limit, step.toNat, h, by omega⟩ := by
  unfold Normal at h
  unfold make
  rw [dif_neg (by omega), dif_neg (by omega), dif_neg (by omega), dif_neg (by omega),
    dif_neg (by omega)]

/-- Two bounds in either order; the one that the step counts from is put first. -/
def ofBounds (first second step : Int) : Except Fault Term :=
  if 0 < first ∧ 0 < second then make (min first second) (max first second) step
  else make (max first second) (min first second) step

theorem ofBounds_comm (first second step : Int) :
    ofBounds first second step = ofBounds second first step := by
  simp only [ofBounds, Int.min_comm first second, Int.max_comm first second, And.comm]

/-- Every line. -/
def all : Term := ⟨1, -1, 1, by decide, by decide⟩

abbrev FromStart (t : Term) : Prop := 0 < t.anchor ∧ 0 < t.limit

abbrev FromEnd (t : Term) : Prop := t.anchor < 0 ∧ t.limit < 0

abbrev Mixed (t : Term) : Prop := 0 < t.anchor ∧ t.limit < 0

/-- A term whose last line cannot be told before the input has ended. -/
abbrev NeedsTotal (t : Term) : Prop := t.limit < 0

theorem anchor_ne_zero (t : Term) : t.anchor ≠ 0 := by
  have h := t.normal
  unfold Normal at h
  omega

theorem limit_ne_zero (t : Term) : t.limit ≠ 0 := by
  have h := t.normal
  unfold Normal at h
  omega

theorem needsTotal_iff_not_fromStart (t : Term) : t.NeedsTotal ↔ ¬ t.FromStart := by
  have h := t.normal
  unfold Normal at h
  unfold NeedsTotal FromStart
  omega

/-- The line that a bound names in an input of so many lines. -/
def lineOf (bound total : Int) : Int := if 0 < bound then bound else total + bound + 1

/-- The first and the last line between the bounds. -/
def window (t : Term) (total : Int) : Int × Int :=
  let a := lineOf t.anchor total
  let b := lineOf t.limit total
  if a ≤ b then (a, b) else (b, a)

theorem window_fst_le_snd (t : Term) (total : Int) : (t.window total).1 ≤ (t.window total).2 := by
  simp only [window]
  split <;> dsimp only <;> omega

/-- The place of a line in a term, counted from 1 at the anchor. -/
def place (t : Term) (line total : Int) : Int :=
  if 0 < t.anchor then line - t.anchor + 1 else total + t.anchor + 1 - line + 1

/-- The place of a line when the total may still be unknown. -/
def position (t : Term) (line : Int) : Option Int → Except Fault Int
  | some total => .ok (t.place line total)
  | none => if 0 < t.anchor then .ok (line - t.anchor + 1) else raise .totalUnknown

theorem position_some (t : Term) (line total : Int) :
    t.position line (some total) = .ok (t.place line total) := rfl

theorem position_of_anchor_pos (t : Term) (line : Int) (total : Option Int) (h : 0 < t.anchor) :
    t.position line total = .ok (line - t.anchor + 1) := by
  cases total <;> simp [position, place, h]

def onStep (t : Term) (line : Int) (total : Option Int) : Except Fault Bool :=
  if t.step = 1 then .ok true
  else (t.position line total).map (fun p => decide (p % (t.step : Int) = 0))

theorem onStep_some (t : Term) (line total : Int) :
    t.onStep line (some total) = .ok (decide (t.place line total % t.step = 0)) := by
  unfold onStep
  split
  · rename_i h
    simp [h]
  · rfl

theorem onStep_of_anchor_pos (t : Term) (line : Int) (total : Option Int) (h : 0 < t.anchor) :
    t.onStep line total = .ok (decide ((line - t.anchor + 1) % t.step = 0)) := by
  unfold onStep
  split
  · rename_i h
    simp [h]
  · simp [position_of_anchor_pos t line total h, Except.map]

def Selects (t : Term) (total line : Int) : Prop :=
  (1 ≤ line ∧ line ≤ total) ∧
  ((t.window total).1 ≤ line ∧ line ≤ (t.window total).2) ∧
  t.place line total % t.step = 0

instance (t : Term) (total line : Int) : Decidable (t.Selects total line) :=
  inferInstanceAs (Decidable (_ ∧ _))

/-- A term in the form in which it can be read again. -/
def render (t : Term) : String :=
  let bounds :=
    if t.anchor = t.limit then toString t.anchor else toString t.anchor ++ ".." ++ toString t.limit
  if t.step = 1 then bounds else bounds ++ "/" ++ toString t.step

def Writable (t : Term) : Prop :=
  Numeral.Writable t.anchor ∧ Numeral.Writable t.limit ∧ Numeral.Writable t.step

instance (t : Term) : Decidable t.Writable := inferInstanceAs (Decidable (_ ∧ _))

/-- The form of `render`, which exists only if its numbers are short enough. -/
def text (t : Term) : Except Fault String :=
  if t.Writable then .ok t.render else raise .tooLongToWrite

end Term

end Excerpt
