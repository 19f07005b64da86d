import Excerpt.Term.Basic
import Excerpt.Term.Shape

/-!
# Reading a term

The numbers of a written term are read in the order step, first bound, second
bound, and the first fault wins. A plus between the bounds adds to the first
one; a sum that counts from the end and runs past the last line stops there.
A bound of zero is rejected last.
-/

namespace Excerpt

open Text

def reject {α : Type} (cause : Rejection.Cause) (term : List Char) : Except Fault α :=
  .error (.rejected ⟨cause, String.ofList term⟩)

def Bound.value (b : Bound) : Except Fault Int :=
  (Numeral.read b.digits).map (fun n => if b.sign = some .minus then -(n : Int) else n)

def Shape.stepValue (s : Shape) : Except Fault Nat :=
  match s.step with
  | none => .ok 1
  | some digits => Numeral.read digits

/-- The line that lies `offset` lines after `first`. -/
def offsetBound (first offset : Int) : Int :=
  if first < 0 ∧ 0 ≤ first + offset then -1 else first + offset

def secondValue (term : List Char) (first : Int) : Option (Separator × Bound) → Except Fault Int
  | none => .ok first
  | some (.plus, b) => do
    let offset ← b.value
    if offset < 0 then reject (.negativeOffset offset) term else .ok (offsetBound first offset)
  | some (_, b) => b.value

def Shape.toTerm (term : List Char) (s : Shape) : Except Fault Term := do
  let step ← s.stepValue
  if step = 0 then reject .zeroStep term
  else
    match s.bounds with
    | none => Term.make Term.all.anchor Term.all.limit step
    | some (b, second) =>
      let first ← b.value
      let second ← secondValue term first second
      if first = 0 ∨ second = 0 then reject .zeroLine term else Term.ofBounds first second step

/-- Reads the text of one term; a text of blanks alone is no term. -/
def Term.read (term : List Char) : Except Fault Term :=
  match Shape.read term with
  | none => reject .malformed term
  | some s => if strip term = [] then reject .malformed term else s.toTerm term

end Excerpt
