import Excerpt.Correction
import Excerpt.Text.Quoted

/-!
# Events of a run

What a run reports while it works, as data. The text of an event is the line
that a log shows for it; whether anyone reads the log changes nothing else.
-/

namespace Excerpt

inductive Event where
  | readingInput
  | rejected (spec : String) (r : Rejection)
  | planned (terms : List Term) (plan : Plan)
  | stopped (line : Int)
  | ended (total : Int) (kept held : Nat)
  | corrected (c : Correction)
  | selected (count : Nat) (total : Int) (early : Bool)

/-- The line that a log shows. -/
def Event.text : Event → String
  | .readingInput => "Reading standard input"
  | .rejected spec r => "Rejected spec " ++ Text.quoted spec ++ ": " ++ r.message
  | .planned terms plan =>
    "Planned " ++ ",".intercalate (terms.map Term.render) ++ ": buffer=" ++
      toString plan.capacity ++ " ceiling=" ++ plan.ceiling.elim "None" toString
  | .stopped line => "Stopped reading at line " ++ toString line ++ " (ceiling)"
  | .ended total kept held =>
    "Read " ++ toString total ++ " lines, " ++ toString kept ++ " selected provisionally, " ++
      toString held ++ " buffered"
  | .corrected c =>
    "Reconciled lines " ++ toString c.first ++ ".." ++ toString c.total ++ " of " ++
      toString c.total ++ ": removed=" ++ toString c.removed ++ " added=" ++ toString c.added
  | .selected count total early =>
    "Selected " ++ toString count ++ " of " ++ toString total ++ " lines read" ++
      if early then " (stopped early)" else ""

/-- How reading came to an end. -/
def Event.ofPass {α : Type} (p : Pass α) : Event :=
  if p.stopped then .stopped p.total else .ended p.total p.kept.size p.tail.size

end Excerpt
