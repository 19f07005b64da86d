import Excerpt.Event
import Excerpt.Selection
import Excerpt.Spec

/-!
# Runs

A run reads the lines that a specification or a list of terms selects from a
source: it plans, scans and settles. Its outcome is a selection or the fault
that broke it off; beside it stand the events of the run and what is left of
the source. Nothing is pulled before the terms are known and planned for.
-/

namespace Excerpt

structure Run (α : Type) where
  outcome : Except Fault (Selection α)
  events : List Event
  source : Source α

namespace Run

variable {α : Type}

/-- The end of a run, after the input has been read. -/
def ofPass (terms : List Term) (p : Pass α) (events : List Event) (s : Source α) : Run α :=
  match p.settle terms with
  | .error f => ⟨.error f, events, s⟩
  | .ok (settled, correction) =>
    ⟨.ok (Selection.ofPass settled), events ++ (correction.map Event.corrected).toList, s⟩

def ofTerms (terms : List Term) (s : Source α) : Run α :=
  match Plan.ofTerms terms with
  | .error f => ⟨.error f, [], s⟩
  | .ok plan =>
    let scan := Scan.ofPlan terms plan s
    match scan.outcome with
    | .error f => ⟨.error f, [.planned terms plan], scan.source⟩
    | .ok p => ofPass terms p [.planned terms plan, Event.ofPass p] scan.source

/-- A rejected specification is reported as an event. -/
def ofSpec (spec : String) (s : Source α) : Run α :=
  match Spec.parse spec with
  | .error (.rejected r) => ⟨.error (.rejected r), [.rejected spec r], s⟩
  | .error f => ⟨.error f, [], s⟩
  | .ok terms => ofTerms terms s

end Run

end Excerpt
