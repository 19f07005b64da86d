import Std.Data.ExtTreeMap
import Excerpt.Plan
import Excerpt.Source
import Excerpt.Tail

/-!
# One pass over the input

A pass takes the lines in order. It pushes each one into the tail and keeps it
if a term that starts at a known line may want it; a term whose end counts from
the last line is taken to go on. The pass stops at the ceiling without pulling
another line. `Scan` is a pass together with what is left of the source.
-/

namespace Excerpt

abbrev Kept (α : Type) := Std.ExtTreeMap Int α

/-- Of two lines with one number the later one is kept. -/
def Kept.ofList {α : Type} (entries : List (Int × α)) : Kept α :=
  entries.foldl (fun kept e => kept.insert e.1 e.2) ∅

structure Pass (α : Type) where
  tail : Tail α
  kept : Kept α
  total : Int
  stopped : Bool

structure Scan (α : Type) where
  outcome : Except Fault (Pass α)
  source : Source α

/-- Whether the term may want a line, as far as can be told before the input has ended. -/
def Term.wants (t : Term) (line : Int) : Except Fault Bool :=
  if t.anchor ≤ line ∧ (t.limit < 0 ∨ line ≤ t.limit) then t.onStep line none else .ok false

/-- The terms that start at a known line. -/
def Term.live (terms : List Term) : List Term := terms.filter (fun t => 0 < t.anchor)

namespace Pass

variable {α : Type}

def new (plan : Plan) : Except Fault (Pass α) :=
  (Tail.new plan.capacity).map (fun tail => ⟨tail, ∅, 0, false⟩)

/-- The number of the oldest line in the tail. -/
def startLine (p : Pass α) : Int := p.tail.startLine p.total

/-- Takes the next line; `live` are the terms that start at a known line. -/
def take (live : List Term) (a : α) : Pass α → Except Fault (Pass α)
  | ⟨tail, kept, total, stopped⟩ =>
    (live.anyM (fun t : Term => t.wants (total + 1))).map (fun wanted =>
      ⟨tail.push a, if wanted then kept.insert (total + 1) a else kept, total + 1, stopped⟩)

def stop (p : Pass α) : Pass α := { p with stopped := true }

end Pass

namespace Scan

variable {α : Type}

def read (live : List Term) (ceiling : Option Int) : Nat → Source α → Pass α → Scan α
  | 0, s, _ => ⟨raise .sourceUnending, s⟩
  | pulls + 1, s, p =>
    match s.pull with
    | .ended => ⟨.ok p, s⟩
    | .failed reason => ⟨raise (.sourceFailed reason), s⟩
    | .item a rest =>
      match p.take live a with
      | .error f => ⟨.error f, rest⟩
      | .ok p =>
        if Plan.Reached ceiling p.total then ⟨.ok p.stop, rest⟩
        else read live ceiling pulls rest p

def ofPlan (terms : List Term) (plan : Plan) (s : Source α) : Scan α :=
  match Pass.new plan with
  | .error f => ⟨.error f, s⟩
  | .ok p => read (Term.live terms) plan.ceiling (s.pulls plan.ceiling) s p

end Scan

end Excerpt
