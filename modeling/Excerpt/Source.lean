/-!
# Sources of lines

Lines are pulled from a source one at a time. A source knows how many it has
served. What it can still serve is a list, a number of lines that are made when
they are pulled, or lines without end; a list and a number of lines end or fail
after the last one.
-/

namespace Excerpt

inductive Ending where
  | finished
  | failed (reason : String)
  deriving DecidableEq

/-- An item that is made depends on how many were served before it. -/
inductive Supply (α : Type) where
  | listed (rest : List α) (ending : Ending)
  | counted (item : Nat → α) (left : Nat) (ending : Ending)
  | endless (item : Nat → α)

structure Source (α : Type) where
  served : Nat
  supply : Supply α

inductive Pull (α : Type) where
  | item (a : α) (rest : Source α)
  | ended
  | failed (reason : String)

/-- What a reader meets behind the last item. -/
def Ending.pull {α : Type} : Ending → Pull α
  | finished => .ended
  | failed reason => .failed reason

theorem Ending.pull_ne_item {α : Type} (e : Ending) (a : α) (rest : Source α) :
    e.pull ≠ .item a rest := by
  cases e <;> simp [Ending.pull]

namespace Source

variable {α : Type}

def ofList (xs : List α) : Source α := ⟨0, .listed xs .finished⟩

def counted (item : Nat → α) (count : Nat) : Source α := ⟨0, .counted item count .finished⟩

def endless (item : Nat → α) : Source α := ⟨0, .endless item⟩

/-- The source that fails when it is asked for one more than `count` items, if it has so many. -/
def failAfter (count : Nat) (reason : String) (s : Source α) : Source α :=
  match s.supply with
  | .endless item => ⟨s.served, .counted item count (.failed reason)⟩
  | .counted item left ending =>
    if count ≤ left then ⟨s.served, .counted item count (.failed reason)⟩
    else ⟨s.served, .counted item left ending⟩
  | .listed rest ending =>
    if count ≤ rest.length then ⟨s.served, .listed (rest.take count) (.failed reason)⟩
    else ⟨s.served, .listed rest ending⟩

def pull : Source α → Pull α
  | ⟨_, .listed [] ending⟩ => ending.pull
  | ⟨n, .listed (a :: rest) ending⟩ => .item a ⟨n + 1, .listed rest ending⟩
  | ⟨_, .counted _ 0 ending⟩ => ending.pull
  | ⟨n, .counted item (left + 1) ending⟩ => .item (item n) ⟨n + 1, .counted item left ending⟩
  | ⟨n, .endless item⟩ => .item (item n) ⟨n + 1, .endless item⟩

theorem served_of_pull (s : Source α) (a : α) (rest : Source α) (h : s.pull = .item a rest) :
    rest.served = s.served + 1 := by
  unfold pull at h
  split at h
  case h_1 => exact absurd h (Ending.pull_ne_item _ _ _)
  case h_3 => exact absurd h (Ending.pull_ne_item _ _ _)
  all_goals
    cases h
    rfl

/-- How often a reader that stops at the ceiling may have to pull; an endless source without a
ceiling allows no reading at all. -/
def pulls (s : Source α) (ceiling : Option Int) : Nat :=
  match s.supply with
  | .listed rest _ => rest.length + 1
  | .counted _ left _ => left + 1
  | .endless _ => ceiling.elim 0 (fun c => (max c 1).toNat)

end Source

end Excerpt
