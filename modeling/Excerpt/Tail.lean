import Excerpt.Fault

/-!
# The last lines of an input

A tail keeps the last lines that were pushed, up to its capacity, in a fixed
ring of slots: a push overwrites the oldest line once the ring is full. Offsets
count from the oldest line held, line numbers are told from the total, and an
offset outside the lines held is a fault.
-/

namespace Excerpt

structure Tail (α : Type) where
  slots : Array (Option α)
  head : Nat
  size : Nat

namespace Tail

variable {α : Type}

/-- The least capacity that no ring can have. -/
def capacityLimit : Int := 9223372036854775808

def new (capacity : Int) : Except Fault (Tail α) :=
  if capacity < 0 then raise (.capacityNegative capacity)
  else if capacityLimit ≤ capacity then raise .capacityTooLarge
  else .ok ⟨Array.replicate capacity.toNat none, 0, 0⟩

def capacity (t : Tail α) : Nat := t.slots.size

def push (t : Tail α) (a : α) : Tail α :=
  match t with
  | ⟨slots, head, size⟩ =>
    if slots.size = 0 then ⟨slots, head, size⟩
    else
      ⟨slots.setIfInBounds head (some a), (head + 1) % slots.size,
        if size < slots.size then size + 1 else size⟩

@[simp] theorem capacity_push (t : Tail α) (a : α) : (t.push a).capacity = t.capacity := by
  unfold push capacity
  split
  split <;> simp

theorem size_push (t : Tail α) (a : α) :
    (t.push a).size = if t.size < t.capacity then t.size + 1 else t.size := by
  unfold push capacity
  split
  rename_i slots head size
  by_cases h : slots.size = 0 <;> simp [h]

/-- The slot of the oldest line held. -/
def oldest (t : Tail α) : Nat := (t.head + t.capacity - t.size) % t.capacity

def get (t : Tail α) (offset : Int) : Except Fault α :=
  if 0 ≤ offset ∧ offset < t.size then
    match t.slots[(t.oldest + offset.toNat) % t.capacity]? with
    | some (some a) => .ok a
    | _ => raise .slotEmpty
  else raise (.offsetOutside offset t.size)

/-- The lines held, oldest first. -/
def lines (t : Tail α) : Except Fault (List α) :=
  (List.range t.size).mapM (fun k : Nat => t.get k)

/-- The number of the oldest line held, when `total` lines have been pushed. -/
def startLine (t : Tail α) (total : Int) : Int := total - t.size + 1

def lineAt (t : Tail α) (line total : Int) : Except Fault α := t.get (line - t.startLine total)

end Tail

end Excerpt
