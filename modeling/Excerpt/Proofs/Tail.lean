import Mathlib.Data.List.DropRight
import Excerpt.Tail
import Excerpt.Proofs.Traversal

/-!
# What a tail holds

A ring of slots stands for the lines that it holds, oldest first. Starting from
an empty ring, whatever is pushed, these are the last lines pushed, as many as
the capacity allows. Reading goes through this list alone: an offset inside it
gives its line, and every other offset is a fault.
-/

namespace Excerpt.Tail

variable {α : Type}

/-- The slots from the oldest one on hold the lines `xs`, and none are held besides them. -/
structure Holds (t : Tail α) (xs : List α) : Prop where
  size_eq : t.size = xs.length
  size_le : t.size ≤ t.capacity
  head_lt : 0 < t.capacity → t.head < t.capacity
  slot : ∀ k < xs.length, t.slots[(t.oldest + k) % t.capacity]? = xs[k]?.map some

/-- An index that stays below two rounds wraps at most once. -/
theorem mod_eq_ite {i n : Nat} (h : i < 2 * n) : i % n = if i < n then i else i - n := by
  split
  · exact Nat.mod_eq_of_lt (by assumption)
  · rw [Nat.mod_eq_sub_mod (by omega), Nat.mod_eq_of_lt (by omega)]

theorem new_eq_ok {capacity : Int} (low : 0 ≤ capacity) (high : capacity < capacityLimit) :
    (new capacity : Except Fault (Tail α)) =
      .ok ⟨Array.replicate capacity.toNat none, 0, 0⟩ := by
  rw [new, if_neg (by omega), if_neg (by omega)]

theorem new_eq_error {capacity : Int} (high : capacityLimit ≤ capacity) :
    (new capacity : Except Fault (Tail α)) = .error .capacityTooLarge := by
  have low : ¬ capacity < 0 := by
    unfold capacityLimit at high
    omega
  rw [new, if_neg low, if_pos high]
  apply raise_eq_error
  intro n mem
  cases mem

theorem holds_empty (capacity : Nat) :
    (⟨Array.replicate capacity none, 0, 0⟩ : Tail α).Holds [] where
  size_eq := rfl
  size_le := Nat.zero_le _
  head_lt := id
  slot k h := absurd h (Nat.not_lt_zero k)

theorem holds_of_new {capacity : Int} {t : Tail α} (created : Tail.new capacity = .ok t) :
    t.Holds [] ∧ (t.capacity : Int) = capacity := by
  unfold Tail.new at created
  split at created
  · cases created
  · split at created
    · cases created
    · cases created
      refine ⟨holds_empty _, ?_⟩
      rw [Tail.capacity, Array.size_replicate]
      omega

theorem push_of_capacity_zero (t : Tail α) (a : α) (h : t.capacity = 0) : t.push a = t := by
  unfold capacity at h
  simp [push, h]

theorem push_of_capacity_pos (t : Tail α) (a : α) (h : 0 < t.capacity) :
    t.push a = ⟨t.slots.setIfInBounds t.head (some a), (t.head + 1) % t.capacity,
      if t.size < t.capacity then t.size + 1 else t.size⟩ := by
  unfold capacity at h ⊢
  simp [push, Nat.ne_of_gt h]

/-- While the ring is not full the oldest slot stays where it is. -/
theorem Holds.oldest_push_of_lt {t : Tail α} {xs : List α} (h : t.Holds xs) (a : α)
    (room : t.size < t.capacity) : (t.push a).oldest = t.oldest := by
  have head := h.head_lt (by omega)
  rw [push_of_capacity_pos t a (by omega), oldest, oldest, if_pos room]
  simp only [capacity, Array.size_setIfInBounds] at *
  rw [mod_eq_ite (i := t.head + 1) (by omega)]
  split
  · rw [show t.head + 1 + t.slots.size - (t.size + 1) = t.head + t.slots.size - t.size by omega]
  · rw [show t.head + 1 - t.slots.size + t.slots.size - (t.size + 1) = t.head - t.size by omega]
    rw [show t.head + t.slots.size - t.size = t.head - t.size + t.slots.size by omega]
    exact (Nat.add_mod_right _ _).symm

/-- A push into a full ring overwrites the oldest slot, so the one after it becomes the oldest. -/
theorem Holds.oldest_push_of_full {t : Tail α} {xs : List α} (h : t.Holds xs) (a : α)
    (pos : 0 < t.capacity) (full : t.size = t.capacity) :
    t.oldest = t.head ∧ (t.push a).oldest = (t.head + 1) % t.capacity := by
  have head := h.head_lt pos
  constructor
  · rw [oldest, full, Nat.add_sub_cancel, Nat.mod_eq_of_lt head]
  · rw [push_of_capacity_pos t a pos, oldest, if_neg (by omega), full]
    simp only [capacity, Array.size_setIfInBounds, Nat.add_sub_cancel, Nat.mod_mod]

theorem Holds.push_of_lt {t : Tail α} {xs : List α} (h : t.Holds xs) (a : α)
    (room : t.size < t.capacity) : (t.push a).Holds (xs ++ [a]) where
  size_eq := by
    rw [size_push, if_pos room, h.size_eq, List.length_append, List.length_singleton]
  size_le := by
    rw [capacity_push, size_push, if_pos room]
    exact room
  head_lt pos := by
    rw [capacity_push] at pos ⊢
    rw [push_of_capacity_pos t a pos]
    exact Nat.mod_lt _ pos
  slot k hk := by
    have head := h.head_lt (by omega)
    have size := h.size_eq
    rw [h.oldest_push_of_lt a room, capacity_push, push_of_capacity_pos t a (by omega)]
    rw [List.length_append, List.length_singleton] at hk
    by_cases last : k = xs.length
    · have written : (t.oldest + k) % t.capacity = t.head := by
        have around : t.head + t.capacity - t.size + k = t.head + t.capacity := by omega
        rw [oldest, Nat.mod_add_mod, around, Nat.add_mod_right, Nat.mod_eq_of_lt head]
      subst last
      rw [written, Array.getElem?_setIfInBounds_self_of_lt head, List.getElem?_concat_length]
      rfl
    · have other : t.head ≠ (t.oldest + k) % t.capacity := by
        rw [oldest, Nat.mod_add_mod, mod_eq_ite (by omega)]
        split <;> omega
      rw [Array.getElem?_setIfInBounds_ne other, h.slot k (by omega),
        List.getElem?_append_left (by omega)]

theorem Holds.push_of_full {t : Tail α} {xs : List α} (h : t.Holds xs) (a : α)
    (pos : 0 < t.capacity) (full : t.size = t.capacity) : (t.push a).Holds (xs.tail ++ [a]) where
  size_eq := by
    have size := h.size_eq
    rw [size_push, if_neg (by omega), List.length_append, List.length_tail, List.length_singleton]
    omega
  size_le := by
    rw [capacity_push, size_push, if_neg (by omega)]
    exact h.size_le
  head_lt _ := by
    rw [capacity_push, push_of_capacity_pos t a pos]
    exact Nat.mod_lt _ pos
  slot k hk := by
    have head := h.head_lt pos
    have size := h.size_eq
    obtain ⟨start, start_push⟩ := h.oldest_push_of_full a pos full
    rw [start_push, capacity_push, Nat.mod_add_mod, push_of_capacity_pos t a pos]
    rw [List.length_append, List.length_tail, List.length_singleton] at hk
    by_cases last : k = xs.tail.length
    · rw [List.length_tail] at last
      have written : (t.head + 1 + k) % t.capacity = t.head := by
        rw [show t.head + 1 + k = t.head + t.capacity by omega, Nat.add_mod_right,
          Nat.mod_eq_of_lt head]
      rw [written, Array.getElem?_setIfInBounds_self_of_lt head,
        show k = xs.tail.length by rw [List.length_tail, last], List.getElem?_concat_length]
      rfl
    · rw [List.length_tail] at last
      have other : t.head ≠ (t.head + 1 + k) % t.capacity := by
        rw [mod_eq_ite (by omega)]
        split <;> omega
      have old := h.slot (k + 1) (by omega)
      rw [start, Nat.add_comm k 1, ← Nat.add_assoc] at old
      rw [Array.getElem?_setIfInBounds_ne other, old,
        List.getElem?_append_left (by rw [List.length_tail]; omega), List.getElem?_tail,
        Nat.add_comm 1 k]

/-- A push keeps the last lines of those held and the new one. -/
theorem Holds.push {t : Tail α} {xs : List α} (h : t.Holds xs) (a : α) :
    (t.push a).Holds ((xs ++ [a]).rtake t.capacity) := by
  have size := h.size_eq
  have size_le := h.size_le
  rw [List.rtake, List.length_append, List.length_singleton]
  by_cases zero : t.capacity = 0
  · rw [push_of_capacity_zero t a zero, List.drop_of_length_le (by simp [zero])]
    rwa [List.eq_nil_of_length_eq_zero (by omega : xs.length = 0)] at h
  by_cases room : t.size < t.capacity
  · rw [show xs.length + 1 - t.capacity = 0 by omega]
    exact h.push_of_lt a room
  · rw [show xs.length + 1 - t.capacity = 1 by omega, List.drop_one,
      List.tail_append_of_ne_nil (List.ne_nil_of_length_pos (by omega))]
    exact h.push_of_full a (by omega) (by omega)

theorem rtake_append_singleton (xs : List α) (a : α) (n : Nat) :
    (xs.rtake n ++ [a]).rtake n = (xs ++ [a]).rtake n := by
  cases n with
  | zero => rw [List.rtake_zero, List.rtake_zero]
  | succ n =>
    rw [List.rtake_concat_succ, List.rtake_concat_succ]
    simp [List.rtake_eq_reverse_take_reverse, List.take_take]

theorem rtake_eq_nil_iff {n : Nat} (pos : 0 < n) (xs : List α) : xs.rtake n = [] ↔ xs = [] := by
  rw [List.rtake, List.drop_eq_nil_iff, ← List.length_eq_zero_iff]
  omega

/-- After the lines `xs` have been pushed, the next push keeps the last lines again. -/
theorem Holds.push_rtake {t : Tail α} {xs : List α} (h : t.Holds (xs.rtake t.capacity)) (a : α) :
    (t.push a).Holds ((xs ++ [a]).rtake t.capacity) := by
  rw [← rtake_append_singleton]
  exact h.push a

/-- After the lines `ys` have been pushed too, the ring holds the last of all lines. -/
theorem Holds.foldl_push {t : Tail α} {xs : List α} (h : t.Holds (xs.rtake t.capacity))
    (ys : List α) :
    (ys.foldl Tail.push t).capacity = t.capacity ∧
      (ys.foldl Tail.push t).Holds ((xs ++ ys).rtake t.capacity) := by
  induction ys generalizing t xs with
  | nil => exact ⟨rfl, by rwa [List.append_nil]⟩
  | cons y ys ih =>
    have next : (t.push y).Holds ((xs ++ [y]).rtake (t.push y).capacity) := by
      rw [capacity_push]
      exact h.push_rtake y
    obtain ⟨capacity, holds⟩ := ih next
    rw [capacity_push] at capacity holds
    rw [List.append_assoc] at holds
    exact ⟨capacity, holds⟩

theorem Holds.foldl_push_of_nil {t : Tail α} (h : t.Holds []) (ys : List α) :
    (ys.foldl Tail.push t).capacity = t.capacity ∧
      (ys.foldl Tail.push t).Holds (ys.rtake t.capacity) := by
  have empty : t.Holds (List.rtake [] t.capacity) := by rwa [List.rtake_nil]
  exact empty.foldl_push ys

/-- The tails that there are: new ones, and those that lines have been pushed to. -/
inductive Made : Tail α → Prop
  | new {capacity : Int} {t : Tail α} : Tail.new capacity = .ok t → Made t
  | push {t : Tail α} (a : α) : Made t → Made (t.push a)

theorem Made.exists_holds {t : Tail α} (made : t.Made) : ∃ xs, t.Holds xs := by
  induction made with
  | new created => exact ⟨[], (holds_of_new created).1⟩
  | @push t a _ ih =>
    obtain ⟨xs, h⟩ := ih
    exact ⟨_, h.push a⟩

theorem Holds.get {t : Tail α} {xs : List α} (h : t.Holds xs) (k : Nat) (hk : k < xs.length) :
    t.get k = .ok xs[k] := by
  have size := h.size_eq
  rw [Tail.get, if_pos (by omega), Int.toNat_natCast, h.slot k hk, List.getElem?_eq_getElem hk]
  rfl

/-- The fault of an offset outside the lines held. Its message writes the offset, so an offset with
too many digits to be written comes to another fault. -/
def outsideFault (offset : Int) (size : Nat) : Fault :=
  if Numeral.Writable offset then .offsetOutside offset size else .tooLongToWrite

theorem raise_offsetOutside (offset : Int) (size : Nat) :
    (raise (.offsetOutside offset size) : Except Fault α) = .error (outsideFault offset size) := by
  simp [raise, Fault.numbers, outsideFault]

theorem Holds.lines {t : Tail α} {xs : List α} (h : t.Holds xs) : t.lines = .ok xs := by
  have size := h.size_eq
  have read : ∀ k ∈ List.range t.size, ∀ a, t.get (k : Nat) = .ok a ↔ xs[k]? = some a := by
    intro k mem a
    have inside : k < xs.length := size ▸ List.mem_range.mp mem
    rw [h.get k inside, List.getElem?_eq_getElem inside, Except.ok.injEq, Option.some.injEq]
  rw [Tail.lines, mapM_eq_ok_iff _ _ _ read, List.forall₂_iff_get]
  refine ⟨by rw [List.length_range, size], ?_⟩
  intro k _ inside
  simp only [List.get_eq_getElem, List.getElem_range, List.getElem?_eq_getElem inside]

theorem Holds.get_inside {t : Tail α} {xs : List α} (h : t.Holds xs) (offset : Int)
    (nonneg : 0 ≤ offset) (inside : offset < xs.length) :
    ∃ a, xs[offset.toNat]? = some a ∧ t.get offset = .ok a := by
  obtain ⟨k, rfl⟩ := Int.eq_ofNat_of_zero_le nonneg
  have inside : k < xs.length := by omega
  exact ⟨xs[k], List.getElem?_eq_getElem inside, h.get k inside⟩

theorem get_of_outside (t : Tail α) (offset : Int) (outside : ¬ (0 ≤ offset ∧ offset < t.size)) :
    t.get offset = .error (outsideFault offset t.size) := by
  rw [Tail.get, if_neg outside, raise_offsetOutside]

/-- A slot that is read has been written. -/
theorem Holds.get_ne_slotEmpty {t : Tail α} {xs : List α} (h : t.Holds xs) (offset : Int) :
    t.get offset ≠ .error .slotEmpty := by
  by_cases inside : 0 ≤ offset ∧ offset < t.size
  · obtain ⟨a, -, read⟩ := h.get_inside offset inside.1 (h.size_eq ▸ inside.2)
    rw [read]
    exact nofun
  · rw [t.get_of_outside offset inside, outsideFault]
    split
    · exact nofun
    · exact nofun

theorem Holds.startLine {t : Tail α} {xs : List α} (h : t.Holds xs) (total : Int) :
    t.startLine total = total - xs.length + 1 := by
  rw [Tail.startLine, h.size_eq]

theorem Holds.lineAt {t : Tail α} {xs : List α} (h : t.Holds xs) (line total : Int)
    (low : total - xs.length < line) (high : line ≤ total) :
    ∃ a, xs[(line - (total - xs.length + 1)).toNat]? = some a ∧ t.lineAt line total = .ok a := by
  rw [Tail.lineAt, h.startLine]
  exact h.get_inside _ (by omega) (by omega)

theorem lineAt_of_outside (t : Tail α) (line total : Int)
    (outside : ¬ (t.startLine total ≤ line ∧ line ≤ total)) :
    t.lineAt line total = .error (outsideFault (line - t.startLine total) t.size) := by
  rw [Tail.lineAt]
  apply t.get_of_outside
  unfold Tail.startLine at outside ⊢
  omega

/-- The line with a number is the one at the same place among all lines that were pushed. -/
theorem Holds.lineAt_rtake {t : Tail α} {pushed : List α} {capacity : Nat}
    (h : t.Holds (pushed.rtake capacity)) (line : Int)
    (low : t.startLine pushed.length ≤ line) (high : line ≤ pushed.length) :
    ∃ a, pushed[(line - 1).toNat]? = some a ∧ t.lineAt line pushed.length = .ok a := by
  have start := h.startLine pushed.length
  have length : (pushed.rtake capacity).length = pushed.length - (pushed.length - capacity) :=
    List.length_drop
  obtain ⟨a, found, read⟩ := h.lineAt line pushed.length (by omega) high
  refine ⟨a, ?_, read⟩
  rw [length, List.rtake, List.getElem?_drop] at found
  rw [← found]
  congr 1
  omega

/-- After any lines have been pushed a ring holds the last of them, as many as its capacity allows.
Offsets and line numbers of these are read, and no slot that is read is empty. Every other offset is
a fault: it is outside if the message can write it, and too long to be written if it cannot. -/
theorem reads_last_pushed (capacity : Int) (low : 0 ≤ capacity)
    (high : capacity < capacityLimit) (pushed : List α) :
    ∃ empty t, Tail.new capacity = .ok empty ∧ pushed.foldl Tail.push empty = t ∧
      (t.slots.size : Int) = capacity ∧
      (t.size : Int) = min capacity pushed.length ∧
      t.lines = .ok (pushed.rtake t.size) ∧
      (∀ k : Int, 0 ≤ k → k < t.size →
        ∃ a, (pushed.rtake t.size)[k.toNat]? = some a ∧ t.get k = .ok a) ∧
      (∀ k : Int, ¬ (0 ≤ k ∧ k < t.size) → t.get k = .error (outsideFault k t.size)) ∧
      (∀ k, t.get k ≠ .error .slotEmpty) ∧
      t.startLine pushed.length = pushed.length - min capacity pushed.length + 1 ∧
      (∀ i, t.startLine pushed.length ≤ i → i ≤ pushed.length →
        ∃ a, pushed[(i - 1).toNat]? = some a ∧ t.lineAt i pushed.length = .ok a) ∧
      (∀ i, ¬ (t.startLine pushed.length ≤ i ∧ i ≤ pushed.length) →
        t.lineAt i pushed.length =
          .error (outsideFault (i - t.startLine pushed.length) t.size)) := by
  obtain ⟨empty, created⟩ : ∃ empty : Tail α, Tail.new capacity = .ok empty :=
    ⟨_, new_eq_ok low high⟩
  obtain ⟨none_held, room⟩ := holds_of_new created
  obtain ⟨slots, h⟩ := none_held.foldl_push_of_nil pushed
  rw [show empty.capacity = capacity.toNat by omega] at slots h
  have length : (pushed.rtake capacity.toNat).length = min capacity.toNat pushed.length := by
    rw [List.rtake, List.length_drop]
    omega
  have size := h.size_eq.trans length
  have held : pushed.rtake (min capacity.toNat pushed.length) = pushed.rtake capacity.toNat := by
    rw [List.rtake, List.rtake]
    congr 1
    omega
  refine ⟨empty, _, created, rfl, ?_, ?_, ?_, ?_, ?_, ?_, ?_, ?_, ?_⟩
  · rw [← Tail.capacity, slots]
    omega
  · omega
  · rw [size, held]
    exact h.lines
  · intro k nonneg inside
    rw [size, held]
    exact h.get_inside k nonneg (by omega)
  · intro k outside
    exact get_of_outside _ k outside
  · exact h.get_ne_slotEmpty
  · rw [h.startLine, length]
    omega
  · exact h.lineAt_rtake
  · intro i outside
    exact lineAt_of_outside _ i _ outside

/-- Five lines through a ring of three slots. -/
theorem reads_last_pushed_wrapped :
    ∃ empty t, Tail.new 3 = .ok empty ∧ ["a", "b", "c", "d", "e"].foldl Tail.push empty = t ∧
      t.lines = .ok ["c", "d", "e"] ∧ t.get 2 = .ok "e" ∧
      t.get (-1) = .error (.offsetOutside (-1) 3) ∧
      t.lineAt 3 5 = .ok "c" ∧ t.lineAt 2 5 = .error (.offsetOutside (-1) 3) := by
  obtain ⟨empty, t, new, pushed, -, size, lines, inside, outside, -, start, inside', outside'⟩ :=
    reads_last_pushed 3 (by decide) (by decide) ["a", "b", "c", "d", "e"]
  obtain rfl : (⟨#[none, none, none], 0, 0⟩ : Tail String) = empty := Except.ok.inj new
  subst pushed
  have named : outsideFault (-1) 3 = .offsetOutside (-1) 3 := if_pos (by decide +kernel)
  refine ⟨_, _, new, rfl, lines, ?_, named ▸ outside (-1) (by decide), ?_,
    named ▸ outside' 2 (by decide)⟩
  · obtain ⟨a, found, read⟩ := inside 2 (by decide) (by decide)
    cases found
    exact read
  · obtain ⟨a, found, read⟩ := inside' 3 (by decide) (by decide)
    cases found
    exact read

/-- A line number before the ring that can be written, while its offset has a digit too many. -/
theorem lineAt_far_before :
    ∃ empty t, Tail.new 1 = .ok empty ∧ empty.push "a" = t ∧
      1 - Nat.pow 10 Numeral.maxDigits < t.startLine 1 ∧
      Numeral.Writable (1 - Nat.pow 10 Numeral.maxDigits) ∧
      t.lineAt (1 - Nat.pow 10 Numeral.maxDigits) 1 = .error .tooLongToWrite := by
  have pos : 0 < Nat.pow 10 Numeral.maxDigits := by decide +kernel
  have start : (⟨#[some "a"], 0, 1⟩ : Tail String).startLine 1 = 1 := rfl
  have long : ¬ Numeral.Writable (1 - Nat.pow 10 Numeral.maxDigits - 1) := by
    unfold Numeral.Writable
    generalize Nat.pow 10 Numeral.maxDigits = limit at *
    omega
  refine ⟨⟨#[none], 0, 0⟩, ⟨#[some "a"], 0, 1⟩, rfl, rfl, ?_, ?_, ?_⟩
  · generalize Nat.pow 10 Numeral.maxDigits = limit at *
    omega
  · unfold Numeral.Writable
    generalize Nat.pow 10 Numeral.maxDigits = limit at *
    omega
  · generalize Nat.pow 10 Numeral.maxDigits = limit at *
    rw [lineAt_of_outside _ _ _ (by omega), start, outsideFault, if_neg long]

end Excerpt.Tail
