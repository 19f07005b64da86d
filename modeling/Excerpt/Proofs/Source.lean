import Mathlib.Data.ENat.Basic
import Excerpt.Source

/-!
# What a source serves

A source is known by the items that its pulls bring out, by how many there are,
and by what a reader meets behind the last one. `items` and `after` follow the
pulls; `available` and `ending?` are read off the supply and agree with them.
-/

namespace Excerpt.Source

variable {α : Type}

/-- How many items are left; a source without end has `⊤`. -/
def available : Source α → ℕ∞
  | ⟨_, .listed rest _⟩ => rest.length
  | ⟨_, .counted _ left _⟩ => left
  | ⟨_, .endless _⟩ => ⊤

/-- What comes behind the last item, if there is a last one. -/
def ending? : Source α → Option Ending
  | ⟨_, .listed _ ending⟩ => some ending
  | ⟨_, .counted _ _ ending⟩ => some ending
  | ⟨_, .endless _⟩ => none

/-- The items of the first `k` pulls. -/
def items : Nat → Source α → List α
  | 0, _ => []
  | k + 1, s =>
    match s.pull with
    | .item a rest => a :: items k rest
    | _ => []

/-- What is left after `k` pulls. -/
def after : Nat → Source α → Source α
  | 0, s => s
  | k + 1, s =>
    match s.pull with
    | .item _ rest => after k rest
    | _ => s

/-- Everything that a pull can do. -/
theorem pull_cases (s : Source α) :
    (∃ a rest, s.pull = .item a rest ∧ s.available = rest.available + 1 ∧
      rest.ending? = s.ending?) ∨
    (∃ e, s.pull = e.pull ∧ s.available = 0 ∧ s.ending? = some e) := by
  obtain ⟨n, supply⟩ := s
  cases supply with
  | listed rest ending =>
    cases rest with
    | nil => exact .inr ⟨ending, rfl, rfl, rfl⟩
    | cons a rest => exact .inl ⟨a, _, rfl, by simp [available], rfl⟩
  | counted item left ending =>
    cases left with
    | zero => exact .inr ⟨ending, rfl, rfl, rfl⟩
    | succ left => exact .inl ⟨item n, _, rfl, by simp [available], rfl⟩
  | endless item => exact .inl ⟨item n, _, rfl, rfl, rfl⟩

theorem available_eq_top_iff (s : Source α) : s.available = ⊤ ↔ s.ending? = none := by
  obtain ⟨n, supply⟩ := s
  cases supply <;> simp [available, ending?]

theorem exists_pull_of_le (s : Source α) (k : Nat) (h : ((k + 1 : Nat) : ℕ∞) ≤ s.available) :
    ∃ a rest, s.pull = .item a rest ∧ s.available = rest.available + 1 ∧
      rest.ending? = s.ending? ∧ (k : ℕ∞) ≤ rest.available := by
  obtain ⟨a, rest, pulled, count, ending⟩ | ⟨_, _, none_left, _⟩ := s.pull_cases
  · refine ⟨a, rest, pulled, count, ending, ?_⟩
    rw [count, Nat.cast_succ] at h
    exact (ENat.add_le_add_iff_right ENat.one_ne_top).mp h
  · rw [none_left, nonpos_iff_eq_zero] at h
    exact absurd (Nat.cast_eq_zero.mp h) (Nat.succ_ne_zero k)

theorem length_items (s : Source α) (k : Nat) (h : (k : ℕ∞) ≤ s.available) :
    (s.items k).length = k := by
  induction k generalizing s with
  | zero => rfl
  | succ k ih =>
    obtain ⟨a, rest, pulled, _, _, more⟩ := s.exists_pull_of_le k h
    simp only [items, pulled, List.length_cons]
    rw [ih rest more]

theorem served_after (s : Source α) (k : Nat) (h : (k : ℕ∞) ≤ s.available) :
    (s.after k).served = s.served + k := by
  induction k generalizing s with
  | zero => rfl
  | succ k ih =>
    obtain ⟨a, rest, pulled, _, _, more⟩ := s.exists_pull_of_le k h
    simp only [after, pulled]
    rw [ih rest more, served_of_pull s a rest pulled, Nat.add_assoc, Nat.add_comm 1 k]

theorem available_after (s : Source α) (k : Nat) (h : (k : ℕ∞) ≤ s.available) :
    s.available = (s.after k).available + k := by
  induction k generalizing s with
  | zero => simp [after]
  | succ k ih =>
    obtain ⟨a, rest, pulled, count, _, more⟩ := s.exists_pull_of_le k h
    simp only [after, pulled]
    rw [count, ih rest more, Nat.cast_succ, add_assoc]

theorem le_available_after (s : Source α) (j k : Nat) (h : ((j + k : Nat) : ℕ∞) ≤ s.available) :
    (k : ℕ∞) ≤ (s.after j).available := by
  have before : (j : ℕ∞) ≤ s.available := le_trans (Nat.cast_le.mpr (Nat.le_add_right j k)) h
  rw [s.available_after j before, Nat.cast_add, add_comm] at h
  exact (ENat.add_le_add_iff_right (ENat.natCast_ne_top j)).mp h

theorem ending?_after (s : Source α) (k : Nat) (h : (k : ℕ∞) ≤ s.available) :
    (s.after k).ending? = s.ending? := by
  induction k generalizing s with
  | zero => rfl
  | succ k ih =>
    obtain ⟨a, rest, pulled, _, ending, more⟩ := s.exists_pull_of_le k h
    simp only [after, pulled]
    rw [ih rest more, ending]

theorem pull_after_available (s : Source α) (n : Nat) (e : Ending) (h : s.available = n)
    (ends : s.ending? = some e) : (s.after n).pull = e.pull := by
  have rest := s.available_after n h.ge
  rw [h] at rest
  obtain ⟨a, left, _, count, _⟩ | ⟨e', pulled, _, ending⟩ := (s.after n).pull_cases
  · rw [count, add_assoc, add_comm 1] at rest
    have more : ((n + 1 : Nat) : ℕ∞) ≤ n := by
      rw [rest, Nat.cast_succ]
      exact le_add_self
    exact absurd (Nat.cast_le.mp more) (Nat.not_succ_le_self n)
  · rw [s.ending?_after n h.ge, ends] at ending
    cases ending
    exact pulled

theorem items_add (s : Source α) (j k : Nat) :
    s.items (j + k) = s.items j ++ (s.after j).items k := by
  induction j generalizing s with
  | zero => rw [Nat.zero_add]; rfl
  | succ j ih =>
    rw [Nat.add_right_comm]
    cases pulled : s.pull with
    | item a rest => simp only [items, after, pulled, ih rest, List.cons_append]
    | ended => cases k <;> simp [items, after, pulled]
    | failed reason => cases k <;> simp [items, after, pulled]

theorem after_add (s : Source α) (j k : Nat) : s.after (j + k) = (s.after j).after k := by
  induction j generalizing s with
  | zero => rw [Nat.zero_add]; rfl
  | succ j ih =>
    rw [Nat.add_right_comm]
    cases pulled : s.pull with
    | item a rest => simp only [after, pulled, ih rest]
    | ended => cases k <;> simp [after, pulled]
    | failed reason => cases k <;> simp [after, pulled]

theorem items_ofList (xs : List α) (k : Nat) : (ofList xs).items k = xs.take k := by
  have listed : ∀ n, items k ⟨n, .listed xs .finished⟩ = xs.take k := by
    induction k generalizing xs with
    | zero => exact fun _ => rfl
    | succ k ih =>
      intro n
      cases xs with
      | nil => rfl
      | cons a rest => exact congrArg (a :: ·) (ih rest (n + 1))
  exact listed 0

theorem items_counted (item : Nat → α) (count : Nat) {k : Nat} (h : k ≤ count) :
    (counted item count).items k = (List.range k).map item := by
  have served : ∀ n left, k ≤ left →
      items k ⟨n, .counted item left .finished⟩ = (List.range' n k).map item := by
    clear h
    induction k with
    | zero => exact fun _ _ _ => rfl
    | succ k ih =>
      intro n left more
      obtain ⟨left, rfl⟩ : ∃ m, left = m + 1 := Nat.exists_eq_add_one_of_ne_zero (by omega)
      exact congrArg (item n :: ·) (ih (n + 1) left (Nat.le_of_succ_le_succ more))
  rw [List.range_eq_range']
  exact served 0 count h

end Excerpt.Source
