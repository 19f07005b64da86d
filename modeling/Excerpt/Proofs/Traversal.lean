import Mathlib.Data.List.Forall2

/-!
# Reading a list element by element

The outcome of `mapM` in `Except` is told by the outcomes for the elements: all
of them succeed, or the first one that fails ends the traversal with its error.
-/

namespace Excerpt

section Traversal

variable {α β ε : Type} (f : α → Except ε β)

theorem mapM_cons_eq_ok_iff (x : α) (xs : List α) (ys : List β) :
    (x :: xs).mapM f = .ok ys ↔ ∃ z zs, ys = z :: zs ∧ f x = .ok z ∧ xs.mapM f = .ok zs := by
  rw [List.mapM_cons]
  cases first : f x with
  | error e => simp [bind, Except.bind]
  | ok z =>
    cases later : xs.mapM f with
    | error e => simp [bind, Except.bind]
    | ok zs => simp [bind, Except.bind, pure, Except.pure, eq_comm]

theorem mapM_cons_eq_error_iff (x : α) (xs : List α) (e : ε) :
    (x :: xs).mapM f = .error e ↔
      f x = .error e ∨ (∃ z, f x = .ok z) ∧ xs.mapM f = .error e := by
  rw [List.mapM_cons]
  cases first : f x with
  | error e' => simp [bind, Except.bind]
  | ok z =>
    cases later : xs.mapM f with
    | error e' => simp [bind, Except.bind]
    | ok zs => simp [bind, Except.bind, pure, Except.pure]

theorem mapM_eq_ok_iff {R : α → β → Prop} (xs : List α) (ys : List β)
    (same : ∀ x ∈ xs, ∀ y, f x = .ok y ↔ R x y) :
    xs.mapM f = .ok ys ↔ List.Forall₂ R xs ys := by
  induction xs generalizing ys with
  | nil =>
    rw [List.forall₂_nil_left_iff]
    exact ⟨fun h => (Except.ok.inj h).symm, fun h => h ▸ rfl⟩
  | cons x xs ih =>
    obtain ⟨here, behind⟩ := List.forall_mem_cons.mp same
    rw [mapM_cons_eq_ok_iff, List.forall₂_cons_left_iff]
    constructor
    · rintro ⟨z, zs, rfl, first, later⟩
      exact ⟨z, zs, (here z).mp first, (ih zs behind).mp later, rfl⟩
    · rintro ⟨z, zs, first, later, rfl⟩
      exact ⟨z, zs, rfl, (here z).mpr first, (ih zs behind).mpr later⟩

theorem mapM_eq_ok_map {g : α → β} {xs : List α} (each : ∀ x ∈ xs, f x = .ok (g x)) :
    xs.mapM f = .ok (xs.map g) := by
  induction xs with
  | nil => rfl
  | cons x xs ih =>
    obtain ⟨here, behind⟩ := List.forall_mem_cons.mp each
    exact (mapM_cons_eq_ok_iff f x xs _).mpr ⟨_, _, rfl, here, ih behind⟩

theorem mapM_append_eq_ok {xs xs' : List α} {ys ys' : List β} (first : xs.mapM f = .ok ys)
    (later : xs'.mapM f = .ok ys') : (xs ++ xs').mapM f = .ok (ys ++ ys') := by
  rw [List.mapM_append, first, later]
  rfl

theorem exists_mapM_eq_ok_iff (xs : List α) :
    (∃ ys, xs.mapM f = .ok ys) ↔ ∀ x ∈ xs, ∃ y, f x = .ok y := by
  induction xs with
  | nil =>
    constructor
    · intro _ x mem
      cases mem
    · intro _
      exact ⟨[], rfl⟩
  | cons x xs ih =>
    rw [List.forall_mem_cons, ← ih]
    constructor
    · rintro ⟨ys, value⟩
      obtain ⟨z, zs, -, first, later⟩ := (mapM_cons_eq_ok_iff f x xs ys).mp value
      exact ⟨⟨z, first⟩, zs, later⟩
    · rintro ⟨⟨z, first⟩, zs, later⟩
      exact ⟨z :: zs, (mapM_cons_eq_ok_iff f x xs _).mpr ⟨z, zs, rfl, first, later⟩⟩

/-- A list is read up to the first element that cannot be read. -/
theorem mapM_eq_error_iff (xs : List α) (e : ε) :
    xs.mapM f = .error e ↔
      ∃ before x rest, xs = before ++ x :: rest ∧ (∀ y ∈ before, ∃ z, f y = .ok z) ∧
        f x = .error e := by
  induction xs with
  | nil =>
    constructor
    · intro h
      cases h
    · rintro ⟨before, x, rest, split, -⟩
      exact absurd split (by simp)
  | cons x xs ih =>
    rw [mapM_cons_eq_error_iff, ih]
    constructor
    · rintro (here | ⟨first, before, y, rest, rfl, good, bad⟩)
      · exact ⟨[], x, xs, rfl, by simp, here⟩
      · exact ⟨x :: before, y, rest, rfl, List.forall_mem_cons.mpr ⟨first, good⟩, bad⟩
    · rintro ⟨before, y, rest, split, good, bad⟩
      cases before with
      | nil =>
        cases split
        exact .inl bad
      | cons z before =>
        cases split
        obtain ⟨first, good⟩ := List.forall_mem_cons.mp good
        exact .inr ⟨first, before, y, rest, rfl, good, bad⟩

end Traversal

theorem exists_of_mem_right {α β : Type} {R : α → β → Prop} {xs : List α} {ys : List β}
    (h : List.Forall₂ R xs ys) {y : β} (mem : y ∈ ys) : ∃ x ∈ xs, R x y := by
  induction h with
  | nil => cases mem
  | cons head _ ih =>
    rcases List.mem_cons.mp mem with rfl | later
    · exact ⟨_, List.mem_cons_self, head⟩
    · obtain ⟨x, here, related⟩ := ih later
      exact ⟨x, List.mem_cons_of_mem _ here, related⟩

end Excerpt
