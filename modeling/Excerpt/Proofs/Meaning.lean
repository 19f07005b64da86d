import Excerpt.Term.Reader

/-!
# The meaning of a shape

What a written term stands for is told by its shape: two line numbers and a
step. A shape is admissible if none of its numbers is out of place, and fails
for one cause otherwise; the step is looked at first and the line numbers last.
A shape with a run of digits that is too long has its meaning all the same, but
it cannot be read, unless its step is zero and ends the reading before that run.
-/

namespace Excerpt

open Text

/-- The line number, or the offset, that a bound writes. -/
def Bound.number (b : Bound) : Int :=
  if b.sign = some .minus then -(Numeral.value b.digits : Int) else Numeral.value b.digits

namespace Shape

def stepNumber (s : Shape) : Nat := s.step.elim 1 Numeral.value

/-- The second line number of a term whose first one is known. -/
def endNumber (first : Int) : Option (Separator × Bound) → Int
  | none => first
  | some (.dots, b) => b.number
  | some (.dash, b) => b.number
  | some (.plus, b) => if first < 0 ∧ 0 ≤ first + b.number then -1 else first + b.number

/-- The two line numbers of a term; without bounds it reaches from the first line to the last. -/
def numbers (s : Shape) : Int × Int :=
  match s.bounds with
  | none => (1, -1)
  | some (b, second) => (b.number, endNumber b.number second)

/-- What is added to the first line number. -/
def offset? (s : Shape) : Option Int :=
  match s.bounds with
  | some (_, some (.plus, b)) => some b.number
  | _ => none

structure Admissible (s : Shape) : Prop where
  step_ne_zero : s.stepNumber ≠ 0
  offset_nonneg : ∀ d ∈ s.offset?, 0 ≤ d
  first_ne_zero : s.numbers.1 ≠ 0
  second_ne_zero : s.numbers.2 ≠ 0

/-- Two positive line numbers ascend in a term, all others descend. -/
def ordered (first second : Int) : Int × Int :=
  if 0 < first ∧ 0 < second then (min first second, max first second)
  else (max first second, min first second)

structure Means (s : Shape) (t : Term) : Prop where
  admissible : s.Admissible
  bounds : (t.anchor, t.limit) = ordered s.numbers.1 s.numbers.2
  step : t.step = s.stepNumber

/-- Why a shape is not admissible; of several causes the first one. -/
inductive Fails (s : Shape) : Rejection.Cause → Prop
  | zeroStep : s.stepNumber = 0 → Fails s .zeroStep
  | negativeOffset {d : Int} : s.stepNumber ≠ 0 → s.offset? = some d → d < 0 →
      Fails s (.negativeOffset d)
  | zeroLine : s.stepNumber ≠ 0 → (∀ d ∈ s.offset?, 0 ≤ d) →
      s.numbers.1 = 0 ∨ s.numbers.2 = 0 → Fails s .zeroLine

abbrev ShortStep (s : Shape) : Prop := ∀ ds ∈ s.step, ds.length ≤ Numeral.maxDigits

/-- The runs of digits of a shape can be read. -/
structure Short (s : Shape) : Prop where
  step : s.ShortStep
  first : ∀ p ∈ s.bounds, p.1.digits.length ≤ Numeral.maxDigits
  second : ∀ p ∈ s.bounds, ∀ q ∈ p.2, q.2.digits.length ≤ Numeral.maxDigits

/-- The run of digits that is too long and ends the reading; a step of zero ends it before. -/
inductive Overlong (s : Shape) : List Char → Prop
  | step {ds : List Char} : s.step = some ds → Numeral.maxDigits < ds.length → Overlong s ds
  | first {b : Bound} {second : Option (Separator × Bound)} : s.ShortStep → s.stepNumber ≠ 0 →
      s.bounds = some (b, second) → Numeral.maxDigits < b.digits.length → Overlong s b.digits
  | second {b b' : Bound} {sep : Separator} : s.ShortStep → s.stepNumber ≠ 0 →
      s.bounds = some (b, some (sep, b')) → b.digits.length ≤ Numeral.maxDigits →
      Numeral.maxDigits < b'.digits.length → Overlong s b'.digits

end Shape

theorem Numeral.read_of_length_le {ds : List Char} (h : ds.length ≤ maxDigits) :
    Numeral.read ds = .ok (value ds) :=
  (Numeral.read_eq_ok_iff ds (value ds)).mpr ⟨h, rfl⟩

theorem Numeral.read_of_lt_length {ds : List Char} (h : maxDigits < ds.length) :
    Numeral.read ds = .error (.tooLongToRead ds.length) := by
  rw [Numeral.read, if_pos h]
  apply raise_eq_error
  intro n mem
  cases mem

theorem Bound.value_of_length_le {b : Bound} (h : b.digits.length ≤ Numeral.maxDigits) :
    b.value = .ok b.number := by
  rw [Bound.value, Numeral.read_of_length_le h]
  rfl

theorem Bound.value_of_lt_length {b : Bound} (h : Numeral.maxDigits < b.digits.length) :
    b.value = .error (.tooLongToRead b.digits.length) := by
  rw [Bound.value, Numeral.read_of_lt_length h]
  rfl

namespace Shape

theorem normal_ordered {first second : Int} (hf : first ≠ 0) (hs : second ≠ 0) :
    Term.Normal (ordered first second).1 (ordered first second).2 := by
  unfold ordered Term.Normal
  split
  · dsimp only
    omega
  · dsimp only
    omega

theorem ofBounds_eq_make (first second step : Int) :
    Term.ofBounds first second step =
      Term.make (ordered first second).1 (ordered first second).2 step := by
  unfold ordered Term.ofBounds
  split
  · rfl
  · rfl

/-- A term is told by its two bounds, in either order, and its step. -/
theorem ofBounds_eq_ok {first second : Int} {t : Term}
    (bounds : (t.anchor, t.limit) = ordered first second) :
    Term.ofBounds first second t.step = .ok t := by
  rw [ofBounds_eq_make, ← bounds]
  exact Term.make_normal t.anchor t.limit t.step t.normal (Int.ofNat_le.mpr t.step_pos)

variable {s : Shape}

theorem Admissible.exists_means (h : s.Admissible) : ∃ t, s.Means t := by
  have normal := normal_ordered h.first_ne_zero h.second_ne_zero
  have pos : 0 < s.stepNumber := Nat.pos_of_ne_zero h.step_ne_zero
  exact ⟨⟨_, _, s.stepNumber, normal, pos⟩, h, rfl, rfl⟩

theorem admissible_or_fails (s : Shape) : s.Admissible ∨ ∃ cause, s.Fails cause := by
  by_cases step : s.stepNumber = 0
  · exact .inr ⟨_, .zeroStep step⟩
  by_cases offset : ∀ d ∈ s.offset?, 0 ≤ d
  · by_cases zero : s.numbers.1 = 0 ∨ s.numbers.2 = 0
    · exact .inr ⟨_, .zeroLine step offset zero⟩
    · obtain ⟨first, second⟩ := not_or.mp zero
      exact .inl ⟨step, offset, first, second⟩
  · obtain ⟨d, negative⟩ := Classical.not_forall.mp offset
    obtain ⟨here, less⟩ := Classical.not_imp.mp negative
    exact .inr ⟨_, .negativeOffset step here (Int.not_le.mp less)⟩

theorem stepValue_of_short (h : s.ShortStep) : s.stepValue = .ok s.stepNumber := by
  obtain ⟨bounds, step⟩ := s
  cases step with
  | none => rfl
  | some ds => exact Numeral.read_of_length_le (h ds rfl)

theorem stepValue_of_overlong {ds : List Char} (step : s.step = some ds)
    (long : Numeral.maxDigits < ds.length) : s.stepValue = .error (.tooLongToRead ds.length) := by
  rw [stepValue, step]
  exact Numeral.read_of_lt_length long

end Shape

section Values

variable {piece : List Char} {first : Int}

theorem secondValue_of_nonneg {second : Option (Separator × Bound)}
    (short : ∀ q ∈ second, q.2.digits.length ≤ Numeral.maxDigits)
    (nonneg : ∀ b, second = some (.plus, b) → 0 ≤ b.number) :
    secondValue piece first second = .ok (Shape.endNumber first second) := by
  match second with
  | none => rfl
  | some (.dots, b) => exact Bound.value_of_length_le (short _ rfl)
  | some (.dash, b) => exact Bound.value_of_length_le (short _ rfl)
  | some (.plus, b) =>
    have value := Bound.value_of_length_le (short _ rfl)
    have forward : ¬ b.number < 0 := Int.not_lt.mpr (nonneg b rfl)
    rw [secondValue, value]
    exact if_neg forward

theorem secondValue_of_neg {b : Bound} (short : b.digits.length ≤ Numeral.maxDigits)
    (neg : b.number < 0) :
    secondValue piece first (some (.plus, b)) = reject (.negativeOffset b.number) piece := by
  rw [secondValue, Bound.value_of_length_le short]
  exact if_pos neg

theorem secondValue_of_overlong {sep : Separator} {b : Bound}
    (long : Numeral.maxDigits < b.digits.length) :
    secondValue piece first (some (sep, b)) = .error (.tooLongToRead b.digits.length) := by
  have value := Bound.value_of_lt_length long
  cases sep with
  | dots => exact value
  | dash => exact value
  | plus =>
    rw [secondValue, value]
    rfl

end Values

namespace Shape

variable {s : Shape} {piece : List Char}

theorem toTerm_of_step_zero (h : s.ShortStep) (zero : s.stepNumber = 0) :
    s.toTerm piece = reject .zeroStep piece := by
  rw [toTerm, stepValue_of_short h]
  exact if_pos zero

theorem Short.toTerm_of_offset_nonneg (h : s.Short) (step : s.stepNumber ≠ 0)
    (offset : ∀ d ∈ s.offset?, 0 ≤ d) :
    s.toTerm piece =
      if s.numbers.1 = 0 ∨ s.numbers.2 = 0 then reject .zeroLine piece
      else Term.ofBounds s.numbers.1 s.numbers.2 s.stepNumber := by
  rw [toTerm, stepValue_of_short h.step]
  refine (if_neg step).trans ?_
  match s, h, offset with
  | ⟨none, _⟩, _, _ => rfl
  | ⟨some (b, second), _⟩, h, offset =>
    have ends : secondValue piece b.number second = .ok (endNumber b.number second) := by
      apply secondValue_of_nonneg (h.second _ rfl)
      intro d same
      obtain rfl : second = some (.plus, d) := same
      exact offset d.number rfl
    dsimp only
    rw [Bound.value_of_length_le (h.first _ rfl)]
    dsimp only [bind, Except.bind]
    rw [ends]
    rfl

theorem Short.toTerm_of_offset_neg (h : s.Short) (step : s.stepNumber ≠ 0) {d : Int}
    (offset : s.offset? = some d) (neg : d < 0) :
    s.toTerm piece = reject (.negativeOffset d) piece := by
  rw [toTerm, stepValue_of_short h.step]
  refine (if_neg step).trans ?_
  match s, h, offset with
  | ⟨some (b, some (.plus, b')), _⟩, h, rfl =>
    dsimp only
    rw [Bound.value_of_length_le (h.first _ rfl)]
    dsimp only [bind, Except.bind]
    rw [secondValue_of_neg (h.second _ rfl _ rfl) neg]
    rfl

theorem Short.toTerm_of_means (h : s.Short) {t : Term} (means : s.Means t) :
    s.toTerm piece = .ok t := by
  have lines := not_or.mpr ⟨means.admissible.first_ne_zero, means.admissible.second_ne_zero⟩
  rw [h.toTerm_of_offset_nonneg means.admissible.step_ne_zero means.admissible.offset_nonneg,
    if_neg lines, ← means.step]
  exact ofBounds_eq_ok means.bounds

theorem Short.toTerm_of_fails (h : s.Short) {cause : Rejection.Cause} (fails : s.Fails cause) :
    s.toTerm piece = reject cause piece := by
  cases fails with
  | zeroStep zero => exact toTerm_of_step_zero h.step zero
  | negativeOffset step offset neg => exact h.toTerm_of_offset_neg step offset neg
  | zeroLine step offset zero =>
    rw [h.toTerm_of_offset_nonneg step offset]
    exact if_pos zero

theorem Overlong.toTerm_eq {ds : List Char} (h : s.Overlong ds) :
    s.toTerm piece = .error (.tooLongToRead ds.length) := by
  obtain ⟨bounds, step⟩ := s
  cases h with
  | step given long =>
    rw [toTerm, stepValue_of_overlong given long]
    rfl
  | first short nonzero given long =>
    obtain rfl := given
    rw [toTerm, stepValue_of_short short]
    refine (if_neg nonzero).trans ?_
    rw [Bound.value_of_lt_length long]
    rfl
  | second short nonzero given shortFirst long =>
    obtain rfl := given
    rw [toTerm, stepValue_of_short short]
    refine (if_neg nonzero).trans ?_
    rw [Bound.value_of_length_le shortFirst]
    dsimp only [bind, Except.bind]
    rw [secondValue_of_overlong long]

theorem short_or_overlong (s : Shape) (step : s.ShortStep) (nonzero : s.stepNumber ≠ 0) :
    s.Short ∨ ∃ ds, s.Overlong ds := by
  match s, step, nonzero with
  | ⟨none, _⟩, step, _ =>
    exact .inl ⟨step, fun _ given => (nomatch given), fun _ given => (nomatch given)⟩
  | ⟨some (b, second), _⟩, step, nonzero =>
    rcases Nat.lt_or_ge Numeral.maxDigits b.digits.length with long | short
    · exact .inr ⟨_, .first step nonzero rfl long⟩
    · by_cases rest : ∀ q ∈ second, q.2.digits.length ≤ Numeral.maxDigits
      · refine .inl ⟨step, ?_, ?_⟩
        · rintro p ⟨rfl⟩
          exact short
        · rintro p ⟨rfl⟩
          exact rest
      · obtain ⟨⟨sep, b'⟩, unread⟩ := Classical.not_forall.mp rest
        obtain ⟨rfl, long⟩ := Classical.not_imp.mp unread
        exact .inr ⟨_, .second step nonzero rfl short (Nat.lt_of_not_le long)⟩

/-- A shape has a meaning, is rejected, or cannot be read to its end. A step of zero is rejected
before any bound is read, however long the bounds are. -/
theorem toTerm_cases (s : Shape) (piece : List Char) :
    (∃ t, s.Short ∧ s.Means t ∧ s.toTerm piece = .ok t) ∨
    (∃ cause, s.Fails cause ∧ s.toTerm piece = reject cause piece) ∨
    (∃ ds, s.Overlong ds ∧ s.toTerm piece = .error (.tooLongToRead ds.length)) := by
  by_cases step : s.ShortStep
  · by_cases zero : s.stepNumber = 0
    · exact .inr (.inl ⟨_, .zeroStep zero, toTerm_of_step_zero step zero⟩)
    rcases s.short_or_overlong step zero with short | ⟨ds, overlong⟩
    · rcases s.admissible_or_fails with good | ⟨cause, fails⟩
      · obtain ⟨t, means⟩ := good.exists_means
        exact .inl ⟨t, short, means, short.toTerm_of_means means⟩
      · exact .inr (.inl ⟨cause, fails, short.toTerm_of_fails fails⟩)
    · exact .inr (.inr ⟨ds, overlong, overlong.toTerm_eq⟩)
  · obtain ⟨ds, unread⟩ := Classical.not_forall.mp step
    obtain ⟨given, long⟩ := Classical.not_imp.mp unread
    have overlong : s.Overlong ds := .step given (Nat.lt_of_not_le long)
    exact .inr (.inr ⟨ds, overlong, overlong.toTerm_eq⟩)

theorem Short.not_overlong (h : s.Short) (ds : List Char) : ¬ s.Overlong ds := by
  intro overlong
  cases overlong with
  | step given long => exact absurd (h.step ds given) (Nat.not_le.mpr long)
  | first _ _ given long => exact absurd (h.first _ given) (Nat.not_le.mpr long)
  | second _ _ given _ long => exact absurd (h.second _ given _ rfl) (Nat.not_le.mpr long)

end Shape

end Excerpt
