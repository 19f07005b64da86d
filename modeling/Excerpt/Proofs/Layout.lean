import Excerpt.Proofs.Grammar

/-!
# The layout of a term

A layout is one way to write a text as a term, with every blank in its place;
its shape is what is left of it without the blanks. The texts that can be read
are those with a layout. No text has two of them: a run of blanks or of digits
ends where something else stands, so the places of all parts are fixed too.
-/

namespace Excerpt

open Text

/-- Blanks, or nothing, between two parts. -/
abbrev Gap := { ws : List Char // Blanks ws }

/-- Digits in a row, one at least. -/
abbrev DigitRun := { ds : List Char // Digits ds }

/-- A bound that is written with its digits. -/
abbrev Literal := { b : Bound // Digits b.digits }

namespace Layout

structure Second where
  separator : Separator
  front : Gap
  bound : Literal
  back : Gap

structure Bounds where
  first : Literal
  back : Gap
  second : Option Second

structure Step where
  front : Gap
  digits : DigitRun
  back : Gap

end Layout

structure Layout where
  front : Gap
  bounds : Option Layout.Bounds
  step : Option Layout.Step

namespace Layout

def Second.text (s : Second) : List Char :=
  s.separator.text ++ (s.front.1 ++ (s.bound.1.text ++ s.back.1))

def Second.part (s : Second) : Separator × Bound := (s.separator, s.bound.1)

def Bounds.text (b : Bounds) : List Char :=
  b.first.1.text ++ (b.back.1 ++ b.second.elim [] Second.text)

def Bounds.part (b : Bounds) : Bound × Option (Separator × Bound) :=
  (b.first.1, b.second.map Second.part)

def Step.text (s : Step) : List Char := '/' :: (s.front.1 ++ (s.digits.1 ++ s.back.1))

def Step.part (s : Step) : List Char := s.digits.1

def text (l : Layout) : List Char :=
  l.front.1 ++ (l.bounds.elim [] Bounds.text ++ l.step.elim [] Step.text)

def shape (l : Layout) : Shape := ⟨l.bounds.map Bounds.part, l.step.map Step.part⟩

theorem derivesSecond (second : Option Second) :
    DerivesSecond (second.elim [] Second.text) (second.map Second.part) := by
  cases second with
  | none => exact .absent
  | some s => exact .present s.front.2 s.bound.2 s.back.2

theorem derivesBounds (bounds : Option Bounds) :
    DerivesBounds (bounds.elim [] Bounds.text) (bounds.map Bounds.part) := by
  cases bounds with
  | none => exact .absent
  | some b => exact .present b.first.2 b.back.2 (derivesSecond b.second)

theorem derivesStep (step : Option Step) :
    DerivesStep (step.elim [] Step.text) (step.map Step.part) := by
  cases step with
  | none => exact .absent
  | some s => exact .present s.front.2 s.digits.2 s.back.2

theorem derives (l : Layout) : Shape.Derives l.text l.shape :=
  .mk l.front.2 (derivesBounds l.bounds) (derivesStep l.step)

theorem exists_second {cs : List Char} {part : Option (Separator × Bound)}
    (h : DerivesSecond cs part) : ∃ second : Option Second, second.elim [] Second.text = cs := by
  cases h with
  | absent => exact ⟨none, rfl⟩
  | @present sep b ws ws' blanks digits blanks' =>
    exact ⟨some ⟨sep, ⟨ws, blanks⟩, ⟨b, digits⟩, ⟨ws', blanks'⟩⟩, rfl⟩

theorem exists_bounds {cs : List Char} {part : Option (Bound × Option (Separator × Bound))}
    (h : DerivesBounds cs part) : ∃ bounds : Option Bounds, bounds.elim [] Bounds.text = cs := by
  cases h with
  | absent => exact ⟨none, rfl⟩
  | @present b ws _ _ digits blanks rest =>
    obtain ⟨second, rfl⟩ := exists_second rest
    exact ⟨some ⟨⟨b, digits⟩, ⟨ws, blanks⟩, second⟩, rfl⟩

theorem exists_step {cs : List Char} {part : Option (List Char)}
    (h : DerivesStep cs part) : ∃ step : Option Step, step.elim [] Step.text = cs := by
  cases h with
  | absent => exact ⟨none, rfl⟩
  | @present ws ds ws' blanks digits blanks' =>
    exact ⟨some ⟨⟨ws, blanks⟩, ⟨ds, digits⟩, ⟨ws', blanks'⟩⟩, rfl⟩

theorem exists_of_derives {cs : List Char} {s : Shape} (h : Shape.Derives cs s) :
    ∃ l : Layout, l.text = cs := by
  cases h with
  | @mk ws _ _ _ _ blanks first last =>
    obtain ⟨bounds, rfl⟩ := exists_bounds first
    obtain ⟨step, rfl⟩ := exists_step last
    exact ⟨⟨⟨ws, blanks⟩, bounds, step⟩, rfl⟩

end Layout

/-- Blanks end where something else stands. -/
theorem Gap.eq_of_append {ws ws' : Gap} {rest rest' : List Char} (stop : Stops isBlank rest)
    (stop' : Stops isBlank rest') (same : ws.1 ++ rest = ws'.1 ++ rest') :
    ws = ws' ∧ rest = rest' := by
  have behind : rest = rest' := by
    rw [← skipBlank_append ws.2 stop, same, skipBlank_append ws'.2 stop']
  rw [behind] at same
  exact ⟨Subtype.ext (List.append_cancel_right same), behind⟩

/-- A reader reads one part off the front of a text. -/
theorem eq_of_read {β : Type} {read : List Char → Option (β × List Char)}
    {cs rest rest' : List Char} {b b' : β} (front : read cs = some (b, rest))
    (front' : read cs = some (b', rest')) : b = b' ∧ rest = rest' :=
  Prod.mk.inj (Option.some.inj (front.symm.trans front'))

theorem Separator.eq_of_append {sep sep' : Separator} {rest rest' : List Char}
    (same : sep.text ++ rest = sep'.text ++ rest') : sep = sep' ∧ rest = rest' :=
  eq_of_read (readSeparator_text sep rest) (same ▸ readSeparator_text sep' rest')

section

variable {rest rest' : List Char} (stop : Stops isDigit rest) (stop' : Stops isDigit rest')

include stop stop'

theorem DigitRun.eq_of_append {ds ds' : DigitRun} (same : ds.1 ++ rest = ds'.1 ++ rest') :
    ds = ds' ∧ rest = rest' := by
  have read' := readDigits_eq_some ds'.2 stop'
  rw [← same] at read'
  exact (eq_of_read (readDigits_eq_some ds.2 stop) read').imp_left Subtype.ext

theorem Literal.eq_of_append {b b' : Literal} (same : b.1.text ++ rest = b'.1.text ++ rest') :
    b = b' ∧ rest = rest' := by
  have read' := readBound_eq_some b'.2 stop'
  rw [← same] at read'
  exact (eq_of_read (readBound_eq_some b.2 stop) read').imp_left Subtype.ext

end

/-- No run of digits goes on behind a gap. -/
theorem Gap.stops (ws : Gap) {rest : List Char} (stop : Stops isDigit rest) :
    Stops isDigit (ws.1 ++ rest) :=
  stops_append ws.2 isDigit_of_isBlank stop

namespace Layout

theorem Second.text_injective : Function.Injective Second.text := by
  rintro ⟨sep, front, bound, back⟩ ⟨sep', front', bound', back'⟩ same
  obtain ⟨rfl, behind⟩ := Separator.eq_of_append same
  obtain ⟨rfl, later⟩ := Gap.eq_of_append (Bound.stops bound.2 _) (Bound.stops bound'.2 _) behind
  obtain ⟨rfl, last⟩ :=
    Literal.eq_of_append (Blanks.stops back.2) (Blanks.stops back'.2) later
  rw [Subtype.ext last]

theorem Step.text_injective : Function.Injective Step.text := by
  rintro ⟨front, digits, back⟩ ⟨front', digits', back'⟩ same
  have stop (ds : DigitRun) (rest : List Char) : Stops isBlank (ds.1 ++ rest) :=
    Bound.stops (b := ⟨none, ds.1⟩) ds.2 rest
  obtain ⟨rfl, behind⟩ := Gap.eq_of_append (stop digits _) (stop digits' _) (List.cons.inj same).2
  obtain ⟨rfl, last⟩ := DigitRun.eq_of_append (Blanks.stops back.2) (Blanks.stops back'.2) behind
  rw [Subtype.ext last]

theorem Second.text_ne_nil (s : Second) : s.text ≠ [] := by
  obtain ⟨sep, _, _, _⟩ := s
  cases sep
  all_goals exact List.cons_ne_nil _ _

theorem Bounds.text_ne_nil (b : Bounds) : b.text ≠ [] := by
  apply List.append_ne_nil_of_left_ne_nil
  exact List.append_ne_nil_of_right_ne_nil _ b.first.2.1

/-- A part that is missing is not taken for one that is there. -/
theorem elim_injective {α : Type} {f : α → List Char} (inj : Function.Injective f)
    (nonempty : ∀ a, f a ≠ []) : Function.Injective (fun o : Option α => o.elim [] f) := by
  intro o o' same
  match o, o', same with
  | none, none, _ => rfl
  | some a, none, same => exact absurd same (nonempty a)
  | none, some a, same => exact absurd same.symm (nonempty a)
  | some a, some a', same => exact congrArg some (inj same)

theorem stops_second (second : Option Second) (p : Char → Bool)
    (signs : ∀ c ∈ ['.', '-', '+', '/'], p c = false) : Stops p (second.elim [] Second.text) := by
  have stop := (derivesSecond second).stops .absent p signs
  rwa [List.append_nil] at stop

theorem Bounds.text_injective : Function.Injective Bounds.text := by
  rintro ⟨first, back, second⟩ ⟨first', back', second'⟩ same
  have noDigit (o : Option Second) := stops_second o isDigit fun _ hc =>
    (plain_of_mem_punctuation hc).1
  have noBlank (o : Option Second) := stops_second o isBlank fun _ hc =>
    (plain_of_mem_punctuation hc).2
  obtain ⟨rfl, behind⟩ :=
    Literal.eq_of_append (back.stops (noDigit second)) (back'.stops (noDigit second')) same
  obtain ⟨rfl, last⟩ := Gap.eq_of_append (noBlank second) (noBlank second') behind
  rw [elim_injective Second.text_injective Second.text_ne_nil last]

/-- Two layouts of one text are the same: the reader of the bounds tells where these end. -/
theorem text_injective : Function.Injective text := by
  rintro ⟨front, bounds, step⟩ ⟨front', bounds', step'⟩ same
  have stop (b : Option Bounds) (s : Option Step) := (derivesBounds b).stops (derivesStep s)
  obtain ⟨rfl, behind⟩ := Gap.eq_of_append (stop bounds step) (stop bounds' step') same
  have read := readBounds_eq_some (derivesStep step') (derivesBounds bounds')
  rw [← behind] at read
  obtain ⟨-, left⟩ := eq_of_read (readBounds_eq_some (derivesStep step) (derivesBounds bounds)) read
  obtain rfl := elim_injective Step.text_injective (fun _ => List.cons_ne_nil _ _) left
  rw [elim_injective Bounds.text_injective Bounds.text_ne_nil (List.append_cancel_right behind)]

end Layout

/-- A text is read exactly when it is written in a layout, and what is read are the parts of that
layout. There is no second layout in which a sign would be a separator, a run of digits would be
cut or a part would be missing. -/
theorem Shape.read_finds_only_layout (cs : List Char) :
    (∀ s, Shape.read cs = some s ↔ ∃ l : Layout, l.text = cs ∧ l.shape = s) ∧
      Subsingleton { l : Layout // l.text = cs } := by
  constructor
  · intro s
    constructor
    · intro read
      obtain ⟨l, rfl⟩ := Layout.exists_of_derives (derives_of_read read)
      rw [read_of_derives l.derives] at read
      exact ⟨l, rfl, Option.some.inj read⟩
    · rintro ⟨l, rfl, rfl⟩
      exact read_of_derives l.derives
  · refine ⟨?_⟩
    rintro ⟨l, here⟩ ⟨l', here'⟩
    exact Subtype.ext (Layout.text_injective (here.trans here'.symm))

example : Shape.read "3+ +2/4".toList =
    some ⟨some (⟨none, ['3']⟩, some (.plus, ⟨some .plus, ['2']⟩)), some ['4']⟩ := by decide

end Excerpt
