import Mathlib.Data.List.Basic
import Excerpt.Term.Shape

/-!
# The grammar of terms

`Shape.Derives` is the grammar, written as a relation between texts and shapes:
blanks, one or two bounds with a separator, a step behind a slash. The reader
decides it. A reader of one part is told by what may follow that part, so no
sign is taken for a separator and no run of digits is cut.
-/

namespace Excerpt

open Text

def Blanks (cs : List Char) : Prop := ∀ c ∈ cs, isBlank c

def Digits (cs : List Char) : Prop := cs ≠ [] ∧ ∀ c ∈ cs, isDigit c

def Sign.text : Sign → List Char
  | plus => ['+']
  | minus => ['-']

def Bound.text (b : Bound) : List Char := b.sign.elim [] Sign.text ++ b.digits

def Separator.text : Separator → List Char
  | dots => ['.', '.']
  | dash => ['-']
  | plus => ['+']

/-- Nothing, or a separator and a second bound. -/
inductive DerivesSecond : List Char → Option (Separator × Bound) → Prop
  | absent : DerivesSecond [] none
  | present {sep : Separator} {b : Bound} {ws ws' : List Char} : Blanks ws → Digits b.digits →
      Blanks ws' → DerivesSecond (sep.text ++ (ws ++ (b.text ++ ws'))) (some (sep, b))

/-- Nothing, or a bound and what may follow it. -/
inductive DerivesBounds : List Char → Option (Bound × Option (Separator × Bound)) → Prop
  | absent : DerivesBounds [] none
  | present {b : Bound} {ws cs : List Char} {second : Option (Separator × Bound)} :
      Digits b.digits → Blanks ws → DerivesSecond cs second →
      DerivesBounds (b.text ++ (ws ++ cs)) (some (b, second))

/-- Nothing, or a step behind a slash. -/
inductive DerivesStep : List Char → Option (List Char) → Prop
  | absent : DerivesStep [] none
  | present {ws ds ws' : List Char} : Blanks ws → Digits ds → Blanks ws' →
      DerivesStep ('/' :: (ws ++ (ds ++ ws'))) (some ds)

/-- The bounds and the step of a term, each of which may be missing. -/
inductive Shape.Derives : List Char → Shape → Prop
  | mk {ws bs ss : List Char} {bounds : Option (Bound × Option (Separator × Bound))}
      {step : Option (List Char)} : Blanks ws → DerivesBounds bs bounds → DerivesStep ss step →
      Derives (ws ++ (bs ++ ss)) ⟨bounds, step⟩

theorem isBlank_of_isDigit (c : Char) (h : isDigit c) : isBlank c = false := by
  have apart : ∀ z ∈ zeroDigits, ∀ r ∈ blankRanges, r.2 < z ∨ z + 10 ≤ r.1 := by decide +kernel
  obtain ⟨d, value⟩ := Option.isSome_iff_exists.mp h
  obtain ⟨z, hz, inside⟩ := List.exists_of_findSome?_eq_some value
  rw [Option.ite_none_right_eq_some] at inside
  rw [← Bool.not_eq_true, isBlank, List.any_eq_true]
  rintro ⟨r, hr, low⟩
  rw [Bool.and_eq_true, decide_eq_true_eq, decide_eq_true_eq] at low
  have := apart z hz r hr
  omega

/-- What may stand behind a number is neither a digit nor a blank. -/
theorem plain_of_mem_punctuation {c : Char} (h : c ∈ ['.', '-', '+', '/']) :
    isDigit c = false ∧ isBlank c = false := by
  simp only [List.mem_cons, List.not_mem_nil, or_false] at h
  rcases h with rfl | rfl | rfl | rfl
  all_goals decide

/-- The text does not go on with a character of the class. -/
def Stops (p : Char → Bool) (cs : List Char) : Prop := ∀ c ∈ cs.head?, p c = false

theorem stops_append {p q : Char → Bool} {xs rest : List Char} (h : ∀ c ∈ xs, q c)
    (apart : ∀ c, q c → p c = false) (stop : Stops p rest) : Stops p (xs ++ rest) := by
  cases xs with
  | nil => exact stop
  | cons x xs =>
    rintro c ⟨rfl⟩
    exact apart x (h x List.mem_cons_self)

theorem skipBlank_of_stops {cs : List Char} (stop : Stops isBlank cs) : skipBlank cs = cs := by
  cases cs with
  | nil => rfl
  | cons c cs => exact List.dropWhile_cons_of_neg (by simpa using stop c rfl)

theorem skipBlank_append {ws rest : List Char} (h : Blanks ws) (stop : Stops isBlank rest) :
    skipBlank (ws ++ rest) = rest := by
  rw [skipBlank, List.dropWhile_append_of_pos h]
  exact skipBlank_of_stops stop

theorem exists_blanks (cs : List Char) : ∃ ws, Blanks ws ∧ cs = ws ++ skipBlank cs :=
  ⟨cs.takeWhile isBlank, List.all_eq_true.mp List.all_takeWhile,
    List.takeWhile_append_dropWhile.symm⟩

theorem readDigits_eq_some {ds rest : List Char} (h : Digits ds) (stop : Stops isDigit rest) :
    readDigits (ds ++ rest) = some (ds, rest) := by
  have behind : rest.takeWhile isDigit = [] ∧ rest.dropWhile isDigit = rest := by
    cases rest with
    | nil => exact ⟨rfl, rfl⟩
    | cons c rest =>
      have other := stop c rfl
      exact ⟨List.takeWhile_cons_of_neg (by simp [other]),
        List.dropWhile_cons_of_neg (by simp [other])⟩
  rw [readDigits, List.takeWhile_append_of_pos h.2, List.dropWhile_append_of_pos h.2, behind.1,
    behind.2, List.append_nil, if_neg h.1]

theorem readSign_text (sign : Option Sign) {ds rest : List Char} (h : Digits ds) :
    readSign (sign.elim [] Sign.text ++ (ds ++ rest)) = (sign, ds ++ rest) := by
  match sign with
  | some .plus => rfl
  | some .minus => rfl
  | none =>
    match ds, h with
    | c :: ds, h =>
      have digit := h.2 c List.mem_cons_self
      rw [Option.elim_none, List.nil_append, List.cons_append]
      unfold readSign
      split
      · rename_i same
        cases same
        exact absurd digit (by decide)
      · rename_i same
        cases same
        exact absurd digit (by decide)
      · rfl

theorem readBound_eq_some {b : Bound} {rest : List Char} (h : Digits b.digits)
    (stop : Stops isDigit rest) : readBound (b.text ++ rest) = some (b, rest) := by
  rw [readBound, Bound.text, List.append_assoc, readSign_text b.sign h]
  dsimp only
  rw [readDigits_eq_some h stop]
  rfl

/-- Behind the bounds of a term there is nothing or a slash. -/
theorem DerivesStep.eq_nil_or_slash {cs : List Char} {step : Option (List Char)}
    (h : DerivesStep cs step) : cs = [] ∨ ∃ rest, cs = '/' :: rest := by
  cases h with
  | absent => exact .inl rfl
  | present => exact .inr ⟨_, rfl⟩

theorem DerivesStep.stops {cs : List Char} {step : Option (List Char)} (h : DerivesStep cs step)
    (p : Char → Bool) (slash : p '/' = false) : Stops p cs := by
  obtain rfl | ⟨rest, rfl⟩ := h.eq_nil_or_slash
  · exact fun c hc => nomatch hc
  · rintro c ⟨rfl⟩
    exact slash

theorem Separator.stops (sep : Separator) (p : Char → Bool)
    (signs : ∀ c ∈ ['.', '-', '+'], p c = false) (rest : List Char) :
    Stops p (sep.text ++ rest) := by
  cases sep
  all_goals
    rintro c ⟨rfl⟩
    exact signs _ (by decide)

theorem Bound.stops {b : Bound} (h : Digits b.digits) (rest : List Char) :
    Stops isBlank (b.text ++ rest) := by
  obtain ⟨sign, digits⟩ := b
  match sign, digits, h with
  | some .plus, _, _ => rintro c ⟨rfl⟩; decide
  | some .minus, _, _ => rintro c ⟨rfl⟩; decide
  | none, d :: ds, h =>
    rintro c ⟨rfl⟩
    exact isBlank_of_isDigit _ (h.2 _ List.mem_cons_self)

theorem isDigit_of_isBlank (c : Char) (h : isBlank c) : isDigit c = false := by
  by_contra digit
  rw [isBlank_of_isDigit c (by simpa using digit)] at h
  cases h

theorem Blanks.stops {ws : List Char} (h : Blanks ws) : Stops isDigit ws := by
  have ended : Stops isDigit [] := fun c hc => nomatch hc
  have stop := stops_append h isDigit_of_isBlank ended
  rwa [List.append_nil] at stop

theorem readSeparator_text (sep : Separator) (rest : List Char) :
    readSeparator (sep.text ++ rest) = some (sep, rest) := by
  cases sep <;> rfl

section Complete

variable {cs ss : List Char} {step : Option (List Char)} (tail : DerivesStep ss step)

include tail

theorem readSecond_eq_some {second : Option (Separator × Bound)} (h : DerivesSecond cs second) :
    readSecond (cs ++ ss) = some (second, ss) := by
  cases h with
  | absent =>
    obtain rfl | ⟨rest, rfl⟩ := tail.eq_nil_or_slash
    · rfl
    · rfl
  | @present sep b ws ws' blanks digits blanks' =>
    have behind : Stops isDigit (ws' ++ ss) :=
      stops_append blanks' isDigit_of_isBlank (tail.stops isDigit (by decide))
    rw [readSecond, List.append_assoc, readSeparator_text, List.append_assoc, List.append_assoc]
    dsimp only
    rw [skipBlank_append blanks (b.stops digits _), readBound_eq_some digits behind,
      Option.map_some, skipBlank_append blanks' (tail.stops isBlank (by decide))]

theorem DerivesSecond.stops {second : Option (Separator × Bound)} (h : DerivesSecond cs second)
    (p : Char → Bool) (signs : ∀ c ∈ ['.', '-', '+', '/'], p c = false) : Stops p (cs ++ ss) := by
  cases h with
  | absent => exact tail.stops p (signs '/' (by decide))
  | present =>
    rw [List.append_assoc]
    refine Separator.stops _ p ?_ _
    intro c hc
    exact signs c (List.mem_append_left ['/'] hc)

theorem readBounds_eq_some {bounds : Option (Bound × Option (Separator × Bound))}
    (h : DerivesBounds cs bounds) : readBounds (cs ++ ss) = some (bounds, ss) := by
  cases h with
  | absent =>
    obtain rfl | ⟨rest, rfl⟩ := tail.eq_nil_or_slash
    · rfl
    · rfl
  | @present b ws cs second digits blanks rest =>
    have noDigit := rest.stops tail isDigit (fun _ hc => (plain_of_mem_punctuation hc).1)
    have noBlank := rest.stops tail isBlank (fun _ hc => (plain_of_mem_punctuation hc).2)
    have behind : Stops isDigit (ws ++ (cs ++ ss)) :=
      stops_append blanks isDigit_of_isBlank noDigit
    rw [readBounds, List.append_assoc, List.append_assoc, readBound_eq_some digits behind]
    dsimp only
    rw [skipBlank_append blanks noBlank, readSecond_eq_some tail rest, Option.map_some]

theorem DerivesBounds.stops {bounds : Option (Bound × Option (Separator × Bound))}
    (h : DerivesBounds cs bounds) : Stops isBlank (cs ++ ss) := by
  cases h with
  | absent => exact tail.stops isBlank (by decide)
  | present digits =>
    rw [List.append_assoc]
    exact Bound.stops digits _

omit cs in
theorem readStep_eq_some : readStep ss = some step := by
  cases tail with
  | absent => rfl
  | @present ws ds ws' blanks digits blanks' =>
    have behind : Stops isDigit ws' := blanks'.stops
    have start : Stops isBlank (ds ++ ws') :=
      Bound.stops (b := ⟨none, ds⟩) digits ws'
    rw [readStep, skipBlank_append blanks start, readDigits_eq_some digits behind,
      Option.bind_some]
    exact if_pos ((skipBlank_eq_nil_iff ws').mpr blanks')

end Complete

theorem Shape.read_of_derives {cs : List Char} {s : Shape} (h : Derives cs s) :
    read cs = some s := by
  cases h with
  | mk blanks bounds tail =>
    rw [read, skipBlank_append blanks (bounds.stops tail), readBounds_eq_some tail bounds,
      Option.bind_some]
    dsimp only
    rw [readStep_eq_some tail, Option.map_some]

theorem eq_text_of_readSign (cs : List Char) :
    cs = (readSign cs).1.elim [] Sign.text ++ (readSign cs).2 := by
  unfold readSign
  split
  · rfl
  · rfl
  · rfl

theorem eq_text_of_readBound {cs rest : List Char} {b : Bound} (h : readBound cs = some (b, rest)) :
    cs = b.text ++ rest ∧ Digits b.digits := by
  obtain ⟨⟨ds, rest'⟩, read, same⟩ := Option.map_eq_some_iff.mp h
  cases same
  refine ⟨?_, isDigit_of_readDigits _ _ _ read⟩
  rw [Bound.text, List.append_assoc, readDigits_append _ _ _ read]
  exact eq_text_of_readSign cs

theorem eq_text_of_readSeparator {cs rest : List Char} {sep : Separator}
    (h : readSeparator cs = some (sep, rest)) : cs = sep.text ++ rest := by
  unfold readSeparator at h
  split at h
  · cases h
    rfl
  · cases h
    rfl
  · cases h
    rfl
  · cases h

theorem derivesSecond_of_read {cs rest : List Char} {second : Option (Separator × Bound)}
    (h : readSecond cs = some (second, rest)) :
    ∃ read, cs = read ++ rest ∧ DerivesSecond read second := by
  unfold readSecond at h
  split at h
  · cases h
    exact ⟨[], rfl, .absent⟩
  · rename_i sep behind separator
    obtain ⟨⟨b, rest'⟩, bound, same⟩ := Option.map_eq_some_iff.mp h
    cases same
    obtain ⟨ws, blanks, start⟩ := exists_blanks behind
    obtain ⟨ws', blanks', stop⟩ := exists_blanks rest'
    obtain ⟨text, digits⟩ := eq_text_of_readBound bound
    refine ⟨sep.text ++ (ws ++ (b.text ++ ws')), ?_, .present blanks digits blanks'⟩
    rw [eq_text_of_readSeparator separator, List.append_assoc, List.append_assoc,
      List.append_assoc, ← stop, ← text, ← start]

theorem derivesBounds_of_read {cs rest : List Char}
    {bounds : Option (Bound × Option (Separator × Bound))}
    (h : readBounds cs = some (bounds, rest)) :
    ∃ read, cs = read ++ rest ∧ DerivesBounds read bounds := by
  unfold readBounds at h
  split at h
  · cases h
    exact ⟨[], rfl, .absent⟩
  · rename_i b behind bound
    obtain ⟨⟨second, rest'⟩, more, same⟩ := Option.map_eq_some_iff.mp h
    cases same
    obtain ⟨text, digits⟩ := eq_text_of_readBound bound
    obtain ⟨ws, blanks, start⟩ := exists_blanks behind
    obtain ⟨read, split, derived⟩ := derivesSecond_of_read more
    refine ⟨b.text ++ (ws ++ read), ?_, .present digits blanks derived⟩
    rw [text, List.append_assoc, List.append_assoc, ← split, ← start]

theorem derivesStep_of_read {cs : List Char} {step : Option (List Char)}
    (h : readStep cs = some step) : DerivesStep cs step := by
  unfold readStep at h
  split at h
  · cases h
    exact .absent
  · rename_i rest
    obtain ⟨⟨ds, rest'⟩, read, done⟩ := Option.bind_eq_some_iff.mp h
    dsimp only at done
    split at done
    · rename_i blanks'
      cases done
      obtain ⟨ws, blanks, start⟩ := exists_blanks rest
      rw [start, ← readDigits_append _ _ _ read]
      exact .present blanks (isDigit_of_readDigits _ _ _ read)
        ((skipBlank_eq_nil_iff rest').mp blanks')
    · cases done
  · cases h

theorem Shape.derives_of_read {cs : List Char} {s : Shape} (h : read cs = some s) :
    Derives cs s := by
  obtain ⟨⟨bounds, rest⟩, front, done⟩ := Option.bind_eq_some_iff.mp h
  obtain ⟨step, back, same⟩ := Option.map_eq_some_iff.mp done
  obtain ⟨ws, blanks, start⟩ := exists_blanks cs
  obtain ⟨bs, split, derived⟩ := derivesBounds_of_read front
  rw [start, split, ← same]
  exact .mk blanks derived (derivesStep_of_read back)

end Excerpt
