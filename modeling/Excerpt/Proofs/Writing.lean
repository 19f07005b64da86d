import Excerpt.Proofs.Language

/-!
# Written shapes are read again

A shape is written without blanks, and its text is read as what the shape means.
Texts of terms that hold neither a blank nor a comma can be joined by commas: the
joined text is cut where it was joined and means what its parts mean.
-/

namespace Excerpt

open Text

namespace Numeral

theorem value_eq_ofDigitChars {ds : List Char} (h : ∀ c ∈ ds, c.isDigit) :
    value ds = Nat.ofDigitChars 10 ds 0 := by
  rw [value, Nat.ofDigitChars_eq_foldl]
  apply List.foldl_ext
  intro n c hc
  rw [digitValue, digitValue?_of_isDigit c (h c hc), Option.getD_some]

theorem isDigit_of_mem_toDigits {n : Nat} {c : Char} (h : c ∈ Nat.toDigits 10 n) : c.isDigit :=
  Nat.isDigit_of_mem_toDigits (by decide) (by decide) h

theorem value_toDigits (n : Nat) : value (Nat.toDigits 10 n) = n := by
  rw [value_eq_ofDigitChars fun _ => isDigit_of_mem_toDigits]
  exact Nat.ofDigitChars_ten_toDigits

theorem digits_toDigits (n : Nat) : Digits (Nat.toDigits 10 n) := by
  refine ⟨Nat.toDigits_ne_nil, ?_⟩
  intro c hc
  rw [isDigit, digitValue?_of_isDigit c (isDigit_of_mem_toDigits hc), Option.isSome_some]

theorem toString_int (n : Int) :
    toString n = if n < 0 then "-" ++ toString n.natAbs else toString n.natAbs := by
  rw [Int.toString_eq_repr, Int.repr_eq_if]
  by_cases negative : n < 0
  · rw [if_neg (by omega), if_pos negative, show (-n).toNat = n.natAbs by omega]
    rfl
  · rw [if_pos (by omega), if_neg negative, show n.toNat = n.natAbs by omega]
    rfl

theorem length_toDigits_le {n k : Nat} (pos : 0 < k) (h : n < Nat.pow 10 k) :
    (Nat.toDigits 10 n).length ≤ k :=
  (Nat.length_toDigits_le_iff (by decide) pos).mpr h

theorem Writable.length_le {n : Int} (h : Writable n) :
    (Nat.toDigits 10 n.natAbs).length ≤ maxDigits :=
  length_toDigits_le (by decide) h

end Numeral

namespace Bound

/-- The bound that writes a number. -/
def ofInt (n : Int) : Bound := ⟨if n < 0 then some .minus else none, Nat.toDigits 10 n.natAbs⟩

theorem number_ofInt (n : Int) : (ofInt n).number = n := by
  rw [number, ofInt]
  dsimp only
  rw [Numeral.value_toDigits]
  by_cases negative : n < 0
  · rw [if_pos negative, if_pos rfl]
    omega
  · rw [if_neg negative, if_neg nofun]
    omega

theorem text_ofInt (n : Int) : (ofInt n).text = (toString n).toList := by
  have digits : (toString n.natAbs).toList = Nat.toDigits 10 n.natAbs := by
    rw [Nat.toString_eq_ofList_toDigits, String.toList_ofList]
  rw [Numeral.toString_int, text, ofInt]
  by_cases negative : n < 0
  · rw [if_pos negative, if_pos negative, String.toList_append, digits]
    rfl
  · rw [if_neg negative, if_neg negative, digits]
    rfl

end Bound

/-- A text in which nothing is cut off or cut apart. -/
def Plain (cs : List Char) : Prop := ∀ c ∈ cs, isBlank c = false ∧ c ≠ ','

theorem Digits.plain {ds : List Char} (h : Digits ds) : Plain ds := by
  intro c hc
  have digit := h.2 c hc
  refine ⟨isBlank_of_isDigit c digit, ?_⟩
  rintro rfl
  exact absurd digit (by decide)

theorem Plain.nil : Plain [] := fun _ hc => nomatch hc

theorem Plain.cons {c : Char} {cs : List Char} (visible : isBlank c = false) (other : c ≠ ',')
    (h : Plain cs) : Plain (c :: cs) :=
  List.forall_mem_cons.mpr ⟨⟨visible, other⟩, h⟩

theorem Plain.append {cs ds : List Char} (hc : Plain cs) (hd : Plain ds) : Plain (cs ++ ds) :=
  List.forall_mem_append.mpr ⟨hc, hd⟩

theorem Plain.strip_eq {cs : List Char} (h : Plain cs) : strip cs = cs := by
  have stops : Stops isBlank cs := fun c hc => (h c (List.mem_of_mem_head? hc)).1
  have stops' : Stops isBlank cs.reverse := fun c hc =>
    (h c (List.mem_reverse.mp (List.mem_of_mem_head? hc))).1
  rw [strip, skipBlank_of_stops stops, skipBlank_of_stops stops', List.reverse_reverse]

theorem Separator.plain (sep : Separator) : Plain sep.text := by
  cases sep with
  | dots => exact .cons (by decide) (by decide) (.cons (by decide) (by decide) .nil)
  | dash => exact .cons (by decide) (by decide) .nil
  | plus => exact .cons (by decide) (by decide) .nil

theorem Bound.plain {b : Bound} (h : Digits b.digits) : Plain b.text := by
  obtain ⟨sign, digits⟩ := b
  match sign with
  | none => exact h.plain
  | some .plus => exact Plain.cons (by decide) (by decide) h.plain
  | some .minus => exact Plain.cons (by decide) (by decide) h.plain

namespace Shape

/-- What follows the first bound, without blanks. -/
def secondText : Option (Separator × Bound) → List Char
  | none => []
  | some (sep, b) => sep.text ++ b.text

def boundsText : Option (Bound × Option (Separator × Bound)) → List Char
  | none => []
  | some (b, second) => b.text ++ secondText second

def stepText : Option (List Char) → List Char
  | none => []
  | some ds => '/' :: ds

/-- The shape written without blanks. -/
def text (s : Shape) : List Char := boundsText s.bounds ++ stepText s.step

/-- The shape has a part, and its numbers are written in digits. -/
structure Proper (s : Shape) : Prop where
  present : s.bounds.isSome ∨ s.step.isSome
  first : ∀ p ∈ s.bounds, Digits p.1.digits
  second : ∀ p ∈ s.bounds, ∀ q ∈ p.2, Digits q.2.digits
  step : ∀ ds ∈ s.step, Digits ds

end Shape

theorem Blanks.nil : Blanks [] := fun _ hc => nomatch hc

theorem derivesSecond_text {second : Option (Separator × Bound)}
    (digits : ∀ q ∈ second, Digits q.2.digits) :
    DerivesSecond (Shape.secondText second) second ∧ Plain (Shape.secondText second) := by
  match second with
  | none => exact ⟨.absent, .nil⟩
  | some (sep, b) =>
    have derived : DerivesSecond (sep.text ++ ([] ++ (b.text ++ []))) (some (sep, b)) :=
      .present .nil (digits _ rfl) .nil
    rw [List.nil_append, List.append_nil] at derived
    exact ⟨derived, sep.plain.append (Bound.plain (digits _ rfl))⟩

theorem derivesBounds_text {bounds : Option (Bound × Option (Separator × Bound))}
    (first : ∀ p ∈ bounds, Digits p.1.digits)
    (second : ∀ p ∈ bounds, ∀ q ∈ p.2, Digits q.2.digits) :
    DerivesBounds (Shape.boundsText bounds) bounds ∧ Plain (Shape.boundsText bounds) := by
  match bounds with
  | none => exact ⟨.absent, .nil⟩
  | some (b, rest) =>
    obtain ⟨derived, plain⟩ := derivesSecond_text (second _ rfl)
    exact ⟨.present (first _ rfl) .nil derived, (Bound.plain (first _ rfl)).append plain⟩

theorem derivesStep_text {step : Option (List Char)} (digits : ∀ ds ∈ step, Digits ds) :
    DerivesStep (Shape.stepText step) step ∧ Plain (Shape.stepText step) := by
  match step with
  | none => exact ⟨.absent, .nil⟩
  | some ds =>
    have derived : DerivesStep ('/' :: ([] ++ (ds ++ []))) (some ds) :=
      .present .nil (digits _ rfl) .nil
    rw [List.nil_append, List.append_nil] at derived
    exact ⟨derived, .cons (by decide) (by decide) (digits _ rfl).plain⟩

namespace Shape

variable {s : Shape}

theorem Proper.written (h : s.Proper) : Written s.text s := by
  obtain ⟨bounds, -⟩ := derivesBounds_text h.first h.second
  obtain ⟨step, -⟩ := derivesStep_text h.step
  exact ⟨.mk .nil bounds step, h.present⟩

theorem Proper.plain (h : s.Proper) : Plain s.text :=
  (derivesBounds_text h.first h.second).2.append (derivesStep_text h.step).2

theorem Proper.read_text (h : s.Proper) (short : s.Short) {t : Term} (means : s.Means t) :
    Term.read s.text = .ok t :=
  (Term.read_eq_ok_iff s.text t).mpr ⟨s, h.written, short, means⟩

/-- Putting two numbers in order at most exchanges them. -/
theorem eq_or_swap_of_ordered {a b first second : Int} (h : (a, b) = ordered first second) :
    a = first ∧ b = second ∨ a = second ∧ b = first := by
  unfold ordered at h
  split at h
  · obtain ⟨smaller, larger⟩ := Prod.mk.inj h
    omega
  · obtain ⟨larger, smaller⟩ := Prod.mk.inj h
    omega

theorem ne_zero_of_ordered {t : Term} {first second : Int}
    (bounds : (t.anchor, t.limit) = ordered first second) : first ≠ 0 ∧ second ≠ 0 := by
  obtain ⟨rfl, rfl⟩ | ⟨rfl, rfl⟩ := eq_or_swap_of_ordered bounds
  · exact ⟨t.anchor_ne_zero, t.limit_ne_zero⟩
  · exact ⟨t.limit_ne_zero, t.anchor_ne_zero⟩

/-- The shape of one or two numbers and perhaps a step, with dots between the numbers. -/
def ofNumbers (first : Int) (second : Option Int) (step : Option Nat) : Shape :=
  ⟨some (Bound.ofInt first, second.map (fun n => (.dots, Bound.ofInt n))),
    step.map (Nat.toDigits 10)⟩

/-- The numbers as they are written. -/
def numbersText (first : Int) (second : Option Int) (step : Option Nat) : String :=
  toString first ++ second.elim "" (".." ++ toString ·) ++ step.elim "" ("/" ++ toString ·)

section Numbers

variable {first : Int} {second : Option Int} {step : Option Nat}

theorem proper_ofNumbers : (ofNumbers first second step).Proper where
  present := .inl rfl
  first := by
    rintro p ⟨rfl⟩
    exact Numeral.digits_toDigits _
  second := by
    rintro p ⟨rfl⟩ q mem
    obtain ⟨n, -, rfl⟩ := Option.map_eq_some_iff.mp mem
    exact Numeral.digits_toDigits _
  step := by
    intro ds mem
    obtain ⟨n, -, rfl⟩ := Option.map_eq_some_iff.mp mem
    exact Numeral.digits_toDigits n

theorem short_ofNumbers (hfirst : Numeral.Writable first)
    (hsecond : ∀ n ∈ second, Numeral.Writable n) (hstep : ∀ n ∈ step, Numeral.Writable n) :
    (ofNumbers first second step).Short where
  step := by
    intro ds mem
    obtain ⟨n, here, rfl⟩ := Option.map_eq_some_iff.mp mem
    exact (hstep n here).length_le
  first := by
    rintro p ⟨rfl⟩
    exact hfirst.length_le
  second := by
    rintro p ⟨rfl⟩ q mem
    obtain ⟨n, here, rfl⟩ := Option.map_eq_some_iff.mp mem
    exact (hsecond n here).length_le

theorem text_ofNumbers :
    (ofNumbers first second step).text = (numbersText first second step).toList := by
  have later : secondText (second.map (fun n => (.dots, Bound.ofInt n))) =
      (second.elim "" (".." ++ toString ·)).toList := by
    cases second with
    | none => rfl
    | some n =>
      rw [Option.elim_some, String.toList_append, ← Bound.text_ofInt]
      rfl
  have last : stepText (step.map (Nat.toDigits 10)) =
      (step.elim "" ("/" ++ toString ·)).toList := by
    cases step with
    | none => rfl
    | some n =>
      rw [Option.elim_some, String.toList_append, Nat.toString_eq_ofList_toDigits,
        String.toList_ofList, String.toList_ofList]
      rfl
  rw [numbersText, String.toList_append, String.toList_append, ← Bound.text_ofInt, ← later, ← last]
  rfl

theorem numbers_ofNumbers : (ofNumbers first second step).numbers = (first, second.getD first) := by
  cases second with
  | none => exact congrArg (fun n => (n, n)) (Bound.number_ofInt first)
  | some n => exact congrArg₂ Prod.mk (Bound.number_ofInt first) (Bound.number_ofInt n)

theorem stepNumber_ofNumbers : (ofNumbers first second step).stepNumber = step.getD 1 := by
  cases step with
  | none => rfl
  | some n => exact Numeral.value_toDigits n

theorem means_ofNumbers {t : Term}
    (bounds : (t.anchor, t.limit) = ordered first (second.getD first))
    (steps : t.step = step.getD 1) : (ofNumbers first second step).Means t := by
  have lines := ne_zero_of_ordered bounds
  refine ⟨⟨?_, ?_, ?_, ?_⟩, ?_, ?_⟩
  · rw [stepNumber_ofNumbers, ← steps]
    exact Nat.ne_of_gt t.step_pos
  · cases second with
    | none => exact nofun
    | some n => exact nofun
  · rw [numbers_ofNumbers]
    exact lines.1
  · rw [numbers_ofNumbers]
    exact lines.2
  · rw [numbers_ofNumbers]
    exact bounds
  · rw [stepNumber_ofNumbers]
    exact steps

end Numbers

end Shape

namespace Spec

section Join

variable {texts : List String}

theorem toList_join :
    (",".intercalate texts).toList = [','].intercalate (texts.map String.toList) :=
  String.toList_intercalate

/-- A join is cut at the commas that it was joined by, and at no others. -/
theorem fields_join (nonempty : texts ≠ []) (plain : ∀ text ∈ texts, Plain text.toList) :
    fields (",".intercalate texts) = texts.map String.toList := by
  have apart : ∀ cs ∈ texts.map String.toList, ',' ∉ cs := by
    intro cs mem comma
    obtain ⟨text, ht, rfl⟩ := List.mem_map.mp mem
    exact (plain text ht ',' comma).2 rfl
  have some_text : texts.map String.toList ≠ [] := by
    rwa [ne_eq, List.map_eq_nil_iff]
  rw [fields, toList_join, List.splitOn_intercalate ',' apart some_text, List.map_map]
  apply List.map_congr_left
  intro text ht
  exact (plain text ht).strip_eq

theorem not_blanks_join {text : String} (ht : text ∈ texts) (plain : Plain text.toList)
    (nonempty : text.toList ≠ []) : ¬ Blanks (",".intercalate texts).toList := by
  obtain ⟨c, hc⟩ := List.exists_mem_of_ne_nil _ nonempty
  have part : text.toList <:+: (",".intercalate texts).toList := by
    rw [toList_join]
    exact infix_of_mem_intercalate [','] (List.mem_map_of_mem ht)
  intro blanks
  have blank := blanks c (part.subset hc)
  rw [(plain c hc).1] at blank
  cases blank

/-- Joined texts are read one by one. -/
theorem parse_join {terms : List Term} (nonempty : texts ≠ [])
    (plain : ∀ text ∈ texts, Plain text.toList)
    (read : List.Forall₂ (fun text t => Term.read text.toList = .ok t) texts terms) :
    parse (",".intercalate texts) = .ok terms := by
  have visible : ¬ Blanks (",".intercalate texts).toList := by
    obtain ⟨text, ht⟩ := List.exists_mem_of_ne_nil _ nonempty
    obtain ⟨t, -, value⟩ := exists_of_mem_right read.flip ht
    obtain ⟨s, written, -⟩ := (Term.read_eq_ok_iff _ t).mp value
    exact not_blanks_join ht (plain text ht) written.ne_nil
  rw [parse_of_not_blank visible, fields_join nonempty plain]
  apply (mapM_eq_ok_iff Term.read _ _ (fun _ _ _ => Iff.rfl)).mpr
  exact List.forall₂_map_left_iff.mpr read

end Join

end Spec

end Excerpt
