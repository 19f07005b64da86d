import Excerpt.Proofs.Meaning
import Excerpt.Proofs.Pieces
import Excerpt.Proofs.Traversal

/-!
# The language of specifications

A piece is a term if the grammar derives it from a shape with a part. If no run
of digits is too long, a specification is read exactly when every piece of it
is the text of an admissible shape, and it means what its pieces mean; otherwise
the first piece that is no such text is rejected, for the cause of its shape.
-/

namespace Excerpt

open Text

/-- A written term has bounds, a step, or both. -/
structure Written (piece : List Char) (s : Shape) : Prop where
  derives : Shape.Derives piece s
  present : s.bounds.isSome ∨ s.step.isSome

theorem DerivesBounds.exists_digit {cs : List Char} {p : Bound × Option (Separator × Bound)}
    (h : DerivesBounds cs (some p)) : ∃ c ∈ cs, isBlank c = false := by
  cases h with
  | present digits =>
    obtain ⟨d, mem⟩ := List.exists_mem_of_ne_nil _ digits.1
    refine ⟨d, ?_, isBlank_of_isDigit d (digits.2 d mem)⟩
    exact List.mem_append_left _ (List.mem_append_right _ mem)

theorem DerivesStep.slash_mem {cs ds : List Char} (h : DerivesStep cs (some ds)) : '/' ∈ cs := by
  cases h with
  | present => exact List.mem_cons_self

theorem Shape.Derives.strip_eq_nil_iff {piece : List Char} {s : Shape} (h : Derives piece s) :
    strip piece = [] ↔ s.bounds = none ∧ s.step = none := by
  rw [Text.strip_eq_nil_iff]
  cases h with
  | @mk ws bs ss bounds step blanks first last =>
    constructor
    · intro blank
      have blankBounds : ∀ c ∈ bs, isBlank c := fun c hc =>
        blank c (List.mem_append_right _ (List.mem_append_left _ hc))
      have blankStep : ∀ c ∈ ss, isBlank c := fun c hc =>
        blank c (List.mem_append_right _ (List.mem_append_right _ hc))
      constructor
      · cases bounds with
        | none => rfl
        | some p =>
          obtain ⟨c, mem, visible⟩ := first.exists_digit
          exact absurd (blankBounds c mem) (by simp [visible])
      · cases step with
        | none => rfl
        | some ds => exact absurd (blankStep '/' last.slash_mem) (by decide)
    · rintro ⟨rfl, rfl⟩
      cases first
      cases last
      rw [List.append_nil, List.append_nil]
      exact blanks

section Pieces

variable {piece : List Char} {s : Shape}

theorem Written.strip_ne_nil (h : Written piece s) : strip piece ≠ [] := by
  intro blank
  obtain ⟨bounds, step⟩ := h.derives.strip_eq_nil_iff.mp blank
  rcases h.present with some | some
  · rw [bounds] at some
    cases some
  · rw [step] at some
    cases some

theorem Written.ne_nil (h : Written piece s) : piece ≠ [] := by
  rintro rfl
  exact h.strip_ne_nil rfl

theorem Written.unique {s' : Shape} (h : Written piece s) (h' : Written piece s') : s = s' :=
  Option.some.inj ((Shape.read_of_derives h.derives).symm.trans (Shape.read_of_derives h'.derives))

theorem Written.read_eq (h : Written piece s) : Term.read piece = s.toTerm piece := by
  rw [Term.read, Shape.read_of_derives h.derives]
  exact if_neg h.strip_ne_nil

theorem Term.read_of_not_written (h : ∀ s, ¬ Written piece s) :
    Term.read piece = reject .malformed piece := by
  rw [Term.read]
  cases shape : Shape.read piece with
  | none => rfl
  | some s =>
    have derives := Shape.derives_of_read shape
    apply if_pos
    apply derives.strip_eq_nil_iff.mpr
    have absent := fun present => h s ⟨derives, present⟩
    simpa [not_or] using absent

/-- Why a piece is no term. -/
inductive Spec.Fails (piece : List Char) : Rejection.Cause → Prop
  | malformed : (∀ s, ¬ Written piece s) → Fails piece .malformed
  | faulty {s : Shape} {cause : Rejection.Cause} : Written piece s → s.Fails cause →
      Fails piece cause

/-- A piece is a term, is rejected, or cannot be read to its end. -/
theorem Term.read_cases (piece : List Char) :
    (∃ s t, Written piece s ∧ s.Short ∧ s.Means t ∧ Term.read piece = .ok t) ∨
    (∃ cause, Spec.Fails piece cause ∧ Term.read piece = reject cause piece) ∨
    (∃ s ds, Written piece s ∧ s.Overlong ds ∧
      Term.read piece = .error (.tooLongToRead ds.length)) := by
  by_cases written : ∃ s, Written piece s
  · obtain ⟨s, written⟩ := written
    rw [written.read_eq]
    rcases s.toTerm_cases piece with ⟨t, good⟩ | ⟨cause, fails, value⟩ | ⟨ds, overlong⟩
    · exact .inl ⟨s, t, written, good⟩
    · exact .inr (.inl ⟨cause, .faulty written fails, value⟩)
    · exact .inr (.inr ⟨s, ds, written, overlong⟩)
  · have no := not_exists.mp written
    exact .inr (.inl ⟨.malformed, .malformed no, Term.read_of_not_written no⟩)

theorem Term.read_eq_ok_iff (piece : List Char) (t : Term) :
    Term.read piece = .ok t ↔ ∃ s, Written piece s ∧ s.Short ∧ s.Means t := by
  constructor
  · intro value
    rcases Term.read_cases piece with
      ⟨s, t', written, short, means, ok⟩ | ⟨_, _, error⟩ | ⟨_, _, _, _, error⟩
    · cases ok.symm.trans value
      exact ⟨s, written, short, means⟩
    · cases error.symm.trans value
    · cases error.symm.trans value
  · rintro ⟨s, written, short, means⟩
    rw [written.read_eq]
    exact short.toTerm_of_means means

theorem Term.read_eq_tooLongToRead_iff (piece : List Char) (n : Nat) :
    Term.read piece = .error (.tooLongToRead n) ↔
      ∃ s ds, Written piece s ∧ s.Overlong ds ∧ ds.length = n := by
  constructor
  · intro value
    rcases Term.read_cases piece with
      ⟨_, _, _, _, _, ok⟩ | ⟨_, _, error⟩ | ⟨s, ds, written, overlong, error⟩
    · cases ok.symm.trans value
    · cases error.symm.trans value
    · cases error.symm.trans value
      exact ⟨s, ds, written, overlong, rfl⟩
  · rintro ⟨s, ds, written, overlong, rfl⟩
    rw [written.read_eq]
    exact overlong.toTerm_eq

/-- No run of digits is too long to be read. -/
def ShortRuns (cs : List Char) : Prop :=
  ∀ ds, ds <:+: cs → (∀ c ∈ ds, isDigit c) → ds.length ≤ Numeral.maxDigits

theorem ShortRuns.of_infix {cs : List Char} (h : ShortRuns cs) (part : piece <:+: cs) :
    ShortRuns piece :=
  fun ds run digits => h ds (run.trans part) digits

theorem DerivesStep.infix_and_digits {cs ds : List Char} (h : DerivesStep cs (some ds)) :
    ds <:+: cs ∧ Digits ds := by
  cases h with
  | @present ws _ ws' _ digits _ => exact ⟨⟨'/' :: ws, ws', by simp⟩, digits⟩

theorem DerivesSecond.infix_and_digits {cs : List Char} {sep : Separator} {b : Bound}
    (h : DerivesSecond cs (some (sep, b))) : b.digits <:+: cs ∧ Digits b.digits := by
  cases h with
  | @present _ _ ws ws' _ digits _ =>
    exact ⟨⟨sep.text ++ (ws ++ b.sign.elim [] Sign.text), ws', by simp [Bound.text]⟩, digits⟩

theorem DerivesBounds.infix_and_digits {cs : List Char} {b : Bound}
    {second : Option (Separator × Bound)} (h : DerivesBounds cs (some (b, second))) :
    (b.digits <:+: cs ∧ Digits b.digits) ∧
      ∀ q ∈ second, q.2.digits <:+: cs ∧ Digits q.2.digits := by
  cases h with
  | @present _ ws cs' _ digits _ rest =>
    constructor
    · exact ⟨⟨b.sign.elim [] Sign.text, ws ++ cs', by simp [Bound.text]⟩, digits⟩
    · rintro ⟨sep, b'⟩ rfl
      obtain ⟨part, digits'⟩ := rest.infix_and_digits
      have behind : cs' <:+ b.text ++ (ws ++ cs') :=
        (List.suffix_append ws cs').trans (List.suffix_append b.text _)
      exact ⟨part.trans behind.isInfix, digits'⟩

theorem Shape.Derives.short (h : Derives piece s) (short : ShortRuns piece) : s.Short := by
  cases h with
  | @mk ws bs ss bounds step blanks first last =>
    have front : bs <:+: ws ++ (bs ++ ss) := ⟨ws, ss, List.append_assoc ws bs ss⟩
    have back : ss <:+: ws ++ (bs ++ ss) :=
      ((List.suffix_append bs ss).trans (List.suffix_append ws _)).isInfix
    constructor
    · rintro ds rfl
      obtain ⟨part, digits⟩ := last.infix_and_digits
      exact short ds (part.trans back) digits.2
    · rintro ⟨b, second⟩ rfl
      obtain ⟨⟨part, digits⟩, -⟩ := first.infix_and_digits
      exact short b.digits (part.trans front) digits.2
    · rintro ⟨b, second⟩ rfl q mem
      obtain ⟨part, digits⟩ := first.infix_and_digits.2 q mem
      exact short q.2.digits (part.trans front) digits.2

theorem Term.read_eq_ok_iff_of_short (short : ShortRuns piece) (t : Term) :
    Term.read piece = .ok t ↔ ∃ s, Written piece s ∧ s.Means t := by
  rw [Term.read_eq_ok_iff]
  constructor
  · rintro ⟨s, written, _, means⟩
    exact ⟨s, written, means⟩
  · rintro ⟨s, written, means⟩
    exact ⟨s, written, written.derives.short short, means⟩

theorem Term.read_eq_error_iff_of_short (short : ShortRuns piece) (f : Fault) :
    Term.read piece = .error f ↔
      ∃ cause, Spec.Fails piece cause ∧ f = .rejected ⟨cause, String.ofList piece⟩ := by
  constructor
  · intro value
    rcases Term.read_cases piece with
      ⟨_, _, _, _, _, ok⟩ | ⟨cause, fails, error⟩ | ⟨s, ds, written, overlong, _⟩
    · cases ok.symm.trans value
    · cases error.symm.trans value
      exact ⟨cause, fails, rfl⟩
    · exact absurd overlong ((written.derives.short short).not_overlong ds)
  · rintro ⟨cause, fails, rfl⟩
    cases fails with
    | malformed no => exact Term.read_of_not_written no
    | faulty written fails =>
      rw [written.read_eq]
      exact (written.derives.short short).toTerm_of_fails fails

end Pieces

namespace Spec

/-- What stands between the commas, without the blanks around it. -/
def fields (text : String) : List (List Char) := (text.toList.splitOn ',').map strip

/-- A field that is the text of an admissible shape. -/
def Accepts (piece : List Char) : Prop := ∃ s, Written piece s ∧ s.Admissible

theorem accepts_iff {piece : List Char} (short : ShortRuns piece) :
    Accepts piece ↔ ∃ t, Term.read piece = .ok t := by
  constructor
  · rintro ⟨s, written, good⟩
    obtain ⟨t, means⟩ := good.exists_means
    exact ⟨t, (Term.read_eq_ok_iff_of_short short t).mpr ⟨s, written, means⟩⟩
  · rintro ⟨t, value⟩
    obtain ⟨s, written, means⟩ := (Term.read_eq_ok_iff_of_short short t).mp value
    exact ⟨s, written, means.admissible⟩

theorem parse_of_blank {text : String} (h : Blanks text.toList) : parse text = .ok [Term.all] :=
  if_pos ((strip_eq_nil_iff text.toList).mpr h)

theorem parse_of_not_blank {text : String} (h : ¬ Blanks text.toList) :
    parse text = (fields text).mapM Term.read := by
  have visible : strip text.toList ≠ [] := fun blank => h ((strip_eq_nil_iff text.toList).mp blank)
  rw [parse, readTerms, if_neg visible, pieces_eq, fields]

/-- The terms of a specification are those that its fields mean, one for each field. -/
theorem terms_of_parse {text : String} {terms : List Term} (h : parse text = .ok terms) :
    terms = [Term.all] ∧ Blanks text.toList ∨
      List.Forall₂ (fun piece t => ∃ s, Written piece s ∧ s.Short ∧ s.Means t)
        (fields text) terms := by
  by_cases blank : Blanks text.toList
  · rw [parse_of_blank blank] at h
    exact .inl ⟨(Except.ok.inj h).symm, blank⟩
  · rw [parse_of_not_blank blank] at h
    exact .inr ((mapM_eq_ok_iff _ _ _ (fun piece _ => Term.read_eq_ok_iff piece)).mp h)

theorem ne_nil_of_parse {text : String} {terms : List Term} (h : parse text = .ok terms) :
    terms ≠ [] := by
  rcases terms_of_parse h with ⟨rfl, -⟩ | related
  · exact List.cons_ne_nil _ _
  · rintro rfl
    have empty := List.forall₂_nil_right_iff.mp related
    rw [fields, List.map_eq_nil_iff] at empty
    exact List.splitOnP_ne_nil _ _ empty

theorem short_of_mem_fields {text : String} (short : ShortRuns text.toList) {piece : List Char}
    (mem : piece ∈ fields text) : ShortRuns piece := by
  rw [fields, ← pieces_eq] at mem
  exact short.of_infix (infix_of_mem_pieces mem)

section Visible

variable {text : String} (visible : ¬ Blanks text.toList) (short : ShortRuns text.toList)

include visible short

theorem exists_parse_iff :
    (∃ terms, parse text = .ok terms) ↔ ∀ piece ∈ fields text, Accepts piece := by
  rw [parse_of_not_blank visible, exists_mapM_eq_ok_iff]
  apply forall₂_congr
  intro piece mem
  exact (accepts_iff (short_of_mem_fields short mem)).symm

theorem parse_eq_ok_iff (terms : List Term) :
    parse text = .ok terms ↔
      List.Forall₂ (fun piece t => ∃ s, Written piece s ∧ s.Means t) (fields text) terms := by
  rw [parse_of_not_blank visible]
  apply mapM_eq_ok_iff
  intro piece mem t
  exact Term.read_eq_ok_iff_of_short (short_of_mem_fields short mem) t

theorem parse_eq_error_iff (f : Fault) :
    parse text = .error f ↔
      ∃ before piece rest cause, fields text = before ++ piece :: rest ∧
        (∀ p ∈ before, Accepts p) ∧ Fails piece cause ∧
        f = .rejected ⟨cause, String.ofList piece⟩ := by
  have shorts : ∀ piece ∈ fields text, ShortRuns piece := fun _ => short_of_mem_fields short
  rw [parse_of_not_blank visible, mapM_eq_error_iff]
  constructor
  · rintro ⟨before, piece, rest, split, good, bad⟩
    rw [split, List.forall_mem_append, List.forall_mem_cons] at shorts
    obtain ⟨shortBefore, shortHere, -⟩ := shorts
    obtain ⟨cause, fails, same⟩ := (Term.read_eq_error_iff_of_short shortHere f).mp bad
    refine ⟨before, piece, rest, cause, split, ?_, fails, same⟩
    intro p mem
    exact (accepts_iff (shortBefore p mem)).mpr (good p mem)
  · rintro ⟨before, piece, rest, cause, split, good, fails, same⟩
    rw [split, List.forall_mem_append, List.forall_mem_cons] at shorts
    obtain ⟨shortBefore, shortHere, -⟩ := shorts
    have bad := (Term.read_eq_error_iff_of_short shortHere f).mpr ⟨cause, fails, same⟩
    refine ⟨before, piece, rest, split, ?_, bad⟩
    intro p mem
    exact (accepts_iff (shortBefore p mem)).mp (good p mem)

end Visible

/-- A specification is read exactly when each of its fields is the text of an admissible shape,
and means what its fields mean; otherwise its first field at fault is rejected. -/
theorem parse_decides_language (text : String) (short : ShortRuns text.toList) :
    (Blanks text.toList → parse text = .ok [Term.all]) ∧
    (¬ Blanks text.toList →
      ((∃ terms, parse text = .ok terms) ↔
        ∀ piece ∈ fields text, piece ≠ [] ∧ ∃ s, Written piece s ∧ s.Admissible) ∧
      (∀ terms, parse text = .ok terms ↔
        List.Forall₂ (fun piece t => ∃ s, Written piece s ∧ s.Means t) (fields text) terms) ∧
      (∀ f, parse text = .error f ↔
        ∃ before piece rest cause, fields text = before ++ piece :: rest ∧
          (∀ p ∈ before, Accepts p) ∧ Fails piece cause ∧
          f = .rejected ⟨cause, String.ofList piece⟩)) := by
  refine ⟨parse_of_blank, ?_⟩
  intro visible
  refine ⟨?_, parse_eq_ok_iff visible short, parse_eq_error_iff visible short⟩
  rw [exists_parse_iff visible short]
  apply forall₂_congr
  intro piece _
  constructor
  · rintro ⟨s, written, good⟩
    exact ⟨written.ne_nil, s, written, good⟩
  · rintro ⟨-, accepted⟩
    exact accepted

theorem parse_decides_language_mixed :
    ShortRuns " -3+5 ,٣..-1/2".toList ∧ ¬ Blanks " -3+5 ,٣..-1/2".toList ∧
      parse " -3+5 ,٣..-1/2" =
        .ok [⟨-1, -3, 1, by decide, by decide⟩, ⟨3, -1, 2, by decide, by decide⟩] := by
  have short : ShortRuns " -3+5 ,٣..-1/2".toList :=
    fun ds part _ => Nat.le_trans part.length_le (by decide)
  have visible : ¬ Blanks " -3+5 ,٣..-1/2".toList := by
    intro blank
    exact absurd (blank '3' (by decide)) (by decide)
  refine ⟨short, visible, ?_⟩
  have split : fields " -3+5 ,٣..-1/2" = ["-3+5".toList, "٣..-1/2".toList] := by
    decide
  apply (((parse_decides_language _ short).2 visible).2.1 _).mpr
  rw [split]
  refine .cons ?_ (.cons ?_ .nil)
  · refine ⟨⟨some (⟨some .minus, ['3']⟩, some (.plus, ⟨none, ['5']⟩)), none⟩, ⟨?_, ?_⟩, ?_⟩
    · exact Shape.derives_of_read (by decide)
    · decide
    · constructor
      · constructor <;> decide
      · decide
      · decide
  · refine ⟨⟨some (⟨none, ['٣']⟩, some (.dots, ⟨some .minus, ['1']⟩)), some ['2']⟩, ⟨?_, ?_⟩, ?_⟩
    · exact Shape.derives_of_read (by decide)
    · decide
    · constructor
      · constructor <;> decide
      · decide
      · decide

end Spec

end Excerpt
