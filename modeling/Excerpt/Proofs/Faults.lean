import Mathlib.Tactic.NormNum
import Excerpt.Proofs.Language
import Excerpt.Proofs.Laziness

/-!
# The faults of a run

A rejected specification is an answer; what else can break a run off is listed
by `Run.Raises`. A run of digits can be too long to be read, a sum too long to
be written, a bound too far from the end for any ring, and the source can fail.
Only the last of these is met after a line has been pulled.
-/

namespace Excerpt

open Text

variable {α : Type}

theorem Numeral.writable_neg (n : Int) : Writable (-n) ↔ Writable n := by
  rw [Writable, Writable, Int.natAbs_neg]

theorem Numeral.writable_one : Writable 1 := by decide +kernel

theorem Numeral.not_writable_iff {n : Int} (h : 0 ≤ n) :
    ¬ Writable n ↔ (10 : Int) ^ maxDigits ≤ n := by
  have size (k : Nat) : ((Nat.pow 10 k : Nat) : Int) = (10 : Int) ^ k := Nat.cast_pow 10 k
  rw [Writable, ← size]
  generalize Nat.pow 10 maxDigits = limit
  omega

theorem Bound.writable_number {b : Bound} (h : b.digits.length ≤ Numeral.maxDigits) :
    Numeral.Writable b.number := by
  have value := Numeral.writable_value b.digits h
  unfold Bound.number
  split
  · exact (Numeral.writable_neg _).mpr value
  · exact value

namespace Shape

variable {s : Shape}

/-- A positive line number and an offset whose sum has too many digits. -/
def LongSum (s : Shape) : Prop :=
  ∃ b d, s.bounds = some (b, some (.plus, d)) ∧ 0 < b.number ∧
    (10 : Int) ^ Numeral.maxDigits ≤ b.number + d.number

/-- Below zero a sum is nearer to zero than its first part, so only a positive one can grow beyond
what can be written. -/
theorem writable_endNumber {first : Int} (writable : Numeral.Writable first)
    {second : Option (Separator × Bound)}
    (short : ∀ q ∈ second, q.2.digits.length ≤ Numeral.maxDigits)
    (nonneg : ∀ d, second = some (.plus, d) → 0 ≤ d.number)
    (sum : ∀ d, second = some (.plus, d) → 0 < first → Numeral.Writable (first + d.number)) :
    Numeral.Writable (endNumber first second) := by
  match second with
  | none => exact writable
  | some (.dots, b) => exact Bound.writable_number (short _ rfl)
  | some (.dash, b) => exact Bound.writable_number (short _ rfl)
  | some (.plus, b) =>
    have forward := nonneg b rfl
    have offset : Numeral.Writable b.number := Bound.writable_number (short _ rfl)
    have total := sum b rfl
    change Numeral.Writable (if first < 0 ∧ 0 ≤ first + b.number then -1 else first + b.number)
    split
    · exact (Numeral.writable_neg 1).mpr Numeral.writable_one
    · unfold Numeral.Writable at *
      generalize Nat.pow 10 Numeral.maxDigits = limit at *
      omega

theorem Means.writable_iff {t : Term} (h : s.Means t) :
    Numeral.Writable t.anchor ∧ Numeral.Writable t.limit ↔
      Numeral.Writable s.numbers.1 ∧ Numeral.Writable s.numbers.2 := by
  have anchor : t.anchor = (ordered s.numbers.1 s.numbers.2).1 := congrArg Prod.fst h.bounds
  have limit : t.limit = (ordered s.numbers.1 s.numbers.2).2 := congrArg Prod.snd h.bounds
  rw [anchor, limit]
  unfold ordered Numeral.Writable
  split
  · dsimp only
    omega
  · dsimp only
    omega

theorem Short.writable_step (h : s.Short) : Numeral.Writable s.stepNumber := by
  obtain ⟨bounds, step⟩ := s
  cases step with
  | none => exact Numeral.writable_one
  | some ds => exact Numeral.writable_value ds (h.step ds rfl)

theorem Short.writable_numbers_iff (h : s.Short) (good : s.Admissible) :
    Numeral.Writable s.numbers.1 ∧ Numeral.Writable s.numbers.2 ↔ ¬ s.LongSum := by
  match s, h, good.offset_nonneg with
  | ⟨none, _⟩, _, _ =>
    constructor
    · rintro - ⟨b, d, given, -⟩
      cases given
    · intro _
      exact ⟨Numeral.writable_one, (Numeral.writable_neg 1).mpr Numeral.writable_one⟩
  | ⟨some (b, second), _⟩, h, nonneg =>
    have first : Numeral.Writable b.number := Bound.writable_number (h.first _ rfl)
    constructor
    · rintro ⟨-, ends⟩ ⟨_, d, ⟨rfl⟩, pos, long⟩
      have forward : ¬ (b.number < 0 ∧ 0 ≤ b.number + d.number) := by omega
      have sum : endNumber b.number (some (.plus, d)) = b.number + d.number := if_neg forward
      rw [numbers] at ends
      dsimp only at ends
      rw [sum] at ends
      have offset := nonneg d.number rfl
      exact (Numeral.not_writable_iff (by omega)).mpr long ends
    · intro no
      refine ⟨first, writable_endNumber first (h.second _ rfl) ?_ ?_⟩
      · rintro d rfl
        exact nonneg d.number rfl
      · rintro d rfl pos
        by_contra long
        have offset := nonneg d.number rfl
        exact no ⟨b, d, rfl, pos, (Numeral.not_writable_iff (by omega)).mp long⟩

end Shape

namespace Spec

theorem not_written_of_blank {text : String} (blank : Blanks text.toList) {piece : List Char}
    (mem : piece ∈ fields text) (s : Shape) : ¬ Written piece s := by
  intro written
  rw [fields, ← pieces_eq] at mem
  apply written.strip_ne_nil
  apply (strip_eq_nil_iff piece).mpr
  intro c hc
  exact blank c ((infix_of_mem_pieces mem).subset hc)

theorem parse_fault {text : String} {f : Fault} (h : parse text = .error f) :
    (∃ r, f = .rejected r) ∨ ∃ n, f = .tooLongToRead n := by
  by_cases blank : Blanks text.toList
  · cases (parse_of_blank blank).symm.trans h
  · rw [parse_of_not_blank blank] at h
    obtain ⟨before, piece, rest, -, -, bad⟩ := (mapM_eq_error_iff _ _ _).mp h
    rcases Term.read_cases piece with
      ⟨_, _, _, _, _, ok⟩ | ⟨cause, _, error⟩ | ⟨_, ds, _, _, error⟩
    · cases ok.symm.trans bad
    · cases error.symm.trans bad
      exact .inl ⟨_, rfl⟩
    · cases error.symm.trans bad
      exact .inr ⟨_, rfl⟩

theorem parse_eq_tooLongToRead_iff (text : String) (n : Nat) :
    parse text = .error (.tooLongToRead n) ↔
      ∃ before piece rest s ds, fields text = before ++ piece :: rest ∧
        (∀ p ∈ before, ∃ t, Term.read p = .ok t) ∧ Written piece s ∧ s.Overlong ds ∧
        ds.length = n := by
  by_cases blank : Blanks text.toList
  · rw [parse_of_blank blank]
    constructor
    · intro h
      cases h
    · rintro ⟨before, piece, rest, s, ds, split, _, written, _⟩
      have mem : piece ∈ fields text := split ▸ List.mem_append_right _ List.mem_cons_self
      exact absurd written (not_written_of_blank blank mem s)
  · rw [parse_of_not_blank blank, mapM_eq_error_iff]
    constructor
    · rintro ⟨before, piece, rest, split, good, bad⟩
      obtain ⟨s, ds, overlong⟩ := (Term.read_eq_tooLongToRead_iff piece n).mp bad
      exact ⟨before, piece, rest, s, ds, split, good, overlong⟩
    · rintro ⟨before, piece, rest, s, ds, split, good, overlong⟩
      have bad := (Term.read_eq_tooLongToRead_iff piece n).mpr ⟨s, ds, overlong⟩
      exact ⟨before, piece, rest, split, good, bad⟩

theorem writable_step_of_parse {text : String} {terms : List Term} (h : parse text = .ok terms) :
    ∀ t ∈ terms, Numeral.Writable t.step := by
  intro t mem
  rcases terms_of_parse h with ⟨rfl, -⟩ | related
  · cases List.mem_singleton.mp mem
    exact Numeral.writable_one
  · obtain ⟨piece, -, s, -, short, means⟩ := exists_of_mem_right related mem
    rw [means.step]
    exact short.writable_step

/-- A bound that cannot be written comes from a sum and from nothing else. -/
theorem long_bound_iff_long_sum {text : String} {terms : List Term}
    (h : parse text = .ok terms) :
    (∃ t ∈ terms, ¬ (Numeral.Writable t.anchor ∧ Numeral.Writable t.limit)) ↔
      ∃ piece ∈ fields text, ∃ s, Written piece s ∧ s.LongSum := by
  rcases terms_of_parse h with ⟨rfl, blank⟩ | related
  · constructor
    · rintro ⟨t, mem, long⟩
      cases List.mem_singleton.mp mem
      exact absurd ⟨Numeral.writable_one, (Numeral.writable_neg 1).mpr Numeral.writable_one⟩ long
    · rintro ⟨piece, mem, s, written, -⟩
      exact absurd written (not_written_of_blank blank mem s)
  · constructor
    · rintro ⟨t, mem, long⟩
      obtain ⟨piece, here, s, written, short, means⟩ := exists_of_mem_right related mem
      rw [means.writable_iff, short.writable_numbers_iff means.admissible, not_not] at long
      exact ⟨piece, here, s, written, long⟩
    · rintro ⟨piece, here, s, written, long⟩
      obtain ⟨t, mem, s', written', short, means⟩ := exists_of_mem_right related.flip here
      obtain rfl := written.unique written'
      refine ⟨t, mem, ?_⟩
      rw [means.writable_iff, short.writable_numbers_iff means.admissible]
      exact not_not_intro long

end Spec

namespace Run

theorem ofSpec_of_ok {spec : String} {terms : List Term} (h : Spec.parse spec = .ok terms)
    (s : Source α) : ofSpec spec s = ofTerms terms s := by
  rw [ofSpec, h]

theorem ofSpec_of_tooLong {spec : String} {n : Nat}
    (h : Spec.parse spec = .error (.tooLongToRead n)) (s : Source α) :
    ofSpec spec s = ⟨.error (.tooLongToRead n), [], s⟩ := by
  rw [ofSpec, h]

theorem ofSpec_of_rejected {spec : String} {r : Rejection}
    (h : Spec.parse spec = .error (.rejected r)) (s : Source α) :
    ofSpec spec s = ⟨.error (.rejected r), [.rejected spec r], s⟩ := by
  rw [ofSpec, h]

theorem outcome_ofSpec_of_error {spec : String} {f : Fault} (h : Spec.parse spec = .error f)
    (s : Source α) : (ofSpec spec s).outcome = .error f := by
  rcases Spec.parse_fault h with ⟨r, rfl⟩ | ⟨n, rfl⟩
  · rw [ofSpec_of_rejected h]
  · rw [ofSpec_of_tooLong h]

theorem ofTerms_of_not_writable {terms : List Term} (h : ¬ ∀ t ∈ terms, t.Writable)
    (s : Source α) : ofTerms terms s = ⟨.error .tooLongToWrite, [], s⟩ := by
  rw [ofTerms, Plan.ofTerms_eq_error terms h]

theorem ofTerms_of_capacity_large {terms : List Term} (h : ∀ t ∈ terms, t.Writable)
    (large : Tail.capacityLimit ≤ Plan.capacityFor terms) (s : Source α) :
    ofTerms terms s =
      ⟨.error .capacityTooLarge,
        [.planned terms ⟨Plan.capacityFor terms, Plan.ceilingFor terms⟩], s⟩ := by
  have refused : Pass.new (α := α) ⟨Plan.capacityFor terms, Plan.ceilingFor terms⟩ =
      .error .capacityTooLarge := by
    rw [Pass.new, Tail.new_eq_error large]
    rfl
  rw [ofTerms, Plan.ofTerms_eq_ok terms h]
  simp only [Scan.ofPlan, refused]

/-- Terms that no run can be made for fail in the same way over every source. -/
theorem exists_fault_of_not_feasible (α : Type) {terms : List Term} (h : ¬ Plan.Feasible terms) :
    ∃ f, ∀ s : Source α, (ofTerms terms s).outcome = .error f := by
  by_cases writable : ∀ t ∈ terms, t.Writable
  · have large : Tail.capacityLimit ≤ Plan.capacityFor terms :=
      Int.not_lt.mp (fun fits => h ⟨writable, fits⟩)
    exact ⟨_, fun s => by rw [ofTerms_of_capacity_large writable large]⟩
  · exact ⟨_, fun s => by rw [ofTerms_of_not_writable writable]⟩

/-- No bound has more digits than can be written. -/
abbrev BoundsWritable (terms : List Term) : Prop :=
  ∀ t ∈ terms, Numeral.Writable t.anchor ∧ Numeral.Writable t.limit

/-- No bound is so far from the end that no ring could reach it. -/
abbrev BoundsReachable (terms : List Term) : Prop :=
  ∀ t ∈ terms, -t.anchor < 2 ^ 63 ∧ -t.limit < 2 ^ 63

/-- The faults other than a rejection, each with its cause. A cause applies only if none of those
above it does. -/
inductive Raises (spec : String) (s : Source α) : Fault → Prop
  | overlongRun {before rest : List (List Char)} {piece ds : List Char} {shape : Shape} :
      Spec.fields spec = before ++ piece :: rest → (∀ p ∈ before, ∃ t, Term.read p = .ok t) →
      Written piece shape → shape.Overlong ds → Raises spec s (.tooLongToRead ds.length)
  | overlongBound {terms : List Term} : Spec.parse spec = .ok terms → ¬ BoundsWritable terms →
      Raises spec s .tooLongToWrite
  | farBound {terms : List Term} : Spec.parse spec = .ok terms → BoundsWritable terms →
      ¬ BoundsReachable terms → Raises spec s .capacityTooLarge
  | sourceFails {terms : List Term} {reason : String} : Spec.parse spec = .ok terms →
      BoundsWritable terms → BoundsReachable terms → s.ending? = some (.failed reason) →
      s.available < Plan.lastNeeded terms → Raises spec s (.sourceFailed reason)

section Terms

variable {spec : String} {terms : List Term} (parsed : Spec.parse spec = .ok terms)

include parsed

theorem writable_iff_of_parse : (∀ t ∈ terms, t.Writable) ↔ BoundsWritable terms := by
  constructor
  · intro writable t mem
    exact ⟨(writable t mem).1, (writable t mem).2.1⟩
  · intro bounds t mem
    exact ⟨(bounds t mem).1, (bounds t mem).2, Spec.writable_step_of_parse parsed t mem⟩

theorem feasible_iff_of_parse :
    Plan.Feasible terms ↔ BoundsWritable terms ∧ BoundsReachable terms := by
  have reach := Plan.capacityFor_lt_iff terms (c := 2 ^ 63) (by norm_num)
  constructor
  · intro feasible
    exact ⟨(writable_iff_of_parse parsed).mp feasible.writable, reach.mp feasible.fits⟩
  · rintro ⟨writable, reachable⟩
    exact ⟨(writable_iff_of_parse parsed).mpr writable, reach.mpr reachable⟩

end Terms

variable {spec : String} {s : Source α} {f : Fault}

/-- Unless the source itself fails, a fault is met before anything is pulled. -/
theorem Raises.ofSpec_eq (h : Raises spec s f) (own : ∀ reason, f ≠ .sourceFailed reason) :
    ∃ events, ofSpec spec s = ⟨.error f, events, s⟩ := by
  cases h with
  | overlongRun split good written overlong =>
    have failed := (Spec.parse_eq_tooLongToRead_iff spec _).mpr
      ⟨_, _, _, _, _, split, good, written, overlong, rfl⟩
    exact ⟨_, ofSpec_of_tooLong failed s⟩
  | overlongBound parsed long =>
    rw [ofSpec_of_ok parsed]
    have long' := fun writable => long ((writable_iff_of_parse parsed).mp writable)
    exact ⟨_, ofTerms_of_not_writable long' s⟩
  | @farBound terms parsed writable far =>
    rw [ofSpec_of_ok parsed]
    have writable' := (writable_iff_of_parse parsed).mpr writable
    have large : Tail.capacityLimit ≤ Plan.capacityFor terms := by
      by_contra small
      have feasible : Plan.Feasible terms := ⟨writable', Int.not_le.mp small⟩
      exact far ((feasible_iff_of_parse parsed).mp feasible).2
    exact ⟨_, ofTerms_of_capacity_large writable' large s⟩
  | @sourceFails _ reason => exact absurd rfl (own reason)

theorem Raises.outcome_eq (h : Raises spec s f) : (ofSpec spec s).outcome = .error f := by
  by_cases own : ∃ reason, f = .sourceFailed reason
  · obtain ⟨reason, rfl⟩ := own
    cases h with
    | sourceFails parsed writable reachable fails below =>
      have feasible := (feasible_iff_of_parse parsed).mpr ⟨writable, reachable⟩
      rw [ofSpec_of_ok parsed]
      exact (outcome_eq_sourceFailed_iff feasible s reason).mpr ⟨below, fails⟩
  · obtain ⟨events, run⟩ := h.ofSpec_eq (not_exists.mp own)
    rw [run]

theorem raises_of_ofTerms {terms : List Term} (parsed : Spec.parse spec = .ok terms)
    (h : (ofTerms terms s).outcome = .error f) :
    (f = .sourceUnending ∧ s.available = ⊤) ∨ Raises spec s f := by
  by_cases writable : BoundsWritable terms
  · by_cases reachable : BoundsReachable terms
    · have feasible := (feasible_iff_of_parse parsed).mpr ⟨writable, reachable⟩
      obtain ⟨k, _, _, outcome, _⟩ | ⟨n, _, _, _, outcome, _⟩ |
        ⟨n, reason, count, below, fails, outcome, _⟩ | ⟨_, endless, outcome, _⟩ :=
        ofTerms_cases feasible s
      · cases outcome.symm.trans h
      · cases outcome.symm.trans h
      · cases outcome.symm.trans h
        rw [← count] at below
        exact .inr (.sourceFails parsed writable reachable fails below)
      · cases outcome.symm.trans h
        exact .inl ⟨rfl, endless⟩
    · have raised : Raises spec s .capacityTooLarge := .farBound parsed writable reachable
      rw [← ofSpec_of_ok parsed, raised.outcome_eq] at h
      exact .inr (Except.error.inj h ▸ raised)
  · have raised : Raises spec s .tooLongToWrite := .overlongBound parsed writable
    rw [← ofSpec_of_ok parsed, raised.outcome_eq] at h
    exact .inr (Except.error.inj h ▸ raised)

theorem outcome_error_cases (h : (ofSpec spec s).outcome = .error f) :
    (∃ r, f = .rejected r ∧ Spec.parse spec = .error (.rejected r)) ∨
      (f = .sourceUnending ∧ s.available = ⊤) ∨ Raises spec s f := by
  cases parsed : Spec.parse spec with
  | error f' =>
    rcases Spec.parse_fault parsed with ⟨r, rfl⟩ | ⟨n, rfl⟩
    · rw [ofSpec_of_rejected parsed] at h
      exact .inl ⟨r, (Except.error.inj h).symm, rfl⟩
    · rw [ofSpec_of_tooLong parsed] at h
      obtain ⟨before, piece, rest, shape, ds, split, good, written, overlong, rfl⟩ :=
        (Spec.parse_eq_tooLongToRead_iff spec n).mp parsed
      cases h
      exact .inr (.inr (.overlongRun split good written overlong))
  | ok terms =>
    rw [ofSpec_of_ok parsed] at h
    exact .inr (raises_of_ofTerms parsed h)

end Run

/-- What a run over a specification can raise, and that it has pulled nothing by then unless the
source itself fails; a run that never ends raises nothing. A bound is too long to be written exactly
if some field is a sum that is. -/
theorem Run.raises_known_faults (spec : String) (s : Source α) :
    (∀ f, (∀ r, f ≠ .rejected r) → f ≠ .sourceUnending →
      ((Run.ofSpec spec s).outcome = .error f ↔ Run.Raises spec s f)) ∧
    (∀ f, (Run.ofSpec spec s).outcome = .error f → (∀ reason, f ≠ .sourceFailed reason) →
      f ≠ .sourceUnending → (Run.ofSpec spec s).source = s) ∧
    ((Run.ofSpec spec s).outcome = .error .sourceUnending → s.available = ⊤) ∧
    (∀ terms, Spec.parse spec = .ok terms →
      (¬ Run.BoundsWritable terms ↔
        ∃ piece ∈ Spec.fields spec, ∃ shape, Written piece shape ∧ shape.LongSum)) := by
  refine ⟨?_, ?_, ?_, ?_⟩
  · intro f answer unending
    constructor
    · intro h
      rcases Run.outcome_error_cases h with ⟨r, rejected, -⟩ | ⟨endless, -⟩ | raised
      · exact absurd rejected (answer r)
      · exact absurd endless unending
      · exact raised
    · exact Run.Raises.outcome_eq
  · intro f h own unending
    rcases Run.outcome_error_cases h with ⟨r, -, rejected⟩ | ⟨endless, -⟩ | raised
    · rw [Run.ofSpec_of_rejected rejected]
    · exact absurd endless unending
    · obtain ⟨events, run⟩ := raised.ofSpec_eq own
      rw [run]
  · intro h
    rcases Run.outcome_error_cases h with ⟨r, rejected, -⟩ | ⟨-, endless⟩ | raised
    · cases rejected
    · exact endless
    · cases raised
  · intro terms parsed
    rw [← Spec.long_bound_iff_long_sum parsed]
    simp only [not_forall, exists_prop]

/-- A bound too far from the end is met before an endless source is touched. -/
theorem Run.raises_known_faults_far_bound :
    (Run.ofSpec "1+2,-9223372036854775808" (Source.endless (fun n => n))).outcome =
        .error .capacityTooLarge ∧
      (Run.ofSpec "1+2,-9223372036854775808" (Source.endless (fun n => n))).source =
        Source.endless (fun n => n) := by
  have parsed : Spec.parse "1+2,-9223372036854775808" =
      .ok [⟨1, 3, 1, by decide, by decide⟩,
        ⟨-9223372036854775808, -9223372036854775808, 1, by decide, by decide⟩] := by
    decide +kernel
  obtain ⟨faults, untouched, _⟩ := Run.raises_known_faults "1+2,-9223372036854775808"
    (Source.endless (fun n => n))
  have fault := (faults .capacityTooLarge (fun _ => nofun) nofun).mpr
    (.farBound parsed (by decide +kernel) (by decide +kernel))
  exact ⟨fault, untouched _ fault (fun _ => nofun) nofun⟩

end Excerpt
