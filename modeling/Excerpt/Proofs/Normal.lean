import Mathlib.Data.Sym.Sym2
import Excerpt.Proofs.Faults
import Excerpt.Proofs.RoundTrip

/-!
# The normal form of a term

Two line numbers other than zero and a step make one term, in whichever order
the numbers are given; the term is checked when it is made, and of the two
orders the check lets one pass. So a range can be written with its bounds
exchanged, and is read as the same term.
-/

namespace Excerpt

open Text

namespace Term

/-- The check passes exactly the fields of a term, and changes none. -/
theorem make_eq_ok_iff (anchor limit step : Int) (t : Term) :
    make anchor limit step = .ok t ↔
      t.anchor = anchor ∧ t.limit = limit ∧ (t.step : Int) = step := by
  constructor
  · intro made
    unfold make at made
    split at made
    · exact absurd made (raise_ne_ok _ t)
    split at made
    · exact absurd made (raise_ne_ok _ t)
    split at made
    · exact absurd made (raise_ne_ok _ t)
    split at made
    · exact absurd made (raise_ne_ok _ t)
    split at made
    · exact absurd made (raise_ne_ok _ t)
    · cases made
      exact ⟨rfl, rfl, Int.toNat_of_nonneg (by omega)⟩
  · rintro ⟨rfl, rfl, rfl⟩
    exact make_normal _ _ _ t.normal (Int.ofNat_le.mpr t.step_pos)

theorem ofBounds_eq_ok_iff (first second step : Int) (t : Term) :
    ofBounds first second step = .ok t ↔
      (t.anchor, t.limit) = Shape.ordered first second ∧ (t.step : Int) = step := by
  rw [Shape.ofBounds_eq_make, make_eq_ok_iff, Prod.ext_iff, and_assoc]

theorem exists_ofBounds_iff (first second step : Int) :
    (∃ t, ofBounds first second step = .ok t) ↔ first ≠ 0 ∧ second ≠ 0 ∧ 1 ≤ step := by
  simp only [ofBounds_eq_ok_iff]
  constructor
  · rintro ⟨t, bounds, rfl⟩
    obtain ⟨hf, hs⟩ := Shape.ne_zero_of_ordered bounds
    exact ⟨hf, hs, Int.ofNat_le.mpr t.step_pos⟩
  · rintro ⟨hf, hs, pos⟩
    have normal := Shape.normal_ordered hf hs
    exact ⟨⟨_, _, step.toNat, normal, by omega⟩, rfl, Int.toNat_of_nonneg (by omega)⟩

end Term

theorem Shape.pair_of_ordered {a b first second : Int} (h : (a, b) = ordered first second) :
    s(a, b) = s(first, second) :=
  Sym2.eq_iff.mpr (eq_or_swap_of_ordered h)

namespace Term

/-- The two bounds of a term and its step tell which term it is. -/
theorem eq_iff_of_ofBounds {a b step a' b' step' : Int} {t t' : Term}
    (made : ofBounds a b step = .ok t) (made' : ofBounds a' b' step' = .ok t') :
    t = t' ↔ step = step' ∧ s(a, b) = s(a', b') := by
  constructor
  · rintro rfl
    obtain ⟨bounds, steps⟩ := (ofBounds_eq_ok_iff _ _ _ _).mp made
    obtain ⟨bounds', steps'⟩ := (ofBounds_eq_ok_iff _ _ _ _).mp made'
    refine ⟨steps.symm.trans steps', ?_⟩
    rw [← Shape.pair_of_ordered bounds, Shape.pair_of_ordered bounds']
  · rintro ⟨rfl, pairs⟩
    rcases Sym2.eq_iff.mp pairs with ⟨rfl, rfl⟩ | ⟨rfl, rfl⟩
    · exact Except.ok.inj (made.symm.trans made')
    · rw [ofBounds_comm] at made'
      exact Except.ok.inj (made.symm.trans made')

/-- The check passes the bounds of a term in the order that it keeps, and in no other. -/
theorem make_eq_ok_iff_ofBounds (anchor limit step : Int) (t : Term) :
    make anchor limit step = .ok t ↔
      ofBounds anchor limit step = .ok t ∧
        (t.anchor, t.limit, (t.step : Int)) = (anchor, limit, step) := by
  rw [make_eq_ok_iff, Prod.mk.injEq, Prod.mk.injEq]
  constructor
  · rintro ⟨rfl, rfl, rfl⟩
    exact ⟨(ofBounds_eq_ok_iff _ _ _ _).mpr ⟨t.ordered_bounds, rfl⟩, rfl, rfl, rfl⟩
  · rintro ⟨-, fields⟩
    exact fields

end Term

namespace Shape

/-- Two bounds with a separator, and perhaps a step. -/
abbrev range (first second : Bound) (sep : Separator) (step : Option (List Char)) : Shape :=
  ⟨some (first, some (sep, second)), step⟩

section Range

variable {first second : Bound} {sep : Separator} {step : Option (List Char)} (apart : sep ≠ .plus)

include apart

theorem numbers_range : (range first second sep step).numbers = (first.number, second.number) := by
  cases sep with
  | dots => rfl
  | dash => rfl
  | plus => exact absurd rfl apart

theorem offset_range : (range first second sep step).offset? = none := by
  cases sep with
  | dots => rfl
  | dash => rfl
  | plus => exact absurd rfl apart

end Range

end Shape

namespace Spec

/-- The text writes one range with dots or a dash between its bounds, which name these lines in this
order; none of its numbers is too long to be read. -/
inductive Writes (text : String) : Int → Int → Nat → Prop
  | mk {piece : List Char} {first second : Bound} {sep : Separator} {step : Option (List Char)} :
      fields text = [piece] → sep ≠ .plus → Shape.Derives piece (.range first second sep step) →
      (Shape.range first second sep step).Short →
      Writes text first.number second.number (Shape.range first second sep step).stepNumber

theorem Writes.parse_eq {text : String} {first second : Int} {step : Nat}
    (h : Writes text first second step) (hf : first ≠ 0) (hs : second ≠ 0) (pos : step ≠ 0) :
    parse text = (Term.ofBounds first second step).map (fun t => [t]) := by
  cases h with
  | @mk piece b b' sep digits single apart derives short =>
    have written : Written piece (.range b b' sep digits) := ⟨derives, .inl rfl⟩
    have visible : ¬ Blanks text.toList := fun blank =>
      not_written_of_blank blank (single ▸ List.mem_singleton_self piece) _ written
    have value : Term.read piece =
        Term.ofBounds b.number b'.number (Shape.range b b' sep digits).stepNumber := by
      rw [written.read_eq, short.toTerm_of_offset_nonneg pos (by simp [Shape.offset_range apart]),
        Shape.numbers_range apart, if_neg (not_or.mpr ⟨hf, hs⟩)]
    rw [parse_of_not_blank visible, single, List.mapM_cons, value]
    cases Term.ofBounds b.number b'.number (Shape.range b b' sep digits).stepNumber <;> rfl

end Spec

/-- Two numbers and a step make a term if none of them is out of place. The order of the numbers
does not matter to the term, and nothing else of them is lost in it; the check passes the fields of
a term as they are and nothing else. So a range that is written with its bounds exchanged is read as
the same term, and every run with it is the same. -/
theorem Term.told_by_unordered_bounds (a b s : Int) :
    ((∃ t, ofBounds a b s = .ok t) ↔ a ≠ 0 ∧ b ≠ 0 ∧ 1 ≤ s) ∧
    ofBounds a b s = ofBounds b a s ∧
    (∀ t, ofBounds a b s = .ok t → s(t.anchor, t.limit) = s(a, b) ∧ (t.step : Int) = s) ∧
    (∀ a' b' s' t t', ofBounds a b s = .ok t → ofBounds a' b' s' = .ok t' →
      (t = t' ↔ s = s' ∧ s(a, b) = s(a', b'))) ∧
    (∀ t, make a b s = .ok t ↔
      ofBounds a b s = .ok t ∧ (t.anchor, t.limit, (t.step : Int)) = (a, b, s)) ∧
    (a ≠ 0 → b ≠ 0 → 1 ≤ s → ∀ text text', Spec.Writes text a b s.toNat →
      Spec.Writes text' b a s.toNat →
      ∃ t, ofBounds a b s = .ok t ∧ Spec.parse text = .ok [t] ∧ Spec.parse text' = .ok [t] ∧
        ∀ {α : Type} (source : Source α), Run.ofSpec text source = Run.ofSpec text' source) := by
  refine ⟨exists_ofBounds_iff a b s, ofBounds_comm a b s, ?_, ?_, make_eq_ok_iff_ofBounds a b s, ?_⟩
  · intro t made
    obtain ⟨bounds, step⟩ := (ofBounds_eq_ok_iff a b s t).mp made
    exact ⟨Shape.pair_of_ordered bounds, step⟩
  · intro a' b' s' t t' made made'
    exact eq_iff_of_ofBounds made made'
  · intro ha hb pos text text' writes writes'
    obtain ⟨t, made⟩ := (exists_ofBounds_iff a b s).mpr ⟨ha, hb, pos⟩
    have nat : (s.toNat : Int) = s := Int.toNat_of_nonneg (by omega)
    have read := writes.parse_eq ha hb (by omega)
    have read' := writes'.parse_eq hb ha (by omega)
    rw [nat, made] at read
    rw [ofBounds_comm, nat, made] at read'
    refine ⟨t, made, read, read', ?_⟩
    intro α source
    rw [Run.ofSpec_of_ok read, Run.ofSpec_of_ok read']

/-- A minus sign, a dash and a leading zero; then dots, and the bounds exchanged. -/
theorem Term.told_by_unordered_bounds_mixed :
    Spec.Writes " -5 - 03 / 2" (-5) 3 2 ∧ Spec.Writes "+3..-5/2" 3 (-5) 2 ∧
      ofBounds (-5) 3 2 = .ok ⟨3, -5, 2, by decide, by decide⟩ ∧
      Spec.parse " -5 - 03 / 2" = .ok [⟨3, -5, 2, by decide, by decide⟩] ∧
      ∀ source : Source Nat, Run.ofSpec " -5 - 03 / 2" source = Run.ofSpec "+3..-5/2" source := by
  let five : Bound := ⟨some .minus, ['5']⟩
  have single : Spec.fields " -5 - 03 / 2" = ["-5 - 03 / 2".toList] := by decide
  have derives : Shape.Derives "-5 - 03 / 2".toList (.range five ⟨none, ['0', '3']⟩ .dash ['2']) :=
    Shape.derives_of_read (by decide)
  have descends : Spec.Writes " -5 - 03 / 2" (-5) 3 2 :=
    .mk single (by decide) derives (by constructor <;> decide)
  have single' : Spec.fields "+3..-5/2" = ["+3..-5/2".toList] := by decide
  have derives' : Shape.Derives "+3..-5/2".toList (.range ⟨some .plus, ['3']⟩ five .dots ['2']) :=
    Shape.derives_of_read (by decide)
  have ascends : Spec.Writes "+3..-5/2" 3 (-5) 2 :=
    .mk single' (by decide) derives' (by constructor <;> decide)
  obtain ⟨-, -, -, -, -, texts⟩ := told_by_unordered_bounds (-5) 3 2
  obtain ⟨t, made, read, -, runs⟩ := texts (by decide) (by decide) (by decide) _ _ descends ascends
  cases made
  exact ⟨descends, ascends, rfl, read, fun source => runs source⟩

end Excerpt
