import Excerpt.Proofs.Writing

/-!
# Terms are read back from their text

The text of a term leaves out a second bound that repeats the first and a step
of one; the reader puts both back. So the texts of terms, joined by commas, are
read as these terms, and two terms with one text are one term.
-/

namespace Excerpt

open Text

namespace Term

/-- Bounds in their normal order are left in it. -/
theorem ordered_bounds (t : Term) : (t.anchor, t.limit) = Shape.ordered t.anchor t.limit := by
  have normal := t.normal
  unfold Normal at normal
  unfold Shape.ordered
  split
  · rw [Int.min_eq_left (by omega), Int.max_eq_right (by omega)]
  · rw [Int.max_eq_left (by omega), Int.min_eq_right (by omega)]

/-- The second number that the text of a term shows. -/
def shownLimit (t : Term) : Option Int := if t.anchor = t.limit then none else some t.limit

/-- The step that the text of a term shows. -/
def shownStep (t : Term) : Option Nat := if t.step = 1 then none else some t.step

/-- The shape in which a term is written. -/
def shape (t : Term) : Shape := .ofNumbers t.anchor t.shownLimit t.shownStep

theorem render_eq (t : Term) : t.render = Shape.numbersText t.anchor t.shownLimit t.shownStep := by
  unfold render Shape.numbersText shownLimit shownStep
  by_cases single : t.anchor = t.limit
  · by_cases one : t.step = 1
    · simp [single, one]
    · simp [single, one, String.append_assoc]
  · by_cases one : t.step = 1
    · simp [single, one, String.append_assoc]
    · simp [single, one, String.append_assoc]

theorem toList_render (t : Term) : t.render.toList = t.shape.text := by
  rw [render_eq, shape, Shape.text_ofNumbers]

theorem plain_render (t : Term) : Plain t.render.toList := by
  rw [toList_render]
  exact Shape.proper_ofNumbers.plain

theorem means_shape (t : Term) : t.shape.Means t := by
  apply Shape.means_ofNumbers
  · have shown : t.shownLimit.getD t.anchor = t.limit := by
      unfold shownLimit
      split
      · assumption
      · rfl
    rw [shown]
    exact t.ordered_bounds
  · unfold shownStep
    split
    · assumption
    · rfl

theorem Writable.short_shape {t : Term} (h : t.Writable) : t.shape.Short := by
  apply Shape.short_ofNumbers h.1
  · intro n mem
    obtain rfl := Option.some.inj (Option.ite_none_left_eq_some.mp mem).2
    exact h.2.1
  · intro n mem
    obtain rfl := Option.some.inj (Option.ite_none_left_eq_some.mp mem).2
    exact h.2.2

theorem Writable.read_render {t : Term} (h : t.Writable) : Term.read t.render.toList = .ok t := by
  rw [toList_render]
  exact Shape.proper_ofNumbers.read_text h.short_shape t.means_shape

theorem Writable.text_eq {t : Term} (h : t.Writable) : t.text = .ok t.render := if_pos h

theorem mapM_text_eq {terms : List Term} (h : ∀ t ∈ terms, t.Writable) :
    terms.mapM text = .ok (terms.map render) := by
  apply mapM_eq_ok_map
  intro t ht
  exact (h t ht).text_eq

theorem Writable.text_injective {t u : Term} (ht : t.Writable) (hu : u.Writable)
    (same : t.text = u.text) : t = u := by
  rw [ht.text_eq, hu.text_eq] at same
  have back := ht.read_render
  rw [Except.ok.inj same, hu.read_render] at back
  exact (Except.ok.inj back).symm

end Term

namespace Spec

theorem parse_render {terms : List Term} (nonempty : terms ≠ [])
    (writable : ∀ t ∈ terms, t.Writable) :
    parse (",".intercalate (terms.map Term.render)) = .ok terms := by
  apply parse_join (by simpa using nonempty)
  · intro written mem
    obtain ⟨t, -, rfl⟩ := List.mem_map.mp mem
    exact t.plain_render
  · exact List.forall₂_map_left_iff.mpr
      (List.forall₂_same.mpr fun t ht => (writable t ht).read_render)

/-- Terms whose numbers are short enough are read back from their joined texts; their texts tell
them apart, and a specification may be replaced by the texts of its terms. -/
theorem text_reads_back :
    (∀ terms : List Term, terms ≠ [] → (∀ t ∈ terms, t.Writable) →
      ∃ texts, terms.mapM Term.text = .ok texts ∧ parse (",".intercalate texts) = .ok terms) ∧
    (∀ t u : Term, t.Writable → u.Writable → t.text = u.text → t = u) ∧
    (∀ spec terms, parse spec = .ok terms → (∀ t ∈ terms, t.Writable) →
      ∃ texts, terms.mapM Term.text = .ok texts ∧ parse (",".intercalate texts) = .ok terms) := by
  refine ⟨?_, ?_, ?_⟩
  · intro terms nonempty writable
    exact ⟨_, Term.mapM_text_eq writable, parse_render nonempty writable⟩
  · intro t u ht hu same
    exact ht.text_injective hu same
  · intro spec terms parsed writable
    exact ⟨_, Term.mapM_text_eq writable, parse_render (ne_nil_of_parse parsed) writable⟩

/-- A repeated bound and a mixed term with a step, and a looser spelling of the two. -/
theorem text_reads_back_mixed :
    parse "-3,2..-1/4" = .ok [⟨-3, -3, 1, by decide, by decide⟩, ⟨2, -1, 4, by decide, by decide⟩] ∧
    Term.text ⟨2, -1, 4, by decide, by decide⟩ ≠ Term.text ⟨2, -1, 1, by decide, by decide⟩ ∧
    ∃ texts, List.mapM Term.text
        [⟨-3, -3, 1, by decide, by decide⟩, ⟨2, -1, 4, by decide, by decide⟩] = .ok texts ∧
      parse (",".intercalate texts) = parse " -3 - -3/1 , -1..+2 / 04" := by
  have writable : ∀ t ∈ ([⟨-3, -3, 1, by decide, by decide⟩, ⟨2, -1, 4, by decide, by decide⟩] :
      List Term), t.Writable := by decide +kernel
  have short : Term.Writable ⟨2, -1, 1, by decide, by decide⟩ := by decide +kernel
  have parsed : parse " -3 - -3/1 , -1..+2 / 04" =
      .ok [⟨-3, -3, 1, by decide, by decide⟩, ⟨2, -1, 4, by decide, by decide⟩] := by
    decide +kernel
  obtain ⟨reads, tells, again⟩ := text_reads_back
  refine ⟨?_, ?_, ?_⟩
  · obtain ⟨texts, written, read⟩ := reads _ (List.cons_ne_nil _ _) writable
    have known : List.mapM Term.text
        [⟨-3, -3, 1, by decide, by decide⟩, ⟨2, -1, 4, by decide, by decide⟩] =
          .ok ["-3", "2..-1/4"] := by decide +kernel
    obtain rfl := Except.ok.inj (written.symm.trans known)
    exact read
  · intro same
    exact absurd (tells _ _ (writable _ (by decide)) short same) (by decide)
  · obtain ⟨texts, written, read⟩ := again _ _ parsed writable
    exact ⟨texts, written, read.trans parsed.symm⟩

end Spec

end Excerpt
