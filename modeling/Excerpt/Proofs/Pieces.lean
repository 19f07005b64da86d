import Mathlib.Data.List.Basic
import Excerpt.Spec
import Excerpt.Proofs.Grammar

/-!
# The pieces of a specification

The pieces are what stands between the commas of the text, each without the
blanks around it: it makes no difference that the blanks around the whole are
taken off first.
-/

namespace Excerpt

open Text

theorem exists_blanks_around (cs : List Char) :
    ∃ ws ws', Blanks ws ∧ Blanks ws' ∧ cs = ws ++ (strip cs ++ ws') := by
  obtain ⟨ws, blanks, front⟩ := exists_blanks cs
  obtain ⟨ws', blanks', back⟩ := exists_blanks (skipBlank cs).reverse
  refine ⟨ws, ws'.reverse, blanks, fun c hc => blanks' c (List.mem_reverse.mp hc), ?_⟩
  have kept : strip cs ++ ws'.reverse = skipBlank cs := by
    rw [strip, ← List.reverse_append, ← back, List.reverse_reverse]
  rw [kept]
  exact front

theorem strip_append_left {ws : List Char} (h : Blanks ws) (cs : List Char) :
    strip (ws ++ cs) = strip cs := by
  have skipped : skipBlank (ws ++ cs) = skipBlank cs := List.dropWhile_append_of_pos h
  rw [strip, skipped, strip]

theorem strip_append_right {ws : List Char} (h : Blanks ws) (cs : List Char) :
    strip (cs ++ ws) = strip cs := by
  by_cases empty : skipBlank cs = []
  · have blank : Blanks cs := (skipBlank_eq_nil_iff cs).mp empty
    have all : Blanks (cs ++ ws) := fun c hc => (List.mem_append.mp hc).elim (blank c) (h c)
    rw [(strip_eq_nil_iff cs).mpr blank, (strip_eq_nil_iff (cs ++ ws)).mpr all]
  · have front : skipBlank (cs ++ ws) = skipBlank cs ++ ws := by
      unfold skipBlank at empty ⊢
      rw [List.dropWhile_append, List.isEmpty_eq_false_iff.mpr empty]
      rfl
    have behind : Blanks ws.reverse := fun c hc => h c (List.mem_reverse.mp hc)
    have back : ∀ rest, skipBlank (ws.reverse ++ rest) = skipBlank rest :=
      fun rest => List.dropWhile_append_of_pos behind
    rw [strip, front, List.reverse_append, back, strip]

theorem infix_of_strip (cs : List Char) : strip cs <:+: cs := by
  obtain ⟨ws, ws', -, -, text⟩ := exists_blanks_around cs
  refine ⟨ws, ws', ?_⟩
  rw [List.append_assoc]
  exact text.symm

theorem splitAtChar_eq_splitOn (sep : Char) (cs : List Char) :
    splitAtChar sep cs = cs.splitOn sep := by
  induction cs with
  | nil => rfl
  | cons c rest ih =>
    rw [List.splitOn, List.splitOnP_cons_eq_if_modifyHead]
    change _ = if c == sep then [] :: rest.splitOn sep else (rest.splitOn sep).modifyHead (c :: ·)
    rw [← ih, splitAtChar]
    by_cases here : c = sep
    · rw [if_pos here, if_pos (beq_iff_eq.mpr here)]
    · rw [if_neg here, if_neg (fun same => here (beq_iff_eq.mp same))]
      cases more : splitAtChar sep rest with
      | nil => exact absurd more (splitAtChar_ne_nil sep rest)
      | cons piece pieces => rfl

theorem splitAtChar_of_not_mem {sep : Char} {cs : List Char} (h : sep ∉ cs) :
    splitAtChar sep cs = [cs] := by
  induction cs with
  | nil => rfl
  | cons c rest ih =>
    have other : c ≠ sep := fun same => h (same ▸ List.mem_cons_self)
    rw [splitAtChar, if_neg other, ih (fun mem => h (List.mem_cons_of_mem c mem))]

theorem splitAtChar_append_cons {sep : Char} {first : List Char} (h : sep ∉ first)
    (rest : List Char) :
    splitAtChar sep (first ++ sep :: rest) = first :: splitAtChar sep rest := by
  rw [splitAtChar_append, splitAtChar_of_not_mem h, List.singleton_append]

theorem comma_not_mem {ws : List Char} (h : Blanks ws) : ',' ∉ ws := by
  intro mem
  exact absurd (h ',' mem) (by decide)

theorem map_strip_append_left {ws : List Char} (h : Blanks ws) (cs : List Char) :
    (splitAtChar ',' (ws ++ cs)).map strip = (splitAtChar ',' cs).map strip := by
  by_cases comma : ',' ∈ cs
  · obtain ⟨first, rest, rfl, absent⟩ := List.eq_append_cons_of_mem comma
    have absent' : ',' ∉ ws ++ first := List.not_mem_append (comma_not_mem h) absent
    rw [← List.append_assoc, splitAtChar_append_cons absent', splitAtChar_append_cons absent,
      List.map_cons, strip_append_left h, List.map_cons]
  · have absent : ',' ∉ ws ++ cs := List.not_mem_append (comma_not_mem h) comma
    rw [splitAtChar_of_not_mem absent, splitAtChar_of_not_mem comma, List.map_singleton,
      strip_append_left h, List.map_singleton]

/-- Only the last piece meets the blanks behind a text. -/
theorem map_strip_append_right {ws : List Char} (h : Blanks ws) (cs : List Char) :
    (splitAtChar ',' (cs ++ ws)).map strip = (splitAtChar ',' cs).map strip := by
  by_cases comma : ',' ∈ cs
  · obtain ⟨first, rest, same, absent⟩ := List.eq_append_cons_of_mem comma
    have shorter : rest.length < cs.length := by
      rw [same, List.length_append, List.length_cons]
      omega
    have later := map_strip_append_right h rest
    rw [same, List.append_assoc, List.cons_append, splitAtChar_append_cons absent,
      splitAtChar_append_cons absent, List.map_cons, List.map_cons, later]
  · have absent : ',' ∉ cs ++ ws := List.not_mem_append comma (comma_not_mem h)
    rw [splitAtChar_of_not_mem absent, splitAtChar_of_not_mem comma, List.map_singleton,
      strip_append_right h, List.map_singleton]
termination_by cs.length

/-- It makes no difference whether the blanks around the whole are taken off first. -/
theorem Spec.pieces_eq (cs : List Char) : pieces cs = (cs.splitOn ',').map strip := by
  obtain ⟨ws, ws', blanks, blanks', text⟩ := exists_blanks_around cs
  have around : (splitAtChar ',' cs).map strip = (splitAtChar ',' (strip cs)).map strip := by
    conv_lhs => rw [text]
    rw [map_strip_append_left blanks, map_strip_append_right blanks']
  rw [pieces, ← around, splitAtChar_eq_splitOn]

theorem infix_of_mem_intercalate (sep : List Char) {p : List Char} {ps : List (List Char)}
    (h : p ∈ ps) : p <:+: sep.intercalate ps := by
  induction ps with
  | nil => cases h
  | cons q qs ih =>
    cases qs with
    | nil =>
      obtain rfl := List.mem_singleton.mp h
      have alone : sep.intercalate [p] = p := List.intercalate_singleton
      exact alone.symm ▸ List.infix_rfl
    | cons r rs =>
      rw [List.intercalate_cons_cons, List.append_assoc]
      rcases List.mem_cons.mp h with rfl | later
      · exact (List.prefix_append p _).isInfix
      · rw [← List.append_assoc]
        exact (ih later).trans (List.suffix_append _ _).isInfix

theorem Spec.infix_of_mem_pieces {cs piece : List Char} (h : piece ∈ pieces cs) :
    piece <:+: cs := by
  rw [pieces_eq] at h
  obtain ⟨p, mem, rfl⟩ := List.mem_map.mp h
  have whole := infix_of_mem_intercalate [','] mem
  rw [List.intercalate_splitOn] at whole
  exact (infix_of_strip p).trans whole

end Excerpt
