import Excerpt.Proofs.Language

/-!
# Joined specifications

A comma between two specifications stands between their fields as well: the
blanks on either side of it belong to no field. So the joined text has the terms
of the first and then those of the second. What is wrong with the first is all
that is seen of it, as nothing behind it is read.
-/

namespace Excerpt.Spec

open Text

theorem fields_joined (first second : String) :
    fields (first ++ "," ++ second) = fields first ++ fields second := by
  have text : (first ++ "," ++ second).toList = first.toList ++ ',' :: second.toList := by
    rw [String.toList_append, String.toList_append, List.append_assoc]
    rfl
  simp only [fields, ← splitAtChar_eq_splitOn]
  rw [text, splitAtChar_append, List.map_append]

section

variable {first : String} (visible : ¬ Blanks first.toList)

include visible

theorem not_blanks_joined (second : String) : ¬ Blanks (first ++ "," ++ second).toList := by
  intro blanks
  rw [String.toList_append, String.toList_append, List.append_assoc] at blanks
  exact visible fun c hc => blanks c (List.mem_append_left _ hc)

/-- The fields behind the comma are read only if the text before it is. -/
theorem parse_joined (second : String) :
    parse (first ++ "," ++ second) = do
      let terms ← parse first
      return terms ++ (← (fields second).mapM Term.read) := by
  rw [parse_of_not_blank (not_blanks_joined visible second), fields_joined, List.mapM_append,
    parse_of_not_blank visible]

end

/-- Joining with a comma joins the readings. A fault of the first text is the fault of the joined
one, whatever the second is; else a fault of the second is, and without one the terms of the second
follow those of the first. -/
theorem joined_reads_in_turn (first second : String) (visible : ¬ Blanks first.toList) :
    (∀ f, parse first = .error f → parse (first ++ "," ++ second) = .error f) ∧
    (¬ Blanks second.toList →
      (∀ terms f, parse first = .ok terms → parse second = .error f →
        parse (first ++ "," ++ second) = .error f) ∧
      (∀ terms more, parse first = .ok terms → parse second = .ok more →
        parse (first ++ "," ++ second) = .ok (terms ++ more))) := by
  rw [parse_joined visible]
  refine ⟨?_, ?_⟩
  · intro f fault
    rw [fault]
    rfl
  · intro visible'
    rw [← parse_of_not_blank visible']
    constructor
    · intro terms f read fault
      rw [read, fault]
      rfl
    · intro terms more read read'
      rw [read, read']
      rfl

/-- The second piece is at fault and hides what follows; a text that can be read hides nothing. -/
theorem joined_reads_in_turn_blanks :
    (∀ second, parse ("2, 0 " ++ "," ++ second) = .error (.rejected ⟨.zeroLine, "0"⟩)) ∧
      parse (" 1" ++ "," ++ " , /0") = .error (.rejected ⟨.malformed, ""⟩) ∧
      parse (" 1" ++ "," ++ " -2..-1 ") =
        .ok [⟨1, 1, 1, by decide, by decide⟩, ⟨-1, -2, 1, by decide, by decide⟩] := by
  have zero : ¬ Blanks "2, 0 ".toList := fun blank => absurd (blank '2' (by decide)) (by decide)
  have one : ¬ Blanks " 1".toList := fun blank => absurd (blank '1' (by decide)) (by decide)
  have slash : ¬ Blanks " , /0".toList :=
    fun blank => absurd (blank '/' (by decide)) (by decide)
  have last : ¬ Blanks " -2..-1 ".toList :=
    fun blank => absurd (blank '2' (by decide)) (by decide)
  have read : parse " 1" = .ok [⟨1, 1, 1, by decide, by decide⟩] := by decide +kernel
  refine ⟨?_, ?_, ?_⟩
  · intro second
    exact (joined_reads_in_turn _ second zero).1 _ (by decide +kernel)
  · exact ((joined_reads_in_turn _ _ one).2 slash).1 _ _ read (by decide +kernel)
  · have read' : parse " -2..-1 " = .ok [⟨-1, -2, 1, by decide, by decide⟩] := by decide +kernel
    exact ((joined_reads_in_turn _ _ one).2 last).2 _ _ read read'

end Excerpt.Spec
