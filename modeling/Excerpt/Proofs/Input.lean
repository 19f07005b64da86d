import Excerpt.Proofs.Printing
import Excerpt.Proofs.Translation

/-!
# The input and a file

The input and a file are read in two ways: in the input every terminator arrives
as a line feed, while a file keeps its own; and the specification of a file is
read before the file is, not as the first step of a run over its lines. Without
a log nothing tells which way was taken, if the file holds the translated input.
-/

namespace Excerpt

open Text

theorem inputSource_eq (text : String) :
    inputSource text = textSource .utf8 (translatedBytes text) := by
  rw [inputSource, unifyLineEnds_eq, translatedBytes]

namespace Command

/-- The requests ask for the same presentation, and for no log. -/
structure Alike (r r' : Request) : Prop where
  json : .json ∈ r.switches ↔ .json ∈ r'.switches
  number : .number ∈ r.switches ↔ .number ∈ r'.switches
  quiet : .verbose ∉ r.switches
  quiet' : .verbose ∉ r'.switches

theorem present_congr {r r' : Request} (json : .json ∈ r.switches ↔ .json ∈ r'.switches)
    (number : .number ∈ r.switches ↔ .number ∈ r'.switches) (spec : String) (s : Selection Line) :
    present r spec s = present r' spec s := by
  simp only [present, json, number]

theorem logOf_of_quiet {r : Request} (quiet : .verbose ∉ r.switches) (events : List Event) :
    logOf r events = [] := if_neg quiet

section Alike

variable {r r' : Request} (h : Alike r r')

include h

/-- Without a log nothing is seen of a run but its outcome. -/
theorem Alike.finish_eq (spec : String) {run run' : Run Line} (same : run.outcome = run'.outcome)
    (before before' : List Event) : finish r spec run before = finish r' spec run' before' := by
  simp only [finish, same, logOf_of_quiet h.quiet, logOf_of_quiet h.quiet',
    present_congr h.json h.number]

end Alike

/-- The command does the same for its input as for a file that holds the input with a line feed in
place of every terminator, whether the specification can be read or not: what it writes, how it ends
and which fault gets out are the same. The lines that it reads are those of the text, each with a
line feed in place of its terminator. -/
theorem input_reads_as_translated_file (inputs inputs' : Inputs) (args args' : List String)
    (r r' : Request) (spec path : String) (asks : Asks args r spec) (asks' : Asks args' r' spec)
    (alike : Alike r r') (named : filePath r = none) (named' : filePath r' = some path)
    (found : inputs'.entry path = .file (translatedBytes inputs.input)) :
    run inputs args = run inputs' args' ∧
      (fileLines .utf8 (translatedBytes inputs.input)).map Line.glyphs =
        (cutLines '\n' '\r' inputs.input.toList).map (fun line => (translated line).map .char) := by
  refine ⟨?_, glyphs_fileLines_translatedBytes inputs.input⟩
  have same := Run.outcome_ofEntry_textSource spec .utf8 (translatedBytes inputs.input)
  rw [asks.run_eq, asks'.run_eq, select, named, select, named']
  dsimp only
  rw [found]
  dsimp only [Entry.isFile]
  apply alike.finish_eq
  rw [inputSource_eq]
  exact same.symm

/-- The second and the last line of a text with all three terminators, and a bad specification. -/
theorem input_reads_as_translated_file_mixed :
    let inputs : Inputs := ⟨fun _ => .missing, "a\r\nb\rc\n\rd"⟩
    let inputs' : Inputs := ⟨fun _ => .file (translatedBytes "a\r\nb\rc\n\rd"), ""⟩
    run inputs ["-n", "--", "-1+1,2"] = run inputs' ["--number", "--", "-1+1,2", "./f"] ∧
      (run inputs' ["--number", "--", "-1+1,2", "./f"]).output = "2\tb\n5\td" ∧
      run inputs ["1,0", "-", "--json"] = run inputs' ["--json", "1,0", "f"] ∧
      (run inputs' ["--json", "1,0", "f"]).exit = .ok 1 := by
  intro inputs inputs'
  obtain ⟨same, -⟩ := input_reads_as_translated_file inputs inputs' ["-n", "--", "-1+1,2"]
    ["--number", "--", "-1+1,2", "./f"] _ _ "-1+1,2" "f" ⟨by rfl, by rfl, by decide⟩
    ⟨by rfl, by rfl, by decide⟩ (by constructor <;> decide) (by decide +kernel)
    (by decide +kernel) rfl
  obtain ⟨same', -⟩ := input_reads_as_translated_file inputs inputs' ["1,0", "-", "--json"]
    ["--json", "1,0", "f"] _ _ "1,0" "f" ⟨by rfl, by rfl, by decide⟩
    ⟨by rfl, by rfl, by decide⟩ (by constructor <;> decide) (by decide +kernel)
    (by decide +kernel) rfl
  exact ⟨same, by decide +kernel, same', by decide +kernel⟩

end Command

end Excerpt
