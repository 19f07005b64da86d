import Excerpt.Proofs.Json.RoundTrip
import Excerpt.Proofs.Printing

/-!
# The selection as a document

With the JSON switch the command writes one document for the whole selection, or
nothing at all if some line is no text. The document holds the selection as it
is, so reading it gives the selection back.
-/

namespace Excerpt.Command

open Text

variable {lines : List (Int × Line)}

theorem textLines_of_plain (plain : ∀ p ∈ lines, ¬ p.2.Stray) :
    textLines lines = some (lines.map (fun p => (p.1, p.2.text))) := by
  unfold textLines
  induction lines with
  | nil => rfl
  | cons p rest ih =>
    obtain ⟨here, behind⟩ := List.forall_mem_cons.mp plain
    simp [Line.chars?_of_not_stray here, ih behind]

theorem textLines_of_stray (stray : ∃ p ∈ lines, p.2.Stray) : textLines lines = none := by
  unfold textLines
  induction lines with
  | nil => simp at stray
  | cons p rest ih =>
    rw [List.mapM_cons]
    by_cases here : p.2.Stray
    · rw [Line.chars?_of_stray here]
      rfl
    · have behind : ∃ q ∈ rest, q.2.Stray := by simpa [here] using stray
      simp [Line.chars?_of_not_stray here, ih behind]

/-- A selection of text lines as a document. -/
def selectionDocument (spec : String) (sel : Selection Line) : Json :=
  .object [
    ("spec".toList, .string spec.toList),
    ("total_lines".toList, .number sel.total),
    ("stopped_at_ceiling".toList, .bool sel.stopped),
    ("lines".toList, .array (sel.numbered.map (fun p => .object [
      ("line".toList, .number p.1), ("text".toList, .string p.2.text)])))]

theorem present_of_plain {r : Request} (json : .json ∈ r.switches) (spec : String)
    {sel : Selection Line} (plain : ∀ p ∈ sel.numbered, ¬ p.2.Stray) :
    present r spec sel =
      (String.ofList ((selectionDocument spec sel).write 0 ++ ['\n']), none) := by
  have same : document spec sel (sel.numbered.map (fun p => (p.1, p.2.text))) =
      selectionDocument spec sel := by
    rw [document, List.map_map]
    rfl
  rw [present, if_pos json, textLines_of_plain plain, ← same]

theorem present_of_stray {r : Request} (json : .json ∈ r.switches) (spec : String)
    {sel : Selection Line} (stray : ∃ p ∈ sel.numbered, p.2.Stray) :
    present r spec sel = ("", some .textUnencodable) := by
  rw [present, if_pos json, textLines_of_stray stray]

/-- What the command writes as JSON, for a file or for its input. If all selected lines are text,
it is a document and a line feed, and reading the document gives the specification and the
selection back; if not, nothing is written. -/
theorem writes_selection_as_json (inputs : Inputs) (args : List String) (r : Request)
    (spec : String) (sel : Selection Line) (asks : Asks args r spec)
    (selected : Selects inputs r spec sel) (json : .json ∈ r.switches) :
    ((∀ p ∈ sel.numbered, ¬ p.2.Stray) →
      (run inputs args).exit = .ok 0 ∧
      Json.read (run inputs args).output.toList = some (selectionDocument spec sel) ∧
      ∃ text, (run inputs args).output.toList = text ++ ['\n'] ∧
        Json.read text = some (selectionDocument spec sel)) ∧
    ((∃ p ∈ sel.numbered, p.2.Stray) →
      (run inputs args).exit = .error .textUnencodable ∧ (run inputs args).output = "") := by
  obtain ⟨exit, output⟩ := run_of_selects asks selected
  constructor
  · intro plain
    rw [present_of_plain json spec plain] at exit output
    have written : (run inputs args).output.toList =
        (selectionDocument spec sel).write 0 ++ ['\n'] := by
      rw [output, String.toList_ofList]
    have text : Json.read ((selectionDocument spec sel).write 0 ++ []) = _ :=
      Json.read_write 0 _ rfl
    rw [List.append_nil] at text
    exact ⟨exit, written ▸ Json.read_write 0 _ rfl, _, written, text⟩
  · intro stray
    rw [present_of_stray json spec stray] at exit output
    exact ⟨exit, output⟩

/-- Two lines of the input are shown; the line of the file is no text. -/
theorem writes_selection_as_json_or_nothing :
    let inputs : Inputs := ⟨fun _ => .file ⟨#[97, 255]⟩, "a\"\r\n\x01\tb\nc"⟩
    (∃ text, (run inputs ["--json", "1..2"]).output.toList = text ++ ['\n'] ∧
      Json.read text = some (.object [
        ("spec".toList, .string "1..2".toList), ("total_lines".toList, .number 2),
        ("stopped_at_ceiling".toList, .bool true),
        ("lines".toList, .array [
          .object [("line".toList, .number 1), ("text".toList, .string ['a', '\x22', '\n'])],
          .object [("line".toList, .number 2),
            ("text".toList, .string ['\x01', '\t', 'b', '\n'])]])])) ∧
      (run inputs ["-n", "--json", "-1", "f"]).output = "" := by
  intro inputs
  have first : (⟨.utf8, ⟨#[97, 34, 10]⟩⟩ : Line).text = ['a', '\x22', '\n'] := by decide +kernel
  have second : (⟨.utf8, ⟨#[1, 9, 98, 10]⟩⟩ : Line).text = ['\x01', '\t', 'b', '\n'] := by
    decide +kernel
  have named : filePath ⟨[.number, .json], some "-1", some "f"⟩ = some "f" := by decide +kernel
  obtain ⟨plain, -⟩ := writes_selection_as_json inputs ["--json", "1..2"] _ "1..2"
    ⟨[(1, ⟨.utf8, ⟨#[97, 34, 10]⟩⟩), (2, ⟨.utf8, ⟨#[1, 9, 98, 10]⟩⟩)], 2, true⟩
    ⟨by rfl, by rfl, by decide⟩ (.input rfl (by decide +kernel)) (by decide)
  obtain ⟨-, stray⟩ := writes_selection_as_json inputs ["-n", "--json", "-1", "f"]
    ⟨[.number, .json], some "-1", some "f"⟩ "-1" ⟨[(1, ⟨.utf8, ⟨#[97, 255]⟩⟩)], 1, false⟩
    ⟨by rfl, by rfl, by decide⟩ (.file named rfl (by decide +kernel)) (by decide)
  obtain ⟨-, -, text, output, read⟩ := plain (by decide +kernel)
  refine ⟨⟨text, output, ?_⟩, (stray (by decide +kernel)).2⟩
  simpa only [selectionDocument, List.map_cons, List.map_nil, first, second] using read

end Excerpt.Command
