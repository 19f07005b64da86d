import Excerpt.Command
import Excerpt.Proofs.File
import Excerpt.Proofs.Writing

/-!
# What the command prints

A successful run writes its lines one after the other until it meets one that is
no text. Numbers in front of the lines do not get lost in them: a line without a
terminator is the last one of the file, so every other piece of the output ends
where its line did, and the first tab of a piece ends its number.
-/

namespace Excerpt

open Text

namespace Text.Line

variable {line : Line}

/-- A byte of the line is part of no character. -/
def Stray (line : Line) : Prop := ∃ b, .stray b ∈ line.glyphs

/-- The characters of the line. -/
def text (line : Line) : List Char := line.glyphs.filterMap Glyph.char?

theorem map_char_text (plain : ¬ line.Stray) : line.text.map .char = line.glyphs := by
  have characters (gs : List Glyph) (h : ∀ b, .stray b ∉ gs) :
      (gs.filterMap Glyph.char?).map .char = gs := by
    induction gs with
    | nil => rfl
    | cons g gs ih =>
      cases g with
      | stray b => exact absurd List.mem_cons_self (h b)
      | char c => simpa [Glyph.char?] using ih (fun b mem => h b (List.mem_cons_of_mem _ mem))
  exact characters line.glyphs (not_exists.mp plain)

theorem chars?_of_not_stray (plain : ¬ line.Stray) : line.chars? = some line.text :=
  (chars?_eq_some_iff _ _).mpr (map_char_text plain).symm

theorem chars?_of_stray (stray : line.Stray) : line.chars? = none := by
  obtain ⟨b, mem⟩ := stray
  rw [chars?, Option.eq_none_iff_forall_ne_some]
  intro cs found
  rw [(chars?_eq_some_iff _ _).mp found] at mem
  simp at mem

instance (line : Line) : Decidable line.Stray :=
  decidable_of_iff (line.chars? = none) (by
    constructor
    · intro none_found
      by_contra plain
      rw [chars?_of_not_stray plain] at none_found
      cases none_found
    · exact chars?_of_stray)

end Text.Line

namespace Command

/-- The arguments ask for the lines that a specification selects. -/
structure Asks (args : List String) (r : Request) (spec : String) : Prop where
  read : Arguments.read args = .ok r
  given : r.spec = some spec
  working : .examples ∉ r.switches

/-- What the command selects from the file or the input that it is asked to read. -/
inductive Selects (inputs : Inputs) (r : Request) (spec : String) : Selection Line → Prop
  | file {path : String} {bytes : ByteArray} {sel : Selection Line} :
      filePath r = some path → inputs.entry path = .file bytes →
      (Run.ofEntry spec "utf-8" (.file bytes)).outcome = .ok sel → Selects inputs r spec sel
  | input {sel : Selection Line} :
      filePath r = none → (Run.ofSpec spec (inputSource inputs.input)).outcome = .ok sel →
      Selects inputs r spec sel

theorem finish_of_ok {run : Run Line} {sel : Selection Line} (h : run.outcome = .ok sel)
    (r : Request) (spec : String) (before : List Event) :
    (finish r spec run before).exit = (present r spec sel).2.elim (.ok 0) .error ∧
      (finish r spec run before).output = (present r spec sel).1 := by
  rw [finish, h]
  exact ⟨rfl, rfl⟩

theorem Asks.run_eq {args : List String} {r : Request} {spec : String} (h : Asks args r spec)
    (inputs : Inputs) : run inputs args = select inputs r spec := by
  rw [run, h.read]
  dsimp only
  rw [if_neg h.working, h.given]

/-- The outcome of the command is told by how the selection is presented. -/
theorem run_of_selects {inputs : Inputs} {args : List String} {r : Request} {spec : String}
    {sel : Selection Line} (asks : Asks args r spec) (h : Selects inputs r spec sel) :
    (run inputs args).exit = (present r spec sel).2.elim (.ok 0) .error ∧
      (run inputs args).output = (present r spec sel).1 := by
  rw [asks.run_eq]
  cases h with
  | file named found selected =>
    rw [select, named]
    dsimp only
    rw [found]
    exact finish_of_ok selected r spec _
  | input named selected =>
    rw [select, named]
    exact finish_of_ok selected r spec _

/-- What stands before a line. -/
def label (number : Bool) (n : Int) : List Char :=
  if number then (toString n).toList ++ ['\t'] else []

/-- A numbered line as it is printed. -/
def printed (number : Bool) (e : Int × Line) : List Char := label number e.1 ++ e.2.text

section Lines

variable {number : Bool} {lines before : List (Int × Line)}

theorem writeLines_cons (number : Bool) (written : String) (n : Int) (line : Line)
    (rest : List (Int × Line)) :
    writeLines number written ((n, line) :: rest) =
      match line.chars? with
      | none => (written ++ String.ofList (label number n), some .lineUnprintable)
      | some cs => writeLines number (written ++ String.ofList (label number n ++ cs)) rest := by
  have labelled : (if number then written ++ toString n ++ "\t" else written) =
      written ++ String.ofList (label number n) := by
    cases number with
    | true => simp [label, String.ofList_append, String.append_assoc]
    | false => simp [label]
  rw [writeLines, labelled]
  cases line.chars? with
  | none => rfl
  | some cs => simp only [String.append_assoc, String.ofList_append]

theorem writeLines_append (plain : ∀ e ∈ before, ¬ e.2.Stray) (written : String) :
    writeLines number written (before ++ lines) =
      writeLines number (written ++ String.ofList (before.flatMap (printed number))) lines := by
  induction before generalizing written with
  | nil => simp
  | cons e before ih =>
    obtain ⟨here, behind⟩ := List.forall_mem_cons.mp plain
    rw [List.cons_append, writeLines_cons, Line.chars?_of_not_stray here]
    dsimp only
    rw [ih behind, List.flatMap_cons, printed, String.append_assoc, ← String.ofList_append]

theorem writeLines_of_plain (plain : ∀ e ∈ lines, ¬ e.2.Stray) :
    writeLines number "" lines = (String.ofList (lines.flatMap (printed number)), none) := by
  have written : writeLines number "" (lines ++ []) = _ := writeLines_append plain ""
  simpa [writeLines] using written

theorem writeLines_of_stray (plain : ∀ e ∈ before, ¬ e.2.Stray) (n : Int) {line : Line}
    (stray : line.Stray) (rest : List (Int × Line)) :
    writeLines number "" (before ++ (n, line) :: rest) =
      (String.ofList (before.flatMap (printed number) ++ label number n),
        some .lineUnprintable) := by
  rw [writeLines_append plain, writeLines_cons, Line.chars?_of_stray stray]
  simp [String.ofList_append]

end Lines

end Command

/-- Numbered lines in ascending order, each of them the line of a file with its number. -/
structure Drawn (lines : List (Int × Line)) (e : Encoding) (bytes : ByteArray) : Prop where
  ascends : lines.Pairwise (fun p q => p.1 < q.1)
  itemAt : ∀ p ∈ lines, itemAt (fileLines e bytes) p.1 = some p.2

theorem Run.drawn_of_outcome {spec : String} {e : Encoding} {bytes : ByteArray}
    {sel : Selection Line} (h : (Run.ofEntry spec e.name (.file bytes)).outcome = .ok sel) :
    Drawn sel.numbered e bytes := by
  rw [outcome_ofEntry_file] at h
  obtain ⟨terms, same⟩ := exists_terms_of_outcome h
  rw [same]
  refine ⟨materialised_ascends _ _, ?_⟩
  rintro ⟨n, line⟩ mem
  exact ((mem_materialised_iff _ _ _ _).mp mem).1

namespace Drawn

variable {lines : List (Int × Line)} {e : Encoding} {bytes : ByteArray} (h : Drawn lines e bytes)

include h

theorem isChain_text {p : Int × Line} (mem : p ∈ lines) (plain : ¬ p.2.Stray) :
    p.2.text.IsChain (Unbroken '\n' '\r') := by
  obtain ⟨k, hk, -, same⟩ := (itemAt_eq_some_iff _ _ _).mp (h.itemAt p mem)
  have line : p.2.glyphs ∈ (fileLines e bytes).map Line.glyphs :=
    List.mem_map_of_mem (same ▸ List.getElem_mem hk)
  have chain := ((fileLines_decoded e bytes).2.of_mem (by decide) line).2
  rw [← Line.map_char_text plain, List.isChain_map] at chain
  refine chain.imp ?_
  intro a b unbroken
  simpa [Unbroken] using unbroken

/-- Only the last line of a file lacks a terminator, so of the selected ones only the last may. -/
theorem pairwise_terminated (plain : ∀ p ∈ lines, ¬ p.2.Stray) :
    lines.Pairwise (fun p _ => ∃ c ∈ p.2.text.getLast?, c = '\n' ∨ c = '\r') := by
  refine h.ascends.imp_of_mem ?_
  intro p q hp hq before
  obtain ⟨j, hj, number, same⟩ := (itemAt_eq_some_iff _ _ _).mp (h.itemAt p hp)
  obtain ⟨k, hk, number', -⟩ := (itemAt_eq_some_iff _ _ _).mp (h.itemAt q hq)
  have next : j + 1 < ((fileLines e bytes).map Line.glyphs).length := by
    rw [List.length_map]
    omega
  obtain ⟨g, last, terminator⟩ := (fileLines_decoded e bytes).2.terminated next
  rw [List.getElem_map, same, ← Line.map_char_text (plain p hp), List.getLast?_map] at last
  obtain ⟨c, final, rfl⟩ := Option.mem_map.mp last
  exact ⟨c, final, by simpa using terminator⟩

theorem exists_number {p : Int × Line} (mem : p ∈ lines) : ∃ k : Nat, p.1 = k := by
  obtain ⟨k, -, number, -⟩ := (itemAt_eq_some_iff _ _ _).mp (h.itemAt p mem)
  exact ⟨k + 1, number⟩

end Drawn

namespace Command

theorem label_natCast (k : Nat) : label true k = Nat.toDigits 10 k ++ ['\t'] := by
  rw [label, if_pos rfl, ← Bound.text_ofInt]
  rfl

/-- Cuts an output into its pieces, and each of them at its first tab. -/
def readNumbered (cs : List Char) : List (Int × List Char) :=
  (cutLines '\n' '\r' cs).map (fun piece =>
    (Numeral.value (piece.takeWhile (· ≠ '\t')), (piece.dropWhile (· ≠ '\t')).tail))

theorem ne_of_mem_toDigits {k : Nat} {c d : Char} (digit : c ∈ Nat.toDigits 10 k)
    (other : d.isDigit = false) : c ≠ d := by
  rintro rfl
  rw [Numeral.isDigit_of_mem_toDigits digit] at other
  cases other

theorem areLines_printed {lines : List (Int × Line)} {e : Encoding} {bytes : ByteArray}
    (drawn : Drawn lines e bytes) (plain : ∀ p ∈ lines, ¬ p.2.Stray) :
    AreLines '\n' '\r' (lines.map (printed true)) := by
  have pieces : lines.map (printed true) =
      (lines.map (fun p => (label true p.1, p.2.text))).map (fun e => e.1 ++ e.2) := by
    rw [List.map_map]
    rfl
  rw [pieces]
  refine areLines_labelled ?_ ?_ ?_
  · rw [List.forall_mem_map]
    intro p mem
    obtain ⟨k, number⟩ := drawn.exists_number mem
    rw [number, label_natCast]
    refine ⟨List.append_ne_nil_of_right_ne_nil _ (List.cons_ne_nil _ _), ?_⟩
    intro c inside
    rcases List.mem_append.mp inside with digit | tab
    · exact ⟨ne_of_mem_toDigits digit (by decide), ne_of_mem_toDigits digit (by decide)⟩
    · rw [List.mem_singleton.mp tab]
      decide
  · rw [List.forall_mem_map]
    exact fun p mem => drawn.isChain_text mem (plain p mem)
  · rw [List.pairwise_map]
    exact drawn.pairwise_terminated plain

/-- The numbered output of a run tells its lines and their numbers. -/
theorem readNumbered_printed {lines : List (Int × Line)} {e : Encoding} {bytes : ByteArray}
    (drawn : Drawn lines e bytes) (plain : ∀ p ∈ lines, ¬ p.2.Stray) :
    readNumbered (lines.flatMap (printed true)) = lines.map (fun p => (p.1, p.2.text)) := by
  rw [readNumbered, List.flatMap_def, (areLines_printed drawn plain).cutLines_flatten (by decide),
    List.map_map]
  apply List.map_congr_left
  intro p mem
  obtain ⟨k, number⟩ := drawn.exists_number mem
  have before : ∀ c ∈ Nat.toDigits 10 k, decide (c ≠ '\t') := by
    intro c digit
    rw [decide_eq_true_eq]
    exact ne_of_mem_toDigits digit (by decide)
  have piece : printed true p = Nat.toDigits 10 k ++ '\t' :: p.2.text := by
    rw [printed, number, label_natCast, List.append_assoc]
    rfl
  simp only [Function.comp_apply, piece, List.takeWhile_append_of_pos before,
    List.dropWhile_append_of_pos before]
  simp [Numeral.value_toDigits, number]

/-- What the command prints for a file. It prints the selected lines up to the first one that is no
text, of which it prints the number only, and ends with a fault there; if all are text, it ends
well. Numbered output can be read back. -/
theorem prints_selected_lines (inputs : Inputs) (args : List String) (r : Request)
    (spec path : String) (bytes : ByteArray) (sel : Selection Line) (asks : Asks args r spec)
    (raw : .json ∉ r.switches) (named : filePath r = some path)
    (found : inputs.entry path = .file bytes)
    (selected : (Run.ofEntry spec "utf-8" (.file bytes)).outcome = .ok sel) :
    ((∀ p ∈ sel.numbered, ¬ p.2.Stray) →
      (run inputs args).exit = .ok 0 ∧
      (run inputs args).output.toList =
        sel.numbered.flatMap (printed (.number ∈ r.switches))) ∧
    (∀ before n line after, sel.numbered = before ++ (n, line) :: after →
      (∀ p ∈ before, ¬ p.2.Stray) → line.Stray →
      (run inputs args).exit = .error .lineUnprintable ∧
      (run inputs args).output.toList =
        before.flatMap (printed (.number ∈ r.switches)) ++ label (.number ∈ r.switches) n) ∧
    ((∀ p ∈ sel.numbered, ¬ p.2.Stray) → .number ∈ r.switches →
      readNumbered (run inputs args).output.toList =
        sel.numbered.map (fun p => (p.1, p.2.text))) := by
  obtain ⟨exit, output⟩ := run_of_selects asks (.file named found selected)
  rw [present, if_neg raw] at exit output
  have whole : (∀ p ∈ sel.numbered, ¬ p.2.Stray) →
      (run inputs args).exit = .ok 0 ∧ (run inputs args).output.toList =
        sel.numbered.flatMap (printed (.number ∈ r.switches)) := by
    intro plain
    rw [exit, output, writeLines_of_plain plain, String.toList_ofList]
    exact ⟨rfl, rfl⟩
  refine ⟨whole, ?_, ?_⟩
  · intro before n line after split plain stray
    rw [exit, output, split, writeLines_of_stray plain n stray, String.toList_ofList]
    exact ⟨rfl, rfl⟩
  · intro plain number
    have drawn : Drawn sel.numbered .utf8 bytes := Run.drawn_of_outcome selected
    rw [(whole plain).2, decide_eq_true number, readNumbered_printed drawn plain]

/-- The third line of the file is no text; the first two are. -/
theorem prints_selected_lines_before_stray :
    let inputs : Inputs := ⟨fun _ => .file ⟨#[97, 13, 98, 10, 255]⟩, ""⟩
    (run inputs ["-n", "1,-1", "f"]).exit = .error .lineUnprintable ∧
      (run inputs ["-n", "1,-1", "f"]).output.toList = "1\ta\r3\t".toList ∧
      readNumbered (run inputs ["-n", "1..2", "f"]).output.toList =
        [(1, ['a', '\r']), (2, ['b', '\n'])] := by
  intro inputs
  obtain ⟨-, partly, -⟩ := prints_selected_lines inputs ["-n", "1,-1", "f"] _ "1,-1" "f" _
    ⟨[(1, ⟨.utf8, ⟨#[97, 13]⟩⟩), (3, ⟨.utf8, ⟨#[255]⟩⟩)], 3, false⟩
    ⟨by rfl, by rfl, by decide⟩ (by decide) (by decide +kernel) rfl (by decide +kernel)
  obtain ⟨exit, output⟩ := partly [(1, ⟨.utf8, ⟨#[97, 13]⟩⟩)] 3 ⟨.utf8, ⟨#[255]⟩⟩ [] rfl
    (by decide +kernel) (by decide +kernel)
  obtain ⟨-, -, back⟩ := prints_selected_lines inputs ["-n", "1..2", "f"] _ "1..2" "f" _
    ⟨[(1, ⟨.utf8, ⟨#[97, 13]⟩⟩), (2, ⟨.utf8, ⟨#[98, 10]⟩⟩)], 2, true⟩
    ⟨by rfl, by rfl, by decide⟩ (by decide) (by decide +kernel) rfl (by decide +kernel)
  refine ⟨exit, output.trans (by decide +kernel), (back ?_ ?_).trans ?_⟩
  · decide +kernel
  · decide
  · decide +kernel

end Command

end Excerpt
