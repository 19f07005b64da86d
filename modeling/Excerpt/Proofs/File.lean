import Excerpt.File
import Excerpt.Proofs.Cutting
import Excerpt.Proofs.Decoding
import Excerpt.Proofs.Faults

/-!
# Reading a file

A file is cut as bytes and each line is decoded by itself. A terminator is made
of bytes below 128, next to which no code can lie on both sides, so this reads
what decoding the whole file would, and cuts it where its characters say. A run
over a file is then the run over the list of these lines.
-/

namespace Excerpt.Text

variable {e : Encoding}

open Encoding

/-- What the bytes of a line say of its end, the glyphs of the line say of it too. -/
theorem EndsBefore.decodes {line next : List UInt8} {gs gs' : List Glyph}
    (h : EndsBefore lineFeed carriageReturn next line) (reading : Decodes e line gs)
    (reading' : Decodes e next gs') : EndsBefore (.char '\n') (.char '\r') gs' gs := by
  obtain ⟨body, ending, rfl, ordinary, ends⟩ := h
  have body_reading := e.decodes_decode body.toByteArray
  rw [List.toList_data_toByteArray] at body_reading
  have low : ∀ b ∈ ending, b < 128 := by
    rcases ends with rfl | rfl | ⟨rfl, -⟩ | ⟨rfl, -⟩ <;> decide +kernel
  have split := body_reading.append (e.decodes_of_low ending low)
    (fun a _ b first => .inr (low b (List.mem_of_mem_head? first)))
  refine ⟨_, _, reading.unique split, ?_, ?_⟩
  · intro g mem
    have code (c : Char) (b : UInt8) (same : e.encodeGlyph (.char c) = [b])
        (isTerminator : b = lineFeed ∨ b = carriageReturn) : g ≠ .char c := by
      rintro rfl
      have inside : b ∈ body := by
        rw [← body_reading.encode_eq]
        exact List.mem_flatMap.mpr ⟨_, mem, same ▸ List.mem_singleton_self b⟩
      exact isTerminator.elim (ordinary b inside).1 (ordinary b inside).2
    exact ⟨code '\n' lineFeed (by cases e <;> rfl) (.inl rfl),
      code '\r' carriageReturn (by cases e <;> rfl) (.inr rfl)⟩
  · rcases ends with rfl | rfl | ⟨rfl, no_feed⟩ | ⟨rfl, rfl⟩
    · exact .inl rfl
    · exact .inr (.inl rfl)
    · refine .inr (.inr (.inl ⟨rfl, ?_⟩))
      intro first
      obtain ⟨rest, rfl⟩ := List.head?_eq_some_iff.mp first
      apply no_feed
      rw [← reading'.encode_eq]
      cases e <;> rfl
    · exact .inr (.inr (.inr ⟨rfl, reading'.unique .nil⟩))

/-- Lines of bytes, decoded one by one, are the lines of the decoded whole. -/
theorem AreLines.decodes (e : Encoding) {lines : List ByteArray}
    (h : AreLines lineFeed carriageReturn (lines.map (fun line => line.data.toList))) :
    Decodes e (lines.map (fun line => line.data.toList)).flatten (lines.map e.decode).flatten ∧
      AreLines (.char '\n') (.char '\r') (lines.map e.decode) := by
  induction lines with
  | nil => exact ⟨.nil, trivial⟩
  | cons line rest ih =>
    obtain ⟨nonempty, ends, behind⟩ := h
    obtain ⟨reading', lines'⟩ := ih behind
    have reading := e.decodes_decode line
    have apart : ∀ a ∈ line.data.toList.getLast?,
        ∀ b ∈ (rest.map (fun line => line.data.toList)).flatten.head?, a < 128 ∨ b < 128 := by
      intro a last b first
      have cut := ends.not_unbroken last first
      rw [Unbroken, not_and_or, not_not, Classical.not_imp] at cut
      rcases cut with rfl | ⟨rfl, -⟩
      · exact .inl (by decide)
      · exact .inl (by decide)
    refine ⟨reading.append reading' apart, ?_, ends.decodes reading reading', lines'⟩
    intro empty
    rw [empty] at reading
    exact nonempty reading.encode_eq.symm

/-- The lines of a file in an encoding. -/
def fileLines (e : Encoding) (bytes : ByteArray) : List Line :=
  (linesOf bytes).map (fun line => ⟨e, line⟩)

theorem map_glyphs_fileLines (e : Encoding) (bytes : ByteArray) :
    (fileLines e bytes).map Line.glyphs = (linesOf bytes).map e.decode := by
  rw [fileLines, List.map_map]
  rfl

/-- A file is decoded as a whole, and what is decoded is cut into its lines. -/
theorem fileLines_decoded (e : Encoding) (bytes : ByteArray) :
    Decodes e bytes.data.toList ((fileLines e bytes).map Line.glyphs).flatten ∧
      AreLines (.char '\n') (.char '\r') ((fileLines e bytes).map Line.glyphs) := by
  have cut : AreLines lineFeed carriageReturn
      ((linesOf bytes).map (fun line => line.data.toList)) := by
    rw [map_linesOf_eq_cutLines]
    exact areLines_cutLines _
  rw [map_glyphs_fileLines, ← flatten_linesOf bytes]
  exact cut.decodes e

end Excerpt.Text

namespace Excerpt

open Text

variable {α : Type}

theorem items_textSource (e : Encoding) (bytes : ByteArray) :
    (textSource e bytes).items (lineStarts bytes).size = fileLines e bytes := by
  rw [textSource, Source.items_counted _ _ (Nat.le_refl _), fileLines, linesOf, List.map_map]
  rfl

namespace Run

/-- A run over an input that ends is told by the list of its lines. -/
theorem outcome_ofTerms_items (terms : List Term) (s : Source α) {n : Nat}
    (count : s.available = n) (ends : s.ending? = some .finished) :
    (ofTerms terms s).outcome = (ofTerms terms (Source.ofList (s.items n))).outcome := by
  have length := s.length_items n count.ge
  have count' : (Source.ofList (s.items n)).available = n := by
    change ((s.items n).length : ℕ∞) = n
    rw [length]
  by_cases feasible : Plan.Feasible terms
  · by_cases below : (n : ℕ∞) < Plan.lastNeeded terms
    · rw [(ofTerms_ends feasible s n count ends below).1,
        (ofTerms_ends feasible _ n count' rfl below).1, Source.items_ofList,
        List.take_of_length_le length.le]
    · have enough := le_of_not_gt below
      obtain ⟨k, last⟩ := ENat.ne_top_iff_exists.mp
        (ne_top_of_le_ne_top (ENat.natCast_ne_top n) enough)
      rw [← last] at enough
      have first : (s.items n).take k = s.items k := by
        rw [← Nat.add_sub_cancel' (Nat.cast_le.mp enough), s.items_add, List.take_left']
        exact s.length_items k (enough.trans count.ge)
      have stops := outcome_eq_of_prefix feasible s k last.symm (enough.trans count.ge)
      have stops' := outcome_eq_of_prefix feasible _ k last.symm (enough.trans count'.ge)
      rw [stops, stops', Source.items_ofList, first]
  · obtain ⟨f, fault⟩ := exists_fault_of_not_feasible α feasible
    rw [fault, fault]

end Run

/-- A run that succeeds has selected with some terms. -/
theorem Run.exists_terms_of_outcome {spec : String} {xs : List α} {sel : Selection α}
    (h : (Run.ofSpec spec (Source.ofList xs)).outcome = .ok sel) :
    ∃ terms, sel.numbered = materialised terms xs := by
  cases parsed : Spec.parse spec with
  | error f =>
    rw [outcome_ofSpec_of_error parsed] at h
    cases h
  | ok terms =>
    rw [ofSpec_of_ok parsed] at h
    by_cases feasible : Plan.Feasible terms
    · obtain ⟨sel', outcome, same⟩ := numbered_ofTerms_ofList feasible xs
      cases outcome.symm.trans h
      exact ⟨terms, same⟩
    · obtain ⟨f, fault⟩ := exists_fault_of_not_feasible α feasible
      rw [fault] at h
      cases h

/-- The name that stands for an encoding. -/
def Text.Encoding.name : Encoding → String
  | .utf8 => "utf-8"
  | .latin1 => "latin-1"
  | .ascii => "ascii"

theorem Text.Encoding.ofName_name (e : Encoding) : Encoding.ofName e.name = .ok e := by
  cases e <;> rfl

/-- A file is read as the run over its lines. -/
theorem Run.outcome_ofEntry_textSource (spec : String) (e : Encoding) (bytes : ByteArray) :
    (Run.ofEntry spec e.name (.file bytes)).outcome =
      (Run.ofSpec spec (textSource e bytes)).outcome := by
  have source : (Entry.file bytes).source e.name = .ok (textSource e bytes) := by
    rw [Entry.source, e.ofName_name]
    rfl
  cases parsed : Spec.parse spec with
  | error f =>
    rw [outcome_ofSpec_of_error parsed, ofEntry, parsed]
  | ok terms =>
    rw [ofSpec_of_ok parsed, ofEntry, parsed]
    dsimp only
    rw [source]

theorem Run.outcome_ofEntry_file (spec : String) (e : Encoding) (bytes : ByteArray) :
    (Run.ofEntry spec e.name (.file bytes)).outcome =
      (Run.ofSpec spec (Source.ofList (fileLines e bytes))).outcome := by
  rw [outcome_ofEntry_textSource]
  cases parsed : Spec.parse spec with
  | error f => rw [outcome_ofSpec_of_error parsed, outcome_ofSpec_of_error parsed]
  | ok terms =>
    rw [ofSpec_of_ok parsed, ofSpec_of_ok parsed, ← items_textSource]
    exact outcome_ofTerms_items terms _ rfl rfl

/-- A blank specification selects every line. -/
theorem Run.outcome_of_blank {spec : String} (blank : Blanks spec.toList) (xs : List α) :
    (Run.ofSpec spec (Source.ofList xs)).outcome = .ok ⟨numbered xs, xs.length, false⟩ := by
  have feasible : Plan.Feasible [Term.all] := ⟨by decide +kernel, by decide +kernel⟩
  have last : Plan.lastNeeded [Term.all] = ⊤ := rfl
  have ends := (ofTerms_ends feasible (Source.ofList xs) xs.length rfl rfl
    (last ▸ ENat.natCast_lt_top _)).1
  rw [ofSpec_of_ok (Spec.parse_of_blank blank), ends, Source.items_ofList,
    List.take_of_length_le (Nat.le_refl _), materialised_all]

/-- Reading a file loses nothing and cuts it behind its terminators only. The lines of a run with an
empty specification encode to the bytes of the file, and they are the lines of the file as bytes
and of the characters that it decodes to. A run with any specification is the one over these
lines. -/
theorem Run.reads_file_losslessly (e : Encoding) (bytes : ByteArray) :
    ∃ sel, (Run.ofEntry "" e.name (.file bytes)).outcome = .ok sel ∧
      sel.lines.flatMap (fun line => e.encode line.glyphs) = bytes.data.toList ∧
      e.Decodes bytes.data.toList (sel.lines.map Line.glyphs).flatten ∧
      AreLines lineFeed carriageReturn (sel.lines.map (fun line => e.encode line.glyphs)) ∧
      AreLines (.char '\n') (.char '\r') (sel.lines.map Line.glyphs) ∧
      sel.total = sel.lines.length ∧
      ∀ spec, (Run.ofEntry spec e.name (.file bytes)).outcome =
        (Run.ofSpec spec (Source.ofList sel.lines)).outcome := by
  have blank : Blanks "".toList := List.forall_mem_nil _
  have lines : Selection.lines ⟨numbered (fileLines e bytes), (fileLines e bytes).length, false⟩ =
      fileLines e bytes := map_snd_numbered _
  have encoded : (fileLines e bytes).map (fun line => e.encode line.glyphs) =
      (linesOf bytes).map (fun line => line.data.toList) := by
    rw [fileLines, List.map_map]
    exact List.map_congr_left (fun line _ => (e.decodes_decode line).encode_eq)
  obtain ⟨decoded, cut⟩ := fileLines_decoded e bytes
  refine ⟨_, (outcome_ofEntry_file "" e bytes).trans (outcome_of_blank blank _), ?_⟩
  rw [lines]
  refine ⟨?_, decoded, ?_, cut, rfl, fun spec => outcome_ofEntry_file spec e bytes⟩
  · rw [List.flatMap_def, encoded, flatten_linesOf]
  · rw [encoded, map_linesOf_eq_cutLines]
    exact areLines_cutLines _

end Excerpt
