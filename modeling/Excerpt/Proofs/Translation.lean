import Excerpt.Proofs.File

/-!
# Line feeds for terminators

A text is translated when every terminator in it becomes a line feed. It keeps
its lines: the lines of the translated text are those of the text, each one
translated, so a line has the same number before and after. Text that is stored
as bytes is read back as the same characters.
-/

namespace Excerpt.Text

/-- A carriage return and the line feed behind it become one line feed. -/
def mergePairs : List Char → List Char
  | '\r' :: '\n' :: rest => '\n' :: mergePairs rest
  | c :: rest => c :: mergePairs rest
  | [] => []

/-- First the pairs become line feeds, and then the carriage returns that are left. -/
def translated (cs : List Char) : List Char :=
  (mergePairs cs).map (fun c => if c = '\r' then '\n' else c)

/-- The text in bytes, with a line feed in place of every terminator. -/
def translatedBytes (text : String) : ByteArray := (String.ofList (translated text.toList)).toUTF8

theorem translated_pair (rest : List Char) :
    translated ('\r' :: '\n' :: rest) = '\n' :: translated rest := rfl

theorem translated_cons {c : Char} {rest : List Char} (alone : c = '\r' → rest.head? ≠ some '\n') :
    translated (c :: rest) = (if c = '\r' then '\n' else c) :: translated rest := by
  have kept : mergePairs (c :: rest) = c :: mergePairs rest := by
    rw [mergePairs]
    rintro rest' back rfl
    exact alone back rfl
  rw [translated, kept, List.map_cons, translated]

theorem translated_return {rest : List Char} (alone : rest.head? ≠ some '\n') :
    translated ('\r' :: rest) = '\n' :: translated rest := translated_cons (fun _ => alone)

theorem translated_cons_of_ne {c : Char} (other : c ≠ '\r') (rest : List Char) :
    translated (c :: rest) = c :: translated rest := by
  rw [translated_cons (fun same => absurd same other), if_neg other]

/-- One pass over the text unifies its terminators. -/
theorem unifyFrom_eq (done cs : List Char) :
    unifyFrom done cs = done.reverse ++ translated cs := by
  fun_induction unifyFrom done cs with
  | case1 done => exact (List.append_nil _).symm
  | case2 done rest ih =>
    rw [ih, translated_pair, List.reverse_cons, List.append_assoc, List.singleton_append]
  | case3 done rest pair ih =>
    have alone : rest.head? ≠ some '\n' := by
      intro first
      obtain ⟨rest', rfl⟩ := List.head?_eq_some_iff.mp first
      exact pair rest' rfl
    rw [ih, translated_return alone, List.reverse_cons, List.append_assoc, List.singleton_append]
  | case4 done c rest _ other ih =>
    rw [ih, translated_cons_of_ne other, List.reverse_cons, List.append_assoc,
      List.singleton_append]

theorem unifyLineEnds_eq (cs : List Char) : unifyLineEnds cs = translated cs := unifyFrom_eq [] cs

theorem translated_ne_nil {cs : List Char} (h : cs ≠ []) : translated cs ≠ [] := by
  fun_cases mergePairs cs with
  | case1 rest => exact List.cons_ne_nil _ _
  | case2 c rest pair =>
    rw [translated_cons]
    · exact List.cons_ne_nil _ _
    · intro back first
      obtain ⟨rest', feed⟩ := List.head?_eq_some_iff.mp first
      exact pair rest' back feed
  | case3 => exact absurd rfl h

theorem translated_append_of_ordinary {body : List Char}
    (ordinary : ∀ c ∈ body, Ordinary '\n' '\r' c) (rest : List Char) :
    translated (body ++ rest) = body ++ translated rest := by
  induction body with
  | nil => rfl
  | cons c body ih =>
    obtain ⟨here, behind⟩ := List.forall_mem_cons.mp ordinary
    rw [List.cons_append, translated_cons_of_ne here.2, ih behind, List.cons_append]

/-- A line is translated apart from what follows it, and still ends before that. -/
theorem EndsBefore.translate {line next : List Char} (h : EndsBefore '\n' '\r' next line) :
    translated (line ++ next) = translated line ++ translated next ∧
      EndsBefore '\n' '\r' (translated next) (translated line) := by
  obtain ⟨body, ending, rfl, ordinary, ends⟩ := h
  rw [List.append_assoc, translated_append_of_ordinary ordinary,
    translated_append_of_ordinary ordinary, List.append_assoc]
  rcases ends with rfl | rfl | ⟨rfl, alone⟩ | ⟨rfl, rfl⟩
  · refine ⟨?_, body, ['\n'], rfl, ordinary, .inl rfl⟩
    rw [List.singleton_append, translated_cons_of_ne (by decide)]
    rfl
  · exact ⟨rfl, body, ['\n'], rfl, ordinary, .inl rfl⟩
  · refine ⟨?_, body, ['\n'], rfl, ordinary, .inl rfl⟩
    rw [List.singleton_append, translated_return alone]
    rfl
  · exact ⟨rfl, body, [], rfl, ordinary, .inr (.inr (.inr ⟨rfl, rfl⟩))⟩

theorem AreLines.translate {lines : List (List Char)} (h : AreLines '\n' '\r' lines) :
    translated lines.flatten = (lines.map translated).flatten ∧
      AreLines '\n' '\r' (lines.map translated) := by
  induction lines with
  | nil => exact ⟨rfl, trivial⟩
  | cons line rest ih =>
    obtain ⟨nonempty, ends, behind⟩ := h
    obtain ⟨joined, lines⟩ := ih behind
    obtain ⟨apart, ends'⟩ := ends.translate
    rw [joined] at apart ends'
    exact ⟨apart, translated_ne_nil nonempty, ends', lines⟩

/-- A translated text has the lines of the text, each of them translated. -/
theorem cutLines_translated (cs : List Char) :
    cutLines '\n' '\r' (translated cs) = (cutLines '\n' '\r' cs).map translated := by
  have cut : AreLines '\n' '\r' (cutLines '\n' '\r' cs) := areLines_cutLines cs
  obtain ⟨joined, lines⟩ := cut.translate
  rw [← (cutLines_eq_iff.mp rfl).1] at joined
  rw [joined, lines.cutLines_flatten (by decide)]

theorem decodes_utf8Encode (cs : List Char) :
    Encoding.Decodes .utf8 cs.utf8Encode.data.toList (cs.map .char) := by
  rw [List.utf8Encode, List.toList_data_toByteArray]
  induction cs with
  | nil => exact .nil
  | cons c cs ih => exact .char trivial ih

/-- A text that is stored as bytes has the lines of its characters. -/
theorem glyphs_fileLines_utf8Encode (cs : List Char) :
    (fileLines .utf8 cs.utf8Encode).map Line.glyphs =
      (cutLines '\n' '\r' cs).map (List.map .char) := by
  obtain ⟨decoded, lines⟩ := fileLines_decoded .utf8 cs.utf8Encode
  have chars : Function.Injective Glyph.char := fun c d same => Glyph.char.inj same
  have cut : AreLines '\n' '\r' (cutLines '\n' '\r' cs) := areLines_cutLines cs
  have joined : ((cutLines '\n' '\r' cs).map (List.map Glyph.char)).flatten = cs.map .char := by
    rw [← List.map_flatten, ← (cutLines_eq_iff.mp rfl).1]
  rw [← lines.cutLines_flatten (by decide), ← (cut.map chars).cutLines_flatten (by decide), joined,
    decoded.unique (decodes_utf8Encode cs)]

theorem glyphs_fileLines_translatedBytes (text : String) :
    (fileLines .utf8 (translatedBytes text)).map Line.glyphs =
      (cutLines '\n' '\r' text.toList).map (fun line => (translated line).map .char) := by
  rw [translatedBytes, String.toUTF8, String.toByteArray_ofList, glyphs_fileLines_utf8Encode,
    cutLines_translated, List.map_map]
  rfl

end Excerpt.Text
