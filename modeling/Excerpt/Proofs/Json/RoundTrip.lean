import Mathlib.Data.List.TakeWhile
import Excerpt.Proofs.Json.Reader
import Excerpt.Proofs.Writing

/-!
# Written documents are read again

Each part of a document is read as itself, whatever comes behind it; a number
needs something behind it that is no digit. The written text of a value has at
least as many characters as the reader takes steps, which bounds its reading.
-/

namespace Excerpt.Json

open Text

section Blanks

theorem skipSpace_newLine (level : Nat) (cs : List Char) :
    skipSpace (newLine level ++ cs) = skipSpace cs := by
  apply List.dropWhile_append_of_pos
  intro c mem
  rcases List.mem_cons.mp mem with rfl | blank
  · rfl
  · rw [List.eq_of_mem_replicate blank]
    rfl

theorem skipSpace_cons {c : Char} (visible : isSpace c = false) (cs : List Char) :
    skipSpace (c :: cs) = c :: cs :=
  List.dropWhile_cons_of_neg (Bool.eq_false_iff.mp visible)

theorem readValue_newLine (level steps : Nat) (cs : List Char) :
    readValue steps (newLine level ++ cs) = readValue steps cs := by
  cases steps with
  | zero => rfl
  | succ steps => simp only [readValue, skipSpace_newLine]

theorem readMember_newLine (level steps : Nat) (cs : List Char) :
    readMember steps (newLine level ++ cs) = readMember steps cs := by
  cases steps with
  | zero => rfl
  | succ steps => simp only [readMember, skipSpace_newLine]

end Blanks

section Numbers

theorem head?_toDigits {n : Nat} (pos : 0 < n) : (Nat.toDigits 10 n).head? ≠ some '0' := by
  induction n using Nat.strongRecOn with
  | ind n ih =>
    rw [Nat.toDigits_eq_if (by decide)]
    split
    · rename_i small
      have digits : ∀ d < 10, 0 < d → Nat.digitChar d ≠ '0' := by decide
      simpa using digits n small pos
    · rename_i large
      rw [List.head?_append_of_ne_nil _ Nat.toDigits_ne_nil]
      exact ih (n / 10) (by omega) (by omega)

theorem readNatural_toDigits (n : Nat) {rest : List Char} (stops : Stops Char.isDigit rest) :
    readNatural (Nat.toDigits 10 n ++ rest) = some (n, rest) := by
  have digits : ∀ c ∈ Nat.toDigits 10 n, c.isDigit := fun c => Numeral.isDigit_of_mem_toDigits
  have ended : rest.takeWhile Char.isDigit = [] ∧ rest.dropWhile Char.isDigit = rest := by
    cases rest with
    | nil => exact ⟨rfl, rfl⟩
    | cons c cs =>
      have other : c.isDigit = false := stops c rfl
      simp [other]
  have proper : Nat.toDigits 10 n = ['0'] ∨
      Nat.toDigits 10 n ≠ [] ∧ (Nat.toDigits 10 n).head? ≠ some '0' := by
    rcases Nat.eq_zero_or_pos n with rfl | pos
    · exact .inl rfl
    · exact .inr ⟨Nat.toDigits_ne_nil, head?_toDigits pos⟩
  simp only [readNatural, List.takeWhile_append_of_pos digits, List.dropWhile_append_of_pos digits,
    ended, List.append_nil, if_pos proper, Nat.ofDigitChars_ten_toDigits]

theorem readNumber_toString (n : Int) {rest : List Char} (stops : Stops Char.isDigit rest) :
    readNumber ((toString n).toList ++ rest) = some (n, rest) := by
  have natural := readNatural_toDigits n.natAbs stops
  rw [← Bound.text_ofInt, Bound.text, Bound.ofInt]
  by_cases negative : n < 0
  · rw [if_pos negative]
    change (readNatural (Nat.toDigits 10 n.natAbs ++ rest)).map _ = _
    rw [natural, Option.map_some]
    congr 2
    omega
  · rw [if_neg negative]
    change readNumber (Nat.toDigits 10 n.natAbs ++ rest) = _
    rw [readNumber, natural, Option.map_some]
    · congr 2
      omega
    · intro cs minus
      have head := congrArg List.head? minus
      rw [List.head?_append_of_ne_nil _ Nat.toDigits_ne_nil] at head
      have digit := Numeral.isDigit_of_mem_toDigits (List.mem_of_mem_head? head)
      exact absurd digit (by decide)

theorem exists_toString_cons (n : Int) :
    ∃ c cs, (toString n).toList = c :: cs ∧ (c = '-' ∨ c.isDigit) := by
  rw [← Bound.text_ofInt, Bound.text, Bound.ofInt]
  by_cases negative : n < 0
  · rw [if_pos negative]
    exact ⟨_, _, rfl, .inl rfl⟩
  · rw [if_neg negative]
    obtain ⟨c, cs, digits⟩ := List.exists_cons_of_ne_nil (@Nat.toDigits_ne_nil n.natAbs 10)
    have digit : c.isDigit :=
      Numeral.isDigit_of_mem_toDigits (n := n.natAbs) (digits ▸ List.mem_cons_self)
    exact ⟨c, cs, digits, .inr digit⟩

end Numbers

section Strings

theorem readUnit_hexDigits {n : Nat} (control : n < 0x20) (rest : List Char) :
    readUnit (hexDigits 4 n ++ rest) = some (n, rest) := by
  have table : ∀ n < 0x20, (hexDigits 4 n).length = 4 ∧
      ((hexDigits 4 n).mapM hexValue?).map (·.foldl (16 * · + ·) 0) = some n := by decide
  obtain ⟨length, value⟩ := table n control
  match digits : hexDigits 4 n, length with
  | [a, b, c, d], _ =>
    rw [digits, Option.map_eq_some_iff] at value
    obtain ⟨values, read, number⟩ := value
    change ([a, b, c, d].mapM hexValue?).map _ = _
    rw [read, Option.map_some, number]
    rfl

/-- An escaped character is read as itself. -/
theorem readChar_escape (c : Char) (rest : List Char) :
    readChar (escape c ++ rest) = some (c, rest) := by
  by_cases short : c = '\x22' ∨ c = '\\' ∨ c = '\x08' ∨ c = '\t' ∨ c = '\n' ∨ c = '\x0c' ∨ c = '\r'
  · rcases short with rfl | rfl | rfl | rfl | rfl | rfl | rfl <;> rfl
  · simp only [not_or] at short
    obtain ⟨quote, backslash, back, tab, feed, form, carriage⟩ := short
    by_cases control : c.toNat < 0x20
    · have written : escape c = '\\' :: 'u' :: hexDigits 4 c.toNat := by
        simp [escape, quote, backslash, back, tab, feed, form, carriage, control]
      have plain : ¬ (0xD800 ≤ c.toNat ∧ c.toNat < 0xDC00) ∧
          ¬ (0xDC00 ≤ c.toNat ∧ c.toNat < 0xE000) := by omega
      rw [written]
      change readCodePoint (hexDigits 4 c.toNat ++ rest) = _
      simp [readCodePoint, readUnit_hexDigits control, plain]
    · have written : escape c = [c] := by
        simp [escape, quote, backslash, back, tab, feed, form, carriage, control]
      simp [written, readChar, quote, backslash, control]

theorem escape_ne_nil (c : Char) : escape c ≠ [] := by
  intro empty
  have read := readChar_escape c []
  rw [empty] at read
  cases read

theorem head?_escape (c : Char) (rest : List Char) :
    (escape c ++ rest).head? ≠ some '\x22' := by
  intro quote
  obtain ⟨cs, written⟩ := List.head?_eq_some_iff.mp quote
  have read := readChar_escape c rest
  rw [written] at read
  cases read

theorem length_le_escaped (s : List Char) : s.length ≤ (s.flatMap escape).length := by
  induction s with
  | nil => exact Nat.le_refl _
  | cons c s ih =>
    have pos := List.length_pos_of_ne_nil (escape_ne_nil c)
    rw [List.flatMap_cons, List.length_append, List.length_cons]
    omega

theorem readString_escaped (s rest : List Char) {steps : Nat} (enough : s.length < steps) :
    readString steps (s.flatMap escape ++ '\x22' :: rest) = some (s, rest) := by
  induction s generalizing steps with
  | nil =>
    obtain ⟨steps, rfl⟩ := Nat.exists_eq_add_one_of_ne_zero (Nat.ne_of_gt enough)
    rfl
  | cons c s ih =>
    obtain ⟨steps, rfl⟩ := Nat.exists_eq_add_one_of_ne_zero (Nat.ne_zero_of_lt enough)
    rw [List.flatMap_cons, List.append_assoc, readString, if_neg (head?_escape _ _),
      readChar_escape]
    simp [ih (Nat.lt_of_succ_lt_succ enough)]

end Strings

section Values

theorem stops_writeItems (level k : Nat) (js : List Json) (cs : List Char) :
    Stops Char.isDigit (writeItems level js ++ (newLine k ++ cs)) := by
  intro c first
  cases js with
  | nil =>
    cases first
    rfl
  | cons j js =>
    rw [writeItems] at first
    cases first
    rfl

theorem stops_writeMembers (level k : Nat) (ms : List (List Char × Json)) (cs : List Char) :
    Stops Char.isDigit (writeMembers level ms ++ (newLine k ++ cs)) := by
  intro c first
  cases ms with
  | nil =>
    cases first
    rfl
  | cons m ms =>
    rw [writeMembers] at first
    cases first
    rfl

/-- A written value begins with a character that is no blank and ends no array. -/
theorem exists_write_cons (level : Nat) (j : Json) :
    ∃ c cs, write level j = c :: cs ∧ isSpace c = false ∧ c ≠ ']' := by
  cases j with
  | bool b => cases b <;> exact ⟨_, _, rfl, by decide, by decide⟩
  | number n =>
    obtain ⟨c, cs, text, start⟩ := exists_toString_cons n
    refine ⟨c, cs, text, ?_⟩
    rcases start with rfl | digit
    · decide
    · constructor
      · rw [isSpace, decide_eq_false_iff_not]
        rintro (rfl | rfl | rfl | rfl) <;> exact absurd digit (by decide)
      · rintro rfl
        exact absurd digit (by decide)
  | string s => exact ⟨_, _, rfl, by decide, by decide⟩
  | array items => cases items <;> exact ⟨_, _, rfl, by decide, by decide⟩
  | object members => cases members <;> exact ⟨_, _, rfl, by decide, by decide⟩

theorem length_writeString (s : List Char) : s.length + 2 ≤ (writeString s).length := by
  have escaped := length_le_escaped s
  rw [writeString, List.length_cons, List.length_append, List.length_singleton]
  omega

theorem readMember_write {key : List Char} {j : Json} {level steps : Nat} {rest : List Char}
    (value : ∀ steps, (write level j).length ≤ steps →
      readValue steps (write level j ++ rest) = some (j, rest))
    (enough : (writeString key).length + (write level j).length ≤ steps) :
    readMember steps (writeString key ++ ':' :: ' ' :: (write level j ++ rest)) =
      some ((key, j), rest) := by
  have length := length_writeString key
  obtain ⟨steps, rfl⟩ : ∃ n, steps = n + 1 := Nat.exists_eq_add_one_of_ne_zero (by omega)
  have spaced : readValue steps (' ' :: (write level j ++ rest)) = some (j, rest) := by
    rw [← value steps (by omega)]
    cases steps with
    | zero => rfl
    | succ steps => rfl
  rw [writeString, List.cons_append, List.append_assoc]
  change (readString steps (key.flatMap escape ++ '\x22' :: _)).bind _ = _
  rw [readString_escaped key _ (by omega)]
  change (readValue steps (' ' :: _)).bind _ = _
  rw [spaced]
  rfl

mutual

/-- What is written is read back, whatever comes behind it that does not go on with a number: the
parts of an array or an object are read with the rest of the text behind them. -/
theorem readValue_write (level : Nat) (j : Json) {steps : Nat} {rest : List Char}
    (enough : (write level j).length ≤ steps) (stops : Stops Char.isDigit rest) :
    readValue steps (write level j ++ rest) = some (j, rest) := by
  obtain ⟨steps, rfl⟩ : ∃ n, steps = n + 1 := by
    obtain ⟨c, cs, written, _⟩ := exists_write_cons level j
    rw [written] at enough
    exact Nat.exists_eq_add_one_of_ne_zero (Nat.ne_zero_of_lt enough)
  match j with
  | .bool true => rfl
  | .bool false => rfl
  | .number n =>
    obtain ⟨c, cs, written, visible, _⟩ := exists_write_cons level (.number n)
    have skipped : skipSpace (write level (.number n) ++ rest) =
        (toString n).toList ++ rest := by
      rw [written, List.cons_append, skipSpace_cons visible, ← List.cons_append, ← written, write]
    rw [readValue, skipped, readNumber_toString n stops]
  | .string s =>
    have length := length_writeString s
    rw [write] at enough
    rw [write, writeString, List.cons_append, List.append_assoc]
    change (readString steps (s.flatMap escape ++ '\x22' :: rest)).map _ = _
    rw [readString_escaped s rest (by omega)]
    rfl
  | .array [] => rfl
  | .array (j :: js) =>
    have text : write level (.array (j :: js)) ++ rest =
        '[' :: (newLine (level + 1) ++ (write (level + 1) j ++
          (writeItems (level + 1) js ++ (newLine level ++ ']' :: rest)))) := by
      simp [write]
    obtain ⟨c, cs, written, visible, other⟩ := exists_write_cons (level + 1) j
    rw [write] at enough
    simp only [List.length_cons, List.length_append] at enough
    rw [text]
    change (if (skipSpace (newLine (level + 1) ++ _)).head? = some ']' then _ else
      (readValue steps (newLine (level + 1) ++ _)).bind _) = _
    rw [if_neg, readValue_newLine, readValue_write (level + 1) j (by omega)
      (stops_writeItems _ _ _ _)]
    · change (readItems steps _).bind _ = _
      rw [readItems_write (level + 1) level js (by omega)]
      rfl
    · rw [skipSpace_newLine, written, List.cons_append, skipSpace_cons visible]
      simpa using other
  | .object [] => rfl
  | .object ((key, j) :: ms) =>
    have text : write level (.object ((key, j) :: ms)) ++ rest =
        '\x7b' :: (newLine (level + 1) ++ (writeString key ++ ':' :: ' ' :: (write (level + 1) j ++
          (writeMembers (level + 1) ms ++ (newLine level ++ '\x7d' :: rest))))) := by
      simp [write]
    rw [write] at enough
    simp only [List.length_cons, List.length_append] at enough
    have value (steps : Nat) (more : (write (level + 1) j).length ≤ steps) :=
      readValue_write (level + 1) j more (stops_writeMembers (level + 1) level ms ('\x7d' :: rest))
    rw [text]
    change (if (skipSpace (newLine (level + 1) ++ _)).head? = some '\x7d' then _ else
      (readMember steps (newLine (level + 1) ++ _)).bind _) = _
    rw [if_neg, readMember_newLine, readMember_write value (by omega)]
    · change (readMembers steps _).bind _ = _
      rw [readMembers_write (level + 1) level ms (by omega)]
      rfl
    · rw [skipSpace_newLine]
      exact fun brace => by cases brace

theorem readItems_write (level k : Nat) (js : List Json) {steps : Nat} {rest : List Char}
    (enough : (writeItems level js).length < steps) :
    readItems steps (writeItems level js ++ (newLine k ++ ']' :: rest)) = some (js, rest) := by
  obtain ⟨steps, rfl⟩ : ∃ n, steps = n + 1 :=
    Nat.exists_eq_add_one_of_ne_zero (Nat.ne_zero_of_lt enough)
  match js with
  | [] => rw [writeItems, List.nil_append, readItems, skipSpace_newLine]; rfl
  | j :: js =>
    have text : writeItems level (j :: js) ++ (newLine k ++ ']' :: rest) =
        ',' :: (newLine level ++ (write level j ++
          (writeItems level js ++ (newLine k ++ ']' :: rest)))) := by
      simp [writeItems]
    rw [writeItems] at enough
    simp only [List.length_cons, List.length_append] at enough
    rw [text]
    change (readValue steps (newLine level ++ _)).bind _ = _
    rw [readValue_newLine, readValue_write level j (by omega) (stops_writeItems _ _ _ _)]
    change (readItems steps _).bind _ = _
    rw [readItems_write level k js (by omega)]
    rfl

theorem readMembers_write (level k : Nat) (ms : List (List Char × Json)) {steps : Nat}
    {rest : List Char} (enough : (writeMembers level ms).length < steps) :
    readMembers steps (writeMembers level ms ++ (newLine k ++ '\x7d' :: rest)) =
      some (ms, rest) := by
  obtain ⟨steps, rfl⟩ : ∃ n, steps = n + 1 :=
    Nat.exists_eq_add_one_of_ne_zero (Nat.ne_zero_of_lt enough)
  match ms with
  | [] => rw [writeMembers, List.nil_append, readMembers, skipSpace_newLine]; rfl
  | (key, j) :: ms =>
    have text : writeMembers level ((key, j) :: ms) ++ (newLine k ++ '\x7d' :: rest) =
        ',' :: (newLine level ++ (writeString key ++ ':' :: ' ' :: (write level j ++
          (writeMembers level ms ++ (newLine k ++ '\x7d' :: rest))))) := by
      simp [writeMembers]
    rw [writeMembers] at enough
    simp only [List.length_cons, List.length_append] at enough
    have value (steps : Nat) (more : (write level j).length ≤ steps) :=
      readValue_write level j more (stops_writeMembers level k ms ('\x7d' :: rest))
    rw [text]
    change (readMember steps (newLine level ++ _)).bind _ = _
    rw [readMember_newLine, readMember_write value (by omega)]
    change (readMembers steps _).bind _ = _
    rw [readMembers_write level k ms (by omega)]
    rfl

end

end Values

/-- A document that is written with nothing but blanks behind it is read as itself. -/
theorem read_write (level : Nat) (j : Json) {rest : List Char} (blank : skipSpace rest = []) :
    read (write level j ++ rest) = some j := by
  have stops : Stops Char.isDigit rest := by
    intro c first
    have space : isSpace c := List.dropWhile_eq_nil_iff.mp blank c (List.mem_of_mem_head? first)
    rw [isSpace, decide_eq_true_eq] at space
    rcases space with rfl | rfl | rfl | rfl <;> decide
  have value : readValue ((write level j ++ rest).length + 1) (write level j ++ rest) =
      some (j, rest) := by
    refine readValue_write level j ?_ stops
    rw [List.length_append]
    omega
  rw [read, value]
  exact if_pos blank

end Excerpt.Json
