import Mathlib.Data.List.SplitBy
import Excerpt.Text.Lines

/-!
# Cutting a text into lines

A text over any alphabet is cut behind each line feed, and behind each carriage
return that no line feed follows. `AreLines` says of a list of lines that each
one ends with its terminator and holds no other; only the last may lack one.
A text has exactly one such list, the one that `cutLines` gives.
-/

namespace Excerpt.Text

section Alphabet

variable {α : Type} (lf cr : α)

/-- No line ends between two symbols that follow each other. -/
def Unbroken (a b : α) : Prop := a ≠ lf ∧ (a = cr → b = lf)

instance [DecidableEq α] (a b : α) : Decidable (Unbroken lf cr a b) :=
  inferInstanceAs (Decidable (_ ∧ _))

def cutLines [DecidableEq α] (xs : List α) : List (List α) :=
  xs.splitBy (fun a b => Unbroken lf cr a b)

/-- A symbol that belongs to no terminator. -/
abbrev Ordinary (a : α) : Prop := a ≠ lf ∧ a ≠ cr

/-- The line ends where its terminator does, if `next` is what follows it. A carriage return is a
terminator only if no line feed follows, and only the last line may have no terminator. -/
def EndsBefore (next line : List α) : Prop :=
  ∃ body ending, line = body ++ ending ∧ (∀ a ∈ body, Ordinary lf cr a) ∧
    (ending = [lf] ∨ ending = [cr, lf] ∨ (ending = [cr] ∧ next.head? ≠ some lf) ∨
      (ending = [] ∧ next = []))

/-- The lines of the text that they join to. -/
def AreLines : List (List α) → Prop
  | [] => True
  | line :: rest => line ≠ [] ∧ EndsBefore lf cr rest.flatten line ∧ AreLines rest

variable {lf cr}

theorem EndsBefore.cons {next line : List α} {a : α} (h : EndsBefore lf cr next line)
    (ordinary : Ordinary lf cr a) : EndsBefore lf cr next (a :: line) := by
  obtain ⟨body, ending, rfl, inside, ends⟩ := h
  exact ⟨a :: body, ending, rfl, List.forall_mem_cons.mpr ⟨ordinary, inside⟩, ends⟩

theorem isChain_append_of_ordinary {body ending : List α} (ordinary : ∀ a ∈ body, Ordinary lf cr a)
    (h : ending.IsChain (Unbroken lf cr)) : (body ++ ending).IsChain (Unbroken lf cr) := by
  induction body with
  | nil => exact h
  | cons a body ih =>
    obtain ⟨here, behind⟩ := List.forall_mem_cons.mp ordinary
    rw [List.cons_append, List.isChain_cons]
    exact ⟨fun b _ => ⟨here.1, fun same => absurd same here.2⟩, ih behind⟩

theorem EndsBefore.isChain (apart : lf ≠ cr) {next line : List α} (h : EndsBefore lf cr next line) :
    line.IsChain (Unbroken lf cr) := by
  obtain ⟨body, ending, rfl, ordinary, ends⟩ := h
  apply isChain_append_of_ordinary ordinary
  rcases ends with rfl | rfl | ⟨rfl, -⟩ | ⟨rfl, -⟩
  · exact List.isChain_singleton lf
  · exact List.isChain_pair.mpr ⟨apart.symm, fun _ => rfl⟩
  · exact List.isChain_singleton cr
  · exact List.isChain_nil

/-- Behind a line that is not the last one the text is cut. -/
theorem EndsBefore.not_unbroken {next line : List α} (h : EndsBefore lf cr next line) {a b : α}
    (last : a ∈ line.getLast?) (first : b ∈ next.head?) : ¬ Unbroken lf cr a b := by
  obtain ⟨body, ending, rfl, _, ends⟩ := h
  rintro ⟨not_feed, follows⟩
  rcases ends with rfl | rfl | ⟨rfl, no_feed⟩ | ⟨-, rfl⟩
  · simp only [List.getLast?_append, List.getLast?_singleton, Option.mem_def] at last
    exact not_feed (Option.some.inj last).symm
  · simp only [List.getLast?_append, List.getLast?_cons_cons, List.getLast?_singleton,
      Option.mem_def] at last
    exact not_feed (Option.some.inj last).symm
  · simp only [List.getLast?_append, List.getLast?_singleton, Option.mem_def] at last
    rw [follows (Option.some.inj last).symm] at first
    exact no_feed first
  · cases first

theorem endsBefore_singleton {next : List α} {a : α}
    (cut : ∀ b ∈ next.head?, ¬ Unbroken lf cr a b) : EndsBefore lf cr next [a] := by
  by_cases feed : a = lf
  · subst feed
    exact ⟨[], [a], rfl, List.forall_mem_nil _, .inl rfl⟩
  by_cases back : a = cr
  · subst back
    have no_feed : next.head? ≠ some lf := fun first => cut lf first ⟨feed, fun _ => rfl⟩
    exact ⟨[], [a], rfl, List.forall_mem_nil _, .inr (.inr (.inl ⟨rfl, no_feed⟩))⟩
  · have last : next = [] := by
      rw [← List.head?_eq_none_iff, Option.eq_none_iff_forall_not_mem]
      intro b first
      exact cut b first ⟨feed, fun same => absurd same back⟩
    exact ⟨[a], [], rfl, List.forall_mem_singleton.mpr ⟨feed, back⟩, .inr (.inr (.inr ⟨rfl, last⟩))⟩

theorem endsBefore_of_isChain {next line : List α} (chain : line.IsChain (Unbroken lf cr))
    (nonempty : line ≠ []) (cut : ∀ a ∈ line.getLast?, ∀ b ∈ next.head?, ¬ Unbroken lf cr a b) :
    EndsBefore lf cr next line := by
  induction line with
  | nil => exact absurd rfl nonempty
  | cons a line ih =>
    cases line with
    | nil => exact endsBefore_singleton (cut a rfl)
    | cons b line =>
      obtain ⟨unbroken, chain⟩ := List.isChain_cons_cons.mp chain
      by_cases back : a = cr
      · obtain rfl := unbroken.2 back
        cases line with
        | nil => exact ⟨[], [a, b], rfl, List.forall_mem_nil _, .inr (.inl (by rw [back]))⟩
        | cons c line => exact absurd rfl (List.isChain_cons_cons.mp chain).1.1
      · exact (ih chain (List.cons_ne_nil b line) cut).cons ⟨unbroken.1, back⟩

theorem AreLines.of_mem (apart : lf ≠ cr) {lines : List (List α)} (h : AreLines lf cr lines)
    {line : List α} (mem : line ∈ lines) : line ≠ [] ∧ line.IsChain (Unbroken lf cr) := by
  induction lines with
  | nil => cases mem
  | cons first rest ih =>
    obtain ⟨nonempty, ends, behind⟩ := h
    rcases List.mem_cons.mp mem with rfl | later
    · exact ⟨nonempty, ends.isChain apart⟩
    · exact ih behind later

/-- The text is cut between the two lines. -/
def Parted (lf cr : α) (line next : List α) : Prop :=
  ∃ some_line some_next, ¬ Unbroken lf cr (line.getLast some_line) (next.head some_next)

theorem AreLines.isChain_parted {lines : List (List α)} (h : AreLines lf cr lines) :
    lines.IsChain (Parted lf cr) := by
  induction lines with
  | nil => exact List.isChain_nil
  | cons line rest ih =>
    obtain ⟨nonempty, ends, behind⟩ := h
    rw [List.isChain_cons]
    refine ⟨?_, ih behind⟩
    intro next first
    cases rest with
    | nil => cases first
    | cons next rest =>
      cases first
      have some_next := behind.1
      refine ⟨nonempty, some_next, ends.not_unbroken (List.getLast_mem_getLast? nonempty) ?_⟩
      rw [List.flatten_cons, List.head?_append_of_ne_nil _ some_next]
      exact List.head_mem_head? some_next

theorem areLines_of_isChain {lines : List (List α)} (nonempty : [] ∉ lines)
    (chains : ∀ line ∈ lines, line.IsChain (Unbroken lf cr))
    (parted : lines.IsChain (Parted lf cr)) : AreLines lf cr lines := by
  induction lines with
  | nil => trivial
  | cons line rest ih =>
    obtain ⟨some_line, behind⟩ := not_or.mp (mt List.mem_cons.mpr nonempty)
    obtain ⟨chain, chains⟩ := List.forall_mem_cons.mp chains
    obtain ⟨cut, parted⟩ := List.isChain_cons.mp parted
    refine ⟨Ne.symm some_line, ?_, ih behind chains parted⟩
    apply endsBefore_of_isChain chain (Ne.symm some_line)
    intro a last b first
    cases rest with
    | nil => cases first
    | cons next rest =>
      obtain ⟨_, some_next, cut⟩ := cut next rfl
      rw [List.flatten_cons, List.head?_append_of_ne_nil _ some_next] at first
      rw [List.getLast_of_mem_getLast? last, List.head_of_mem_head? first] at cut
      exact cut

/-- A line that is not the last one ends with a terminator. -/
theorem AreLines.terminated {lines : List (List α)} (h : AreLines lf cr lines) {k : Nat}
    (hk : k + 1 < lines.length) : ∃ a ∈ lines[k].getLast?, a = lf ∨ a = cr := by
  obtain ⟨some_line, _, cut⟩ := List.isChain_iff_getElem.mp h.isChain_parted k hk
  refine ⟨_, List.getLast_mem_getLast? some_line, ?_⟩
  rw [Unbroken, not_and_or, not_not, Classical.not_imp] at cut
  exact cut.imp_right And.left

/-- Lines that are labelled are lines again: a label holds no terminator, and it keeps a carriage
return apart from a line feed at the front of the next line. -/
theorem areLines_labelled {entries : List (List α × List α)}
    (labels : ∀ e ∈ entries, e.1 ≠ [] ∧ ∀ a ∈ e.1, Ordinary lf cr a)
    (chains : ∀ e ∈ entries, e.2.IsChain (Unbroken lf cr))
    (ended : entries.Pairwise (fun e _ => ∃ a ∈ e.2.getLast?, a = lf ∨ a = cr)) :
    AreLines lf cr (entries.map (fun e => e.1 ++ e.2)) := by
  refine areLines_of_isChain ?_ ?_ ?_
  · intro empty
    obtain ⟨e, mem, nil⟩ := List.mem_map.mp empty
    exact (labels e mem).1 (List.append_eq_nil_iff.mp nil).1
  · rw [List.forall_mem_map]
    intro e mem
    exact isChain_append_of_ordinary (labels e mem).2 (chains e mem)
  · rw [List.isChain_map]
    refine (ended.imp_of_mem ?_).isChain
    rintro e f he hf ⟨a, last, terminator⟩
    have some_label := (labels f hf).1
    refine ⟨List.append_ne_nil_of_left_ne_nil (labels e he).1 _,
      List.append_ne_nil_of_left_ne_nil some_label _, ?_⟩
    have last' : a ∈ (e.1 ++ e.2).getLast? := by
      rw [List.getLast?_append, Option.mem_def.mp last]
      rfl
    rw [List.getLast_of_mem_getLast? last', List.head_append_of_ne_nil some_label]
    obtain ⟨other, _⟩ := (labels f hf).2 _ (List.head_mem some_label)
    rintro ⟨not_feed, follows⟩
    rcases terminator with feed | back
    · exact not_feed feed
    · exact other (follows back)

theorem EndsBefore.map {β : Type} {f : α → β} (inj : Function.Injective f) {next line : List α}
    (h : EndsBefore lf cr next line) : EndsBefore (f lf) (f cr) (next.map f) (line.map f) := by
  obtain ⟨body, ending, rfl, ordinary, ends⟩ := h
  refine ⟨body.map f, ending.map f, List.map_append, ?_, ?_⟩
  · rw [List.forall_mem_map]
    exact fun a mem => ⟨inj.ne (ordinary a mem).1, inj.ne (ordinary a mem).2⟩
  · rcases ends with rfl | rfl | ⟨rfl, no_feed⟩ | ⟨rfl, rfl⟩
    · exact .inl rfl
    · exact .inr (.inl rfl)
    · refine .inr (.inr (.inl ⟨rfl, ?_⟩))
      rw [List.head?_map]
      exact fun first => no_feed (Option.map_injective inj first)
    · exact .inr (.inr (.inr ⟨rfl, rfl⟩))

/-- Lines are lines in another alphabet too, if its symbols are told apart. -/
theorem AreLines.map {β : Type} {f : α → β} (inj : Function.Injective f) {lines : List (List α)}
    (h : AreLines lf cr lines) : AreLines (f lf) (f cr) (lines.map (List.map f)) := by
  induction lines with
  | nil => trivial
  | cons line rest ih =>
    obtain ⟨nonempty, ends, behind⟩ := h
    refine ⟨fun empty => nonempty (List.map_eq_nil_iff.mp empty), ?_, ih behind⟩
    rw [← List.map_flatten]
    exact ends.map inj

section Cut

variable [DecidableEq α]

theorem cutLines_eq_iff {xs : List α} {lines : List (List α)} :
    cutLines lf cr xs = lines ↔ xs = lines.flatten ∧ [] ∉ lines ∧
      (∀ line ∈ lines, line.IsChain (Unbroken lf cr)) ∧ lines.IsChain (Parted lf cr) := by
  simp only [cutLines, List.splitBy_eq_iff, decide_eq_true_eq, decide_eq_false_iff_not]
  rfl

/-- Every text is cut into lines. -/
theorem areLines_cutLines (xs : List α) : AreLines lf cr (cutLines lf cr xs) := by
  obtain ⟨_, nonempty, chains, parted⟩ := cutLines_eq_iff.mp (Eq.refl (cutLines lf cr xs))
  exact areLines_of_isChain nonempty chains parted

/-- Lines that are joined are cut apart again. -/
theorem AreLines.cutLines_flatten (apart : lf ≠ cr) {lines : List (List α)}
    (h : AreLines lf cr lines) : cutLines lf cr lines.flatten = lines :=
  cutLines_eq_iff.mpr ⟨rfl, fun empty => (h.of_mem apart empty).1 rfl,
    fun _ mem => (h.of_mem apart mem).2, h.isChain_parted⟩

end Cut

end Alphabet

section Bytes

variable (bytes : ByteArray)

/-- The lines of a byte string in their order. -/
def linesOf : List ByteArray :=
  (List.range (lineStarts bytes).size).map (lineAt bytes (lineStarts bytes))

theorem beginsLine_succ_iff (i : Nat) (h : i + 1 < bytes.size) (_ : i < bytes.size) :
    BeginsLine bytes (i + 1) h ↔ ¬ Unbroken lineFeed carriageReturn bytes[i] bytes[i + 1] := by
  unfold BeginsLine Unbroken
  simp only [Nat.add_one_ne_zero, false_or, Nat.add_sub_cancel, not_and_or, not_not,
    Classical.not_imp]

theorem lineStart_of_lt {k : Nat} (hk : k < (lineStarts bytes).size) :
    lineStart bytes (lineStarts bytes) k = (lineStarts bytes)[k] := by
  simp only [lineStart, Array.getD, hk, dif_pos]
  rfl

theorem lineStart_le_of_le {j k : Nat} (h : j ≤ k) (hk : k ≤ (lineStarts bytes).size) :
    lineStart bytes (lineStarts bytes) j ≤ lineStart bytes (lineStarts bytes) k := by
  induction k, h using Nat.le_induction with
  | base => exact Nat.le_refl _
  | succ k _ ih =>
    exact Nat.le_trans (ih (Nat.le_of_succ_le hk)) (Nat.le_of_lt (lineStart_lt_succ bytes k hk))

theorem lineStart_le_size (k : Nat) (hk : k ≤ (lineStarts bytes).size) :
    lineStart bytes (lineStarts bytes) k ≤ bytes.size := by
  have last := lineStart_le_of_le bytes hk (Nat.le_refl _)
  rwa [lineStart_size] at last

/-- Between the beginnings of two lines in a row no line begins. -/
theorem not_beginsLine_of_between {i k : Nat} (hk : k < (lineStarts bytes).size)
    (low : lineStart bytes (lineStarts bytes) k < i)
    (high : i < lineStart bytes (lineStarts bytes) (k + 1)) (h : i < bytes.size) :
    ¬ BeginsLine bytes i h := by
  intro begins
  obtain ⟨j, hj, rfl⟩ := Array.mem_iff_getElem.mp ((mem_lineStarts bytes i).mpr ⟨h, begins⟩)
  rw [← lineStart_of_lt bytes hj] at low high
  rcases Nat.lt_or_ge k j with behind | before
  · exact absurd (lineStart_le_of_le bytes behind (Nat.le_of_lt hj)) (Nat.not_le.mpr high)
  · exact absurd (lineStart_le_of_le bytes before (Nat.le_of_lt hk)) (Nat.not_le.mpr low)

theorem beginsLine_lineStart {k i : Nat} (hk : k < (lineStarts bytes).size)
    (hi : lineStart bytes (lineStarts bytes) k = i) :
    ∃ h : i < bytes.size, BeginsLine bytes i h := by
  rw [lineStart_of_lt bytes hk] at hi
  exact (mem_lineStarts bytes i).mp (hi ▸ Array.getElem_mem hk)

theorem toList_lineAt (k : Nat) :
    (lineAt bytes (lineStarts bytes) k).data.toList =
      (bytes.data.toList.drop (lineStart bytes (lineStarts bytes) k)).take
        (lineStart bytes (lineStarts bytes) (k + 1) - lineStart bytes (lineStarts bytes) k) := by
  rw [lineAt, ByteArray.data_extract, Array.toList_extract, List.extract_eq_take_drop]

theorem length_lineAt {k : Nat} (hk : k < (lineStarts bytes).size) :
    (lineAt bytes (lineStarts bytes) k).data.toList.length =
      lineStart bytes (lineStarts bytes) (k + 1) - lineStart bytes (lineStarts bytes) k := by
  have inside := lineStart_le_size bytes (k + 1) hk
  have size : bytes.data.toList.length = bytes.size := Array.length_toList
  rw [toList_lineAt, List.length_take, List.length_drop, size]
  omega

theorem getElem_lineAt {k i : Nat} (hk : k < (lineStarts bytes).size)
    (hi : i < (lineAt bytes (lineStarts bytes) k).data.toList.length) :
    ∃ h : lineStart bytes (lineStarts bytes) k + i < bytes.size,
      (lineAt bytes (lineStarts bytes) k).data.toList[i] =
        bytes[lineStart bytes (lineStarts bytes) k + i] := by
  have inside := lineStart_le_size bytes (k + 1) hk
  rw [length_lineAt bytes hk] at hi
  refine ⟨by omega, ?_⟩
  simp only [toList_lineAt, List.getElem_take, List.getElem_drop, Array.getElem_toList,
    ByteArray.getElem_eq_getElem_data]

theorem flatten_linesOf :
    ((linesOf bytes).map (fun line => line.data.toList)).flatten = bytes.data.toList := by
  have joined (n : Nat) :
      (joinLines bytes (lineStarts bytes) n).data.toList =
        (((List.range n).map (lineAt bytes (lineStarts bytes))).map
          (fun line => line.data.toList)).flatten := by
    induction n with
    | zero => rfl
    | succ n ih =>
      rw [List.range_succ, List.map_append, List.map_append, List.flatten_append, ← ih]
      simp [joinLines, List.range_succ]
  rw [linesOf, ← joined, joinLines_lineStarts]

theorem ne_nil_of_lineAt {k : Nat} (hk : k < (lineStarts bytes).size) :
    (lineAt bytes (lineStarts bytes) k).data.toList ≠ [] := by
  have grows := lineStart_lt_succ bytes k hk
  apply List.ne_nil_of_length_pos
  rw [length_lineAt bytes hk]
  omega

theorem isChain_lineAt {k : Nat} (hk : k < (lineStarts bytes).size) :
    (lineAt bytes (lineStarts bytes) k).data.toList.IsChain
      (Unbroken lineFeed carriageReturn) := by
  rw [List.isChain_iff_getElem]
  intro i hi
  obtain ⟨before, here⟩ := getElem_lineAt bytes hk (Nat.lt_of_succ_lt hi)
  obtain ⟨inside, next⟩ := getElem_lineAt bytes hk hi
  have length := length_lineAt bytes hk
  have between := not_beginsLine_of_between bytes hk
    (i := lineStart bytes (lineStarts bytes) k + i + 1) (by omega) (by omega) inside
  rw [beginsLine_succ_iff _ _ _ before, not_not] at between
  rw [here, next]
  exact between

theorem parted_lineAt {k : Nat} (hk : k + 1 < (lineStarts bytes).size) :
    Parted lineFeed carriageReturn (lineAt bytes (lineStarts bytes) k).data.toList
      (lineAt bytes (lineStarts bytes) (k + 1)).data.toList := by
  have before : k < (lineStarts bytes).size := Nat.lt_of_succ_lt hk
  have grows := lineStart_lt_succ bytes k before
  refine ⟨ne_nil_of_lineAt bytes before, ne_nil_of_lineAt bytes hk, ?_⟩
  rw [List.getLast_eq_getElem, List.head_eq_getElem]
  obtain ⟨_, last⟩ := getElem_lineAt bytes before
    (Nat.sub_one_lt_of_lt (List.length_pos_of_ne_nil (ne_nil_of_lineAt bytes before)))
  obtain ⟨_, first⟩ := getElem_lineAt bytes hk
    (List.length_pos_of_ne_nil (ne_nil_of_lineAt bytes hk))
  rw [last, first]
  have length := length_lineAt bytes before
  obtain ⟨m, hm⟩ : ∃ m, lineStart bytes (lineStarts bytes) (k + 1) = m + 1 :=
    Nat.exists_eq_add_one_of_ne_zero (by omega)
  obtain ⟨inside, begins⟩ := beginsLine_lineStart bytes hk hm
  rw [beginsLine_succ_iff _ _ _ (Nat.lt_of_succ_lt inside)] at begins
  have stop : lineStart bytes (lineStarts bytes) k +
      ((lineAt bytes (lineStarts bytes) k).data.toList.length - 1) = m := by omega
  simp only [stop, hm]
  exact begins

/-- The lines are those of the cut text. -/
theorem map_linesOf_eq_cutLines :
    (linesOf bytes).map (fun line => line.data.toList) =
      cutLines lineFeed carriageReturn bytes.data.toList := by
  refine (cutLines_eq_iff.mpr ⟨(flatten_linesOf bytes).symm, ?_, ?_, ?_⟩).symm
  · intro empty
    obtain ⟨line, mem, nil⟩ := List.mem_map.mp empty
    obtain ⟨k, hk, rfl⟩ := List.mem_map.mp mem
    exact ne_nil_of_lineAt bytes (List.mem_range.mp hk) nil
  · rw [List.forall_mem_map]
    intro line mem
    obtain ⟨k, hk, rfl⟩ := List.mem_map.mp mem
    exact isChain_lineAt bytes (List.mem_range.mp hk)
  · rw [List.isChain_iff_getElem]
    intro k hk
    simp only [linesOf, List.length_map, List.length_range] at hk
    simp only [linesOf, List.getElem_map, List.getElem_range]
    exact parted_lineAt bytes hk

end Bytes

end Excerpt.Text
