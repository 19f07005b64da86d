import Excerpt.Text.Encoding

/-!
# Lines of a text

A line ends with a line feed, a carriage return, or the two together as one
terminator; no other character ends a line. Each line keeps its terminator and
the last line may have none, so the lines of a text join to the text. In every
encoding the two bytes stand for these characters alone: a text is cut as bytes,
and a line is decoded only where it is shown.
-/

namespace Excerpt.Text

structure Line where
  encoding : Encoding
  bytes : ByteArray

instance : DecidableEq Line := fun a b =>
  decidable_of_iff (a.encoding = b.encoding ∧ a.bytes.data = b.bytes.data) (by
    rw [Line.mk.injEq, ByteArray.ext_iff])

def Line.glyphs (l : Line) : List Glyph := l.encoding.decode l.bytes

/-- The characters of a line without stray bytes. -/
def Line.chars? (l : Line) : Option (List Char) := Text.chars? l.glyphs

def lineFeed : UInt8 := 10

def carriageReturn : UInt8 := 13

/-- A line begins at a place that is the first one or is behind a whole terminator. -/
def BeginsLine (bytes : ByteArray) (i : Nat) (h : i < bytes.size) : Prop :=
  i = 0 ∨ bytes[i - 1] = lineFeed ∨ bytes[i - 1] = carriageReturn ∧ bytes[i] ≠ lineFeed

instance (bytes : ByteArray) (i : Nat) (h : i < bytes.size) : Decidable (BeginsLine bytes i h) := by
  unfold BeginsLine
  infer_instance

/-- The places before `n` at which a line begins, in ascending order. -/
def lineStartsBefore (bytes : ByteArray) (n : Nat) (hn : n ≤ bytes.size) : Array Nat :=
  n.fold (fun i h starts =>
    if BeginsLine bytes i (Nat.lt_of_lt_of_le h hn) then starts.push i else starts) #[]

def lineStarts (bytes : ByteArray) : Array Nat :=
  lineStartsBefore bytes bytes.size (Nat.le_refl _)

theorem lineStartsBefore_succ (bytes : ByteArray) (n : Nat) (hn : n + 1 ≤ bytes.size) :
    lineStartsBefore bytes (n + 1) hn =
      if BeginsLine bytes n hn then (lineStartsBefore bytes n (by omega)).push n
      else lineStartsBefore bytes n (by omega) := by
  simp only [lineStartsBefore, Nat.fold_succ]

theorem mem_lineStartsBefore (bytes : ByteArray) (n : Nat) (hn : n ≤ bytes.size) (i : Nat) :
    i ∈ lineStartsBefore bytes n hn ↔ ∃ h : i < n, BeginsLine bytes i (by omega) := by
  induction n with
  | zero => simp [lineStartsBefore]
  | succ n ih =>
    have ih := ih (by omega)
    rw [lineStartsBefore_succ]
    by_cases hi : i = n
    · subst hi
      split <;> simp_all
    · have : i < n + 1 ↔ i < n := by omega
      split <;> simp [ih, hi, this]

theorem pairwise_lineStartsBefore (bytes : ByteArray) (n : Nat) (hn : n ≤ bytes.size) :
    (lineStartsBefore bytes n hn).toList.Pairwise (· < ·) := by
  induction n with
  | zero => simp [lineStartsBefore]
  | succ n ih =>
    have ih := ih (by omega)
    rw [lineStartsBefore_succ]
    split
    · rw [Array.toList_push, List.pairwise_append]
      refine ⟨ih, by simp, ?_⟩
      intro i hi j hj
      obtain ⟨hin, _⟩ := (mem_lineStartsBefore bytes n (by omega) i).mp (by simpa using hi)
      simp at hj
      omega
    · exact ih

theorem mem_lineStarts (bytes : ByteArray) (i : Nat) :
    i ∈ lineStarts bytes ↔ ∃ h : i < bytes.size, BeginsLine bytes i h :=
  mem_lineStartsBefore bytes bytes.size (Nat.le_refl _) i

/-- Where the line with `k` lines before it begins; behind the last line the text ends. -/
def lineStart (bytes : ByteArray) (starts : Array Nat) (k : Nat) : Nat :=
  starts.getD k bytes.size

def lineAt (bytes : ByteArray) (starts : Array Nat) (k : Nat) : ByteArray :=
  bytes.extract (lineStart bytes starts k) (lineStart bytes starts (k + 1))

theorem lineStart_lt_succ (bytes : ByteArray) (k : Nat) (hk : k < (lineStarts bytes).size) :
    lineStart bytes (lineStarts bytes) k < lineStart bytes (lineStarts bytes) (k + 1) := by
  simp only [lineStart, Array.getD, hk, dif_pos]
  split
  · next hk' =>
    have := List.pairwise_iff_getElem.mp
      (pairwise_lineStartsBefore bytes bytes.size (Nat.le_refl _)) k (k + 1)
      (by simpa [lineStarts] using hk) (by simpa [lineStarts] using hk') (by omega)
    simpa [lineStarts] using this
  · exact ((mem_lineStarts bytes _).mp (Array.getElem_mem hk)).1

theorem lineStart_zero (bytes : ByteArray) : lineStart bytes (lineStarts bytes) 0 = 0 := by
  by_cases hs : bytes.size = 0
  · simp only [lineStart, Array.getD]
    split
    · have := ((mem_lineStarts bytes _).mp (Array.getElem_mem ‹_›)).1
      omega
    · exact hs
  · have hm : 0 ∈ lineStarts bytes := (mem_lineStarts bytes 0).mpr ⟨by omega, .inl rfl⟩
    obtain ⟨j, hj, h0⟩ := Array.mem_iff_getElem.mp hm
    cases j with
    | zero => simpa [lineStart, Array.getD, hj] using h0
    | succ j =>
      have := lineStart_lt_succ bytes j (by omega)
      simp [lineStart, Array.getD, hj, h0] at this

theorem lineStart_size (bytes : ByteArray) :
    lineStart bytes (lineStarts bytes) (lineStarts bytes).size = bytes.size := by
  simp [lineStart, Array.getD]

/-- The first `n` lines of a text, one after the other. -/
def joinLines (bytes : ByteArray) (starts : Array Nat) (n : Nat) : ByteArray :=
  (List.range n).foldl (fun text k => text ++ lineAt bytes starts k) ByteArray.empty

theorem joinLines_eq_extract (bytes : ByteArray) (n : Nat) (hn : n ≤ (lineStarts bytes).size) :
    joinLines bytes (lineStarts bytes) n =
      bytes.extract 0 (lineStart bytes (lineStarts bytes) n) := by
  induction n with
  | zero => simp [joinLines, lineStart_zero]
  | succ n ih =>
    have hlt := lineStart_lt_succ bytes n (by omega)
    have ih := ih (by omega)
    simp only [joinLines, List.range_succ, List.foldl_append, List.foldl_cons, List.foldl_nil]
      at ih ⊢
    rw [ih, lineAt, ByteArray.extract_append_extract]
    congr 1
    omega

/-- The lines of a text join to the text. -/
theorem joinLines_lineStarts (bytes : ByteArray) :
    joinLines bytes (lineStarts bytes) (lineStarts bytes).size = bytes := by
  rw [joinLines_eq_extract bytes _ (Nat.le_refl _), lineStart_size, ByteArray.extract_zero_size]

/-- Turns every terminator into a line feed; `done` is what precedes, its last character first. -/
def unifyFrom (done : List Char) : List Char → List Char
  | [] => done.reverse
  | '\r' :: '\n' :: rest => unifyFrom ('\n' :: done) rest
  | '\r' :: rest => unifyFrom ('\n' :: done) rest
  | c :: rest => unifyFrom (c :: done) rest

def unifyLineEnds (cs : List Char) : List Char := unifyFrom [] cs

end Excerpt.Text
