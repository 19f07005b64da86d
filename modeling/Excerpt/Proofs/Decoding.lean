import Mathlib.Data.List.Basic
import Excerpt.Text.Encoding

/-!
# What decoding reads

`Decodes` says which glyphs a byte string has: from its front on, the code of a
character is that character, and a byte at which no code begins is a stray one.
Every byte string has exactly one such reading, `decode` finds it, and encoding
gives the bytes back. A byte below 128 is a code of its own, so a text can be
cut on either side of it and both parts are read as before.
-/

namespace Excerpt.Text.Encoding

/-- The characters that the encoding can write. -/
def Has : Encoding → Char → Prop
  | utf8, _ => True
  | latin1, c => c.toNat < 256
  | ascii, c => c.toNat < 128

def code (e : Encoding) (c : Char) : List UInt8 := e.encodeGlyph (.char c)

theorem code_ne_nil (e : Encoding) (c : Char) : e.code c ≠ [] := by
  cases e with
  | utf8 => exact String.utf8EncodeChar_ne_nil
  | latin1 => exact List.cons_ne_nil _ _
  | ascii => exact List.cons_ne_nil _ _

/-- In a code of several bytes none is below 128. -/
theorem utf8EncodeChar_of_low {c : Char} {b : UInt8} (mem : b ∈ String.utf8EncodeChar c)
    (low : b < 128) : String.utf8EncodeChar c = [b] := by
  have high (n : Nat) (h : 128 ≤ n) (h' : n < 256) : b ≠ UInt8.ofNat n := by
    rintro rfl
    rw [UInt8.lt_iff_toNat_lt, UInt8.toNat_ofNat_of_lt' h'] at low
    exact absurd low (Nat.not_lt.mpr h)
  rw [String.utf8EncodeChar] at mem ⊢
  split
  · rw [if_pos (by assumption), List.mem_singleton] at mem
    rw [mem]
  · rw [if_neg (by assumption)] at mem
    exfalso
    split at mem
    · simp only [List.mem_cons, List.not_mem_nil, or_false] at mem
      rcases mem with same | same
      all_goals exact high _ (by omega) (by omega) same
    · split at mem
      · simp only [List.mem_cons, List.not_mem_nil, or_false] at mem
        rcases mem with same | same | same
        all_goals exact high _ (by omega) (by omega) same
      · simp only [List.mem_cons, List.not_mem_nil, or_false] at mem
        rcases mem with same | same | same | same
        all_goals exact high _ (by omega) (by omega) same

theorem code_of_low (e : Encoding) {c : Char} {b : UInt8} (mem : b ∈ e.code c) (low : b < 128) :
    e.code c = [b] := by
  cases e with
  | utf8 => exact utf8EncodeChar_of_low mem low
  | latin1 => exact congrArg (fun x => [x]) (List.mem_singleton.mp mem).symm
  | ascii => exact congrArg (fun x => [x]) (List.mem_singleton.mp mem).symm

theorem toNat_ofNat_of_lt {n : Nat} (h : n < 256) : (Char.ofNat n).toNat = n := by
  have valid : n.isValidChar := .inl (by omega)
  rw [Char.ofNat, dif_pos valid]
  rfl

/-- A byte below 128 is the code of the character with its number. -/
theorem code_ofNat_of_low (e : Encoding) {b : UInt8} (low : b < 128) :
    e.Has (Char.ofNat b.toNat) ∧ e.code (Char.ofNat b.toNat) = [b] := by
  have number := toNat_ofNat_of_lt b.toNat_lt
  have below : b.toNat < 128 := UInt8.lt_iff_toNat_lt.mp low
  cases e with
  | utf8 =>
    refine ⟨trivial, ?_⟩
    change String.utf8EncodeChar _ = _
    rw [String.utf8EncodeChar, if_pos]
    · change [UInt8.ofNat (Char.ofNat b.toNat).toNat] = [b]
      rw [number, UInt8.ofNat_toNat]
    · change (Char.ofNat b.toNat).toNat ≤ 127
      omega
  | latin1 =>
    refine ⟨by rw [Has, number]; omega, ?_⟩
    change [(Char.ofNat b.toNat).toNat.toUInt8] = [b]
    rw [number]
    exact congrArg (fun x => [x]) UInt8.ofNat_toNat
  | ascii =>
    refine ⟨by rw [Has, number]; omega, ?_⟩
    change [(Char.ofNat b.toNat).toNat.toUInt8] = [b]
    rw [number]
    exact congrArg (fun x => [x]) UInt8.ofNat_toNat

theorem toList_extract (bytes : ByteArray) (i : Nat) :
    (bytes.extract i bytes.size).data.toList = bytes.data.toList.drop i := by
  rw [ByteArray.data_extract, Array.toList_extract, List.extract_eq_take_drop,
    List.take_of_length_le (by rw [List.length_drop]; exact Nat.le_refl _)]

theorem utf8DecodeChar?_eq_some_iff (bytes : ByteArray) (i : Nat) (c : Char) :
    bytes.utf8DecodeChar? i = some c ↔ utf8.code c <+: bytes.data.toList.drop i := by
  rw [ByteArray.utf8DecodeChar?_eq_utf8DecodeChar?_extract, ← toList_extract]
  constructor
  · intro found
    obtain ⟨rest, split⟩ := ByteArray.exists_of_utf8DecodeChar?_eq_some found
    refine ⟨rest.data.toList, ?_⟩
    rw [split, ByteArray.data_append, Array.toList_append, List.toList_data_toByteArray]
    rfl
  · rintro ⟨rest, split⟩
    have split' : bytes.extract i bytes.size = [c].utf8Encode ++ rest.toByteArray := by
      rw [ByteArray.ext_iff, ← Array.toList_inj, ← split, ByteArray.data_append,
        Array.toList_append, List.utf8Encode_singleton, List.toList_data_toByteArray,
        List.toList_data_toByteArray]
      rfl
    rw [split', List.utf8DecodeChar?_utf8Encode_singleton_append]

/-- At most one code begins at a byte. -/
theorem eq_of_code_prefix (e : Encoding) {c d : Char} {bytes : List UInt8} (hc : e.Has c)
    (hd : e.Has d) (first : e.code c <+: bytes) (second : e.code d <+: bytes) : c = d := by
  have single (h : c.toNat < 256) (h' : d.toNat < 256)
      (first : [c.toNat.toUInt8] <+: bytes) (second : [d.toNat.toUInt8] <+: bytes) : c = d := by
    obtain ⟨rest, rfl⟩ := first
    obtain ⟨rest', same⟩ := second
    have equal := congrArg UInt8.toNat (List.cons.inj same).1
    rw [UInt8.toNat_ofNat_of_lt' h, UInt8.toNat_ofNat_of_lt' h'] at equal
    exact (Char.toNat_inj.mp equal).symm
  cases e with
  | utf8 =>
    rw [← bytes.toList_data_toByteArray] at first second
    have found := (utf8DecodeChar?_eq_some_iff bytes.toByteArray 0 c).mpr first
    rw [(utf8DecodeChar?_eq_some_iff bytes.toByteArray 0 d).mpr second] at found
    exact (Option.some.inj found).symm
  | latin1 => exact single hc hd first second
  | ascii => exact single (Nat.lt_trans hc (by decide)) (Nat.lt_trans hd (by decide)) first second

/-- A code lies on one side of a cut next to a byte below 128: one that reached over the cut would
have both of the bytes next to it, and no code of two bytes or more has such a byte. -/
theorem code_prefix_of_append (e : Encoding) {c : Char} {bytes bytes' : List UInt8}
    (some_bytes : bytes ≠ []) (apart : ∀ a ∈ bytes.getLast?, ∀ b ∈ bytes'.head?, a < 128 ∨ b < 128)
    (begins : e.code c <+: bytes ++ bytes') : e.code c <+: bytes := by
  rcases List.prefix_or_prefix_of_prefix begins (List.prefix_append bytes bytes') with
    inside | ⟨beyond, split⟩
  · exact inside
  · cases beyond with
    | nil =>
      rw [List.append_nil] at split
      exact split ▸ List.prefix_rfl
    | cons b beyond =>
      rw [← split, List.prefix_append_right_inj] at begins
      obtain ⟨rest, rfl⟩ := begins
      have low := apart (bytes.getLast some_bytes) (List.getLast_mem_getLast? some_bytes) b rfl
      have two : 2 ≤ (e.code c).length := by
        have one := List.length_pos_of_ne_nil some_bytes
        rw [← split, List.length_append, List.length_cons]
        omega
      exfalso
      rcases low with low | low
      · have mem : bytes.getLast some_bytes ∈ e.code c :=
          split ▸ List.mem_append_left _ (List.getLast_mem some_bytes)
        rw [e.code_of_low mem low] at two
        exact absurd two (Nat.not_succ_le_self 1)
      · have mem : b ∈ e.code c := split ▸ List.mem_append_right _ List.mem_cons_self
        rw [e.code_of_low mem low] at two
        exact absurd two (Nat.not_succ_le_self 1)

/-- The glyphs of a byte string, read from its front. -/
inductive Decodes (e : Encoding) : List UInt8 → List Glyph → Prop
  | nil : Decodes e [] []
  | char {c : Char} {bytes : List UInt8} {gs : List Glyph} :
      e.Has c → Decodes e bytes gs → Decodes e (e.code c ++ bytes) (.char c :: gs)
  | stray {b : UInt8} {bytes : List UInt8} {gs : List Glyph} :
      (∀ c, e.Has c → ¬ e.code c <+: b :: bytes) → Decodes e bytes gs →
        Decodes e (b :: bytes) (.stray b :: gs)

theorem decodes_decodeUtf8From (bytes : ByteArray) (i : Nat) (done : List Glyph) :
    ∃ gs, decodeUtf8From bytes i done = done.reverse ++ gs ∧
      Decodes utf8 (bytes.data.toList.drop i) gs := by
  fun_induction decodeUtf8From bytes i done with
  | case1 i done h c found ih =>
    obtain ⟨gs, decoded, reading⟩ := ih
    obtain ⟨rest, split⟩ := (utf8DecodeChar?_eq_some_iff bytes i c).mp found
    refine ⟨.char c :: gs, by rw [decoded, List.reverse_cons, List.append_assoc]; rfl, ?_⟩
    have behind : bytes.data.toList.drop (i + c.utf8Size) = rest := by
      rw [← List.drop_drop, ← split]
      exact List.drop_left' (String.length_utf8EncodeChar c)
    rw [← split]
    exact .char trivial (behind ▸ reading)
  | case2 i done h none_found ih =>
    obtain ⟨gs, decoded, reading⟩ := ih
    refine ⟨.stray bytes[i] :: gs, by rw [decoded, List.reverse_cons, List.append_assoc]; rfl, ?_⟩
    have here : bytes.data.toList.drop i = bytes[i] :: bytes.data.toList.drop (i + 1) :=
      List.drop_eq_getElem_cons h
    rw [here]
    refine .stray ?_ reading
    intro c _ begins
    rw [← here, ← utf8DecodeChar?_eq_some_iff, none_found] at begins
    cases begins
  | case3 i done h =>
    refine ⟨[], by rw [List.append_nil], ?_⟩
    rw [List.drop_eq_nil_of_le (Nat.le_of_not_lt h)]
    exact .nil

theorem decodes_decodeByte {e : Encoding} (single : e = latin1 ∨ e = ascii) (bytes : List UInt8) :
    Decodes e bytes (bytes.map e.decodeByte) := by
  induction bytes with
  | nil => exact .nil
  | cons b bytes ih =>
    have number := toNat_ofNat_of_lt b.toNat_lt
    rw [List.map_cons]
    rcases single with rfl | rfl
    · have code : latin1.code (Char.ofNat b.toNat) = [b] := by
        change [(Char.ofNat b.toNat).toNat.toUInt8] = [b]
        rw [number]
        exact congrArg (fun x => [x]) UInt8.ofNat_toNat
      have has : latin1.Has (Char.ofNat b.toNat) := by
        rw [Has, number]
        exact b.toNat_lt
      have reading := Decodes.char has ih
      rwa [code] at reading
    · simp only [decodeByte]
      split
      · rename_i low
        obtain ⟨has, code⟩ := code_ofNat_of_low ascii low
        have reading := Decodes.char has ih
        rwa [code] at reading
      · rename_i high
        refine .stray ?_ ih
        rintro c has ⟨rest, split⟩
        apply high
        have same : c.toNat.toUInt8 = b := (List.cons.inj split).1
        rw [← same, UInt8.lt_iff_toNat_lt, UInt8.toNat_ofNat_of_lt' (Nat.lt_trans has (by decide))]
        exact has

/-- Every byte string is read in the way that `decode` finds. -/
theorem decodes_decode (e : Encoding) (bytes : ByteArray) :
    Decodes e bytes.data.toList (e.decode bytes) := by
  cases e with
  | utf8 =>
    obtain ⟨gs, decoded, reading⟩ := decodes_decodeUtf8From bytes 0 []
    rw [decode, decoded]
    exact reading
  | latin1 => exact decodes_decodeByte (.inl rfl) _
  | ascii => exact decodes_decodeByte (.inr rfl) _

theorem decodes_of_low (e : Encoding) (bytes : List UInt8) (low : ∀ b ∈ bytes, b < 128) :
    Decodes e bytes (bytes.map (fun b => .char (Char.ofNat b.toNat))) := by
  induction bytes with
  | nil => exact .nil
  | cons b bytes ih =>
    obtain ⟨here, behind⟩ := List.forall_mem_cons.mp low
    obtain ⟨has, code⟩ := e.code_ofNat_of_low here
    have reading := Decodes.char has (ih behind)
    rwa [code] at reading

namespace Decodes

variable {e : Encoding} {bytes bytes' : List UInt8} {gs gs' : List Glyph}

theorem encode_eq (h : Decodes e bytes gs) : e.encode gs = bytes := by
  induction h with
  | nil => rfl
  | @char c bytes gs _ _ ih => rw [← ih]; rfl
  | @stray b bytes gs _ _ ih => rw [← ih]; rfl

theorem exists_of_code_prefix (h : Decodes e bytes gs) {c : Char} (has : e.Has c)
    (begins : e.code c <+: bytes) :
    ∃ rest gs', bytes = e.code c ++ rest ∧ gs = .char c :: gs' ∧ Decodes e rest gs' := by
  cases h with
  | nil => exact absurd (List.prefix_nil.mp begins) (e.code_ne_nil c)
  | @char d rest gs' has' reading =>
    obtain rfl := e.eq_of_code_prefix has' has (List.prefix_append _ _) begins
    exact ⟨rest, gs', rfl, rfl, reading⟩
  | stray unread _ => exact absurd begins (unread c has)

theorem unique (h : Decodes e bytes gs) (h' : Decodes e bytes gs') : gs = gs' := by
  induction h generalizing gs' with
  | nil =>
    generalize empty : ([] : List UInt8) = bytes at h'
    cases h' with
    | nil => rfl
    | @char c => exact absurd (List.append_eq_nil_iff.mp empty.symm).1 (e.code_ne_nil c)
    | stray => cases empty
  | @char c bytes gs has _ ih =>
    obtain ⟨rest, gs'', split, rfl, reading⟩ :=
      h'.exists_of_code_prefix has (List.prefix_append _ _)
    rw [List.append_cancel_left split] at ih
    rw [ih reading]
  | @stray b bytes gs unread _ ih =>
    generalize front : b :: bytes = all at h'
    cases h' with
    | nil => cases front
    | @char c rest gs'' has _ =>
      rw [front] at unread
      exact absurd (List.prefix_append _ _) (unread c has)
    | stray _ reading =>
      cases front
      rw [ih reading]

/-- Two texts with a byte below 128 between them are read one after the other. -/
theorem append (h : Decodes e bytes gs) (h' : Decodes e bytes' gs')
    (apart : ∀ a ∈ bytes.getLast?, ∀ b ∈ bytes'.head?, a < 128 ∨ b < 128) :
    Decodes e (bytes ++ bytes') (gs ++ gs') := by
  induction h with
  | nil => exact h'
  | @char c bytes gs has _ ih =>
    rw [List.append_assoc]
    refine .char has (ih ?_)
    intro a last
    apply apart a
    rw [List.getLast?_append, Option.mem_def.mp last]
    rfl
  | @stray b bytes gs unread _ ih =>
    refine .stray ?_ (ih ?_)
    · intro c has begins
      exact unread c has (e.code_prefix_of_append (List.cons_ne_nil b bytes) apart begins)
    · intro a last
      apply apart a
      rw [List.getLast?_cons, Option.mem_def.mp last]
      rfl

end Decodes

end Excerpt.Text.Encoding
