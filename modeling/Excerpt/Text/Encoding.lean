import Excerpt.Fault
import Excerpt.Text.Glyph
import Excerpt.Text.Split

/-!
# Encodings

How bytes stand for characters. A byte that cannot be read as part of a
character is kept as a stray one, and encoding writes it back as it was, so
that no input loses anything. An encoding goes by several names, whose case and
punctuation do not matter. Other encodings than these are left out, so their
names are unknown.
-/

namespace Excerpt.Text

inductive Encoding where
  | utf8
  | latin1
  | ascii
  deriving DecidableEq

namespace Encoding

def all : List Encoding := [.utf8, .latin1, .ascii]

def ownName : Encoding → String
  | .utf8 => "utf_8"
  | .latin1 => "latin_1"
  | .ascii => "ascii"

def otherNames : Encoding → List String
  | .utf8 => ["cp65001", "u8", "utf", "utf8", "utf8_ucs2", "utf8_ucs4"]
  | .latin1 =>
    ["8859", "cp819", "csisolatin1", "ibm819", "iso8859", "iso8859_1", "iso_8859_1",
      "iso_8859_1_1987", "iso_ir_100", "l1", "latin", "latin1"]
  | .ascii =>
    ["646", "ansi_x3.4_1968", "ansi_x3.4_1986", "ansi_x3_4_1968", "cp367", "csascii", "ibm367",
      "iso646_us", "iso_646.irv_1991", "iso_ir_6", "us", "us_ascii"]

/-- A name in lower case, with one underscore for whatever stands between its letters, digits and
points. -/
def spelling (name : String) : String :=
  let plain := name.toList.map (fun c => if c.isAlphanum ∨ c = '.' then c.toLower else '_')
  String.ofList (['_'].intercalate ((splitAtChar '_' plain).filter (· ≠ [])))

/-- The encoding goes by the name; in all but its own name a point may stand for an underscore. -/
def GoesBy (e : Encoding) (name : String) : Prop :=
  name = e.ownName ∨ name ∈ e.otherNames ∨
    String.ofList (name.toList.map (fun c => if c = '.' then '_' else c)) ∈ e.otherNames

instance (e : Encoding) (name : String) : Decidable (e.GoesBy name) :=
  inferInstanceAs (Decidable (_ ∨ _))

def ofName (name : String) : Except Fault Encoding :=
  match all.find? (fun e => e.GoesBy (spelling name)) with
  | some e => .ok e
  | none => raise (.encodingUnknown name)

theorem ofName_eq_error {name : String} {f : Fault} (h : ofName name = .error f) :
    f = .encodingUnknown name := by
  unfold ofName at h
  split at h
  · cases h
  · rw [raise_eq_error _ (by simp [Fault.numbers])] at h
    exact (Except.error.inj h).symm

/-- Reads the characters from a place on; `done` are the glyphs before it, the last one first. -/
def decodeUtf8From (bytes : ByteArray) (i : Nat) (done : List Glyph) : List Glyph :=
  if h : i < bytes.size then
    match bytes.utf8DecodeChar? i with
    | some c => decodeUtf8From bytes (i + c.utf8Size) (.char c :: done)
    | none => decodeUtf8From bytes (i + 1) (.stray bytes[i] :: done)
  else done.reverse
termination_by bytes.size - i
decreasing_by
  · have := c.utf8Size_pos
    omega
  · omega

def decodeByte : Encoding → UInt8 → Glyph
  | .latin1, b => .char (Char.ofNat b.toNat)
  | _, b => if b < 128 then .char (Char.ofNat b.toNat) else .stray b

def decode (e : Encoding) (bytes : ByteArray) : List Glyph :=
  match e with
  | .utf8 => decodeUtf8From bytes 0 []
  | _ => bytes.data.toList.map e.decodeByte

def encodeGlyph : Encoding → Glyph → List UInt8
  | _, .stray b => [b]
  | .utf8, .char c => String.utf8EncodeChar c
  | _, .char c => [c.toNat.toUInt8]

def encode (e : Encoding) (gs : List Glyph) : List UInt8 := gs.flatMap e.encodeGlyph

end Encoding

end Excerpt.Text
