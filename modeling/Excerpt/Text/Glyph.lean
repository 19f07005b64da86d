/-!
# Glyphs

What a text file is made of once it is decoded: characters, and bytes that are
part of no character. Keeping the stray bytes makes decoding lossless. Glyphs
are text only if no stray byte is among them.
-/

namespace Excerpt.Text

inductive Glyph where
  | char (c : Char)
  | stray (byte : UInt8)
  deriving DecidableEq

def Glyph.char? : Glyph → Option Char
  | .char c => some c
  | .stray _ => none

/-- The characters, if there is no stray byte. -/
def chars? (gs : List Glyph) : Option (List Char) := gs.mapM Glyph.char?

theorem chars?_eq_some_iff (gs : List Glyph) (cs : List Char) :
    chars? gs = some cs ↔ gs = cs.map .char := by
  induction gs generalizing cs with
  | nil => cases cs <;> simp [chars?]
  | cons g rest ih =>
    cases g with
    | stray b => cases cs <;> simp [chars?, Glyph.char?]
    | char c =>
      cases cs with
      | nil =>
        cases h : rest.mapM Glyph.char? <;> simp [chars?, Glyph.char?, h]
      | cons d ds =>
        have := ih ds
        simp only [chars?] at this
        simpa [chars?, Glyph.char?, Option.bind_eq_some_iff, this] using and_comm

end Excerpt.Text
