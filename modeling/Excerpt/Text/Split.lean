/-!
# Splitting at a character

The pieces of a text between the occurrences of one character, empty pieces
included. There is always at least one piece.
-/

namespace Excerpt.Text

def splitAtChar (sep : Char) : List Char → List (List Char)
  | [] => [[]]
  | c :: rest =>
    if c = sep then [] :: splitAtChar sep rest
    else
      match splitAtChar sep rest with
      | [] => [[c]]
      | piece :: pieces => (c :: piece) :: pieces

theorem splitAtChar_ne_nil (sep : Char) (cs : List Char) : splitAtChar sep cs ≠ [] := by
  cases cs with
  | nil => simp [splitAtChar]
  | cons c rest =>
    unfold splitAtChar
    split
    · simp
    · split <;> simp

theorem splitAtChar_append (sep : Char) (xs ys : List Char) :
    splitAtChar sep (xs ++ sep :: ys) = splitAtChar sep xs ++ splitAtChar sep ys := by
  induction xs with
  | nil => simp [splitAtChar]
  | cons c rest ih =>
    by_cases hc : c = sep
    · simp [splitAtChar, hc, ih]
    · cases hs : splitAtChar sep rest with
      | nil => exact absurd hs (splitAtChar_ne_nil sep rest)
      | cons piece pieces => simp [splitAtChar, hc, ih, hs]

end Excerpt.Text
