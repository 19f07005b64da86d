import Excerpt.Text.Quoted

/-!
# JSON documents

Values and their written form: two blanks of indentation for each level, one
member or item a line, and `[]` for an array without items. Quotes, backslashes
and control characters are escaped; all other characters stand for themselves.
-/

namespace Excerpt

inductive Json where
  | bool (b : Bool)
  | number (n : Int)
  | string (s : List Char)
  | array (items : List Json)
  | object (members : List (List Char × Json))

namespace Json

open Text

def escape (c : Char) : List Char :=
  if c = '\x22' ∨ c = '\\' then ['\\', c]
  else if c = '\x08' then ['\\', 'b']
  else if c = '\t' then ['\\', 't']
  else if c = '\n' then ['\\', 'n']
  else if c = '\x0c' then ['\\', 'f']
  else if c = '\r' then ['\\', 'r']
  else if c.toNat < 0x20 then '\\' :: 'u' :: hexDigits 4 c.toNat
  else [c]

def writeString (s : List Char) : List Char := '\x22' :: (s.flatMap escape ++ ['\x22'])

/-- A new line at a level of nesting. -/
def newLine (level : Nat) : List Char := '\n' :: List.replicate (2 * level) ' '

mutual

def write (level : Nat) : Json → List Char
  | .bool true => ['t', 'r', 'u', 'e']
  | .bool false => ['f', 'a', 'l', 's', 'e']
  | .number n => (toString n).toList
  | .string s => writeString s
  | .array [] => ['[', ']']
  | .array (j :: js) =>
    '[' :: (newLine (level + 1) ++ (write (level + 1) j ++
      (writeItems (level + 1) js ++ (newLine level ++ [']']))))
  | .object [] => ['\x7b', '\x7d']
  | .object ((key, j) :: ms) =>
    '\x7b' :: (newLine (level + 1) ++ (writeString key ++ (':' :: ' ' :: (write (level + 1) j ++
      (writeMembers (level + 1) ms ++ (newLine level ++ ['\x7d']))))))

/-- The items after the first. -/
def writeItems (level : Nat) : List Json → List Char
  | [] => []
  | j :: js => ',' :: (newLine level ++ (write level j ++ writeItems level js))

/-- The members after the first. -/
def writeMembers (level : Nat) : List (List Char × Json) → List Char
  | [] => []
  | (key, j) :: ms =>
    ',' :: (newLine level ++ (writeString key ++ (':' :: ' ' :: (write level j ++
      writeMembers level ms))))

end

end Json

end Excerpt
