import Excerpt.Text.Split

/-!
# Paths

The form in which a path is looked up and shown: parts that are empty or a
single dot are dropped, and so are slashes at the end. Exactly two slashes at
the front are kept, more count as one. A path without parts is a dot.
-/

namespace Excerpt.Path

open Text

def parts (cs : List Char) : List (List Char) :=
  (splitAtChar '/' cs).filter (fun part => part ≠ [] ∧ part ≠ ['.'])

def root (cs : List Char) : List Char :=
  match (cs.takeWhile (· = '/')).length with
  | 0 => []
  | 2 => ['/', '/']
  | _ => ['/']

def normal (path : String) : String :=
  let shown := root path.toList ++ ['/'].intercalate (parts path.toList)
  if shown = [] then "." else String.ofList shown

end Excerpt.Path
