import Excerpt.File
import Excerpt.Path

/-!
# Folders

A folder of files, and what a path leads to in it. The parts of a path are
followed one after the other, and each of them is looked up in a directory: a
part that is too long for a name is an error there, while behind a missing part
or a file nothing is looked up any more. Outside of the folder only the
directories above it are known. Access to what is there is never denied.
-/

namespace Excerpt

abbrev Part := List Char

/-- Each file has the parts of its path from the folder. -/
structure Folder where
  files : List (List Part × ByteArray)

namespace Folder

/-- The longest name, in bytes. -/
def maxName : Nat := 255

/-- The longest path, in bytes. -/
def maxPath : Nat := 4095

def TooLong (part : Part) : Prop := maxName < (String.ofList part).utf8ByteSize

instance (part : Part) : Decidable (TooLong part) := by
  unfold TooLong
  infer_instance

def up : Part := ['.', '.']

/-- What stands at a place inside the folder; directories are there for the files in them. -/
def entryAt (folder : Folder) (place : List Part) : Entry :=
  match folder.files.lookup place with
  | some bytes => .file bytes
  | none => if place = [] ∨ ∃ f ∈ folder.files, place <+: f.1 then .directory else .missing

/-- Follows the parts of a path from a directory above the folder. -/
def walkOutside : List Part → Entry
  | [] => .directory
  | part :: rest =>
    if part = up then walkOutside rest else if TooLong part then .refused .nameTooLong else .missing

/-- Follows the parts of a path from a place inside the folder, whose last part comes first. -/
def walk (folder : Folder) (place : List Part) : List Part → Entry
  | [] => folder.entryAt place.reverse
  | part :: rest =>
    match folder.entryAt place.reverse with
    | .directory =>
      if part = up then
        match place with
        | [] => walkOutside rest
        | _ :: above => folder.walk above rest
      else if TooLong part then .refused .nameTooLong
      else folder.walk (part :: place) rest
    | _ => .missing

/-- What a path leads to. No name holds a null character. -/
def find (folder : Folder) (path : String) : Entry :=
  if '\x00' ∈ path.toList then .missing
  else if maxPath < path.utf8ByteSize then .refused .nameTooLong
  else if Path.root path.toList = [] then folder.walk [] (Path.parts path.toList)
  else walkOutside (Path.parts path.toList)

end Folder

end Excerpt
