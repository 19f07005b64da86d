import Excerpt.Text.Blank
import Excerpt.Text.Digit

/-!
# The written shape of a term

A term is written as one or two bounds, a step after a slash, or both; blanks
may stand around a bound, a separator and the slash. A sign that could also be
a separator is one exactly where a separator may stand: after a bound. Each
reader here takes what it reads off the front of a text and returns the rest.
-/

namespace Excerpt

open Text

inductive Sign where
  | plus
  | minus
  deriving DecidableEq

structure Bound where
  sign : Option Sign
  digits : List Char
  deriving DecidableEq

inductive Separator where
  | dots
  | dash
  | plus
  deriving DecidableEq

/-- The parts of a written term, before any number is read. -/
structure Shape where
  bounds : Option (Bound × Option (Separator × Bound))
  step : Option (List Char)
  deriving DecidableEq

def readDigits (cs : List Char) : Option (List Char × List Char) :=
  if cs.takeWhile isDigit = [] then none else some (cs.takeWhile isDigit, cs.dropWhile isDigit)

theorem readDigits_append (cs ds rest : List Char) (h : readDigits cs = some (ds, rest)) :
    ds ++ rest = cs := by
  unfold readDigits at h
  split at h
  · simp at h
  · cases h
    exact List.takeWhile_append_dropWhile

theorem isDigit_of_readDigits (cs ds rest : List Char) (h : readDigits cs = some (ds, rest)) :
    ds ≠ [] ∧ ∀ c ∈ ds, isDigit c := by
  unfold readDigits at h
  split at h
  · simp at h
  · rename_i ne
    cases h
    exact ⟨ne, List.all_eq_true.mp List.all_takeWhile⟩

def readSign : List Char → Option Sign × List Char
  | '+' :: rest => (some .plus, rest)
  | '-' :: rest => (some .minus, rest)
  | cs => (none, cs)

def readBound (cs : List Char) : Option (Bound × List Char) :=
  let (sign, rest) := readSign cs
  (readDigits rest).map (fun (digits, rest) => (⟨sign, digits⟩, rest))

def readSeparator : List Char → Option (Separator × List Char)
  | '.' :: '.' :: rest => some (.dots, rest)
  | '-' :: rest => some (.dash, rest)
  | '+' :: rest => some (.plus, rest)
  | _ => none

/-- After a separator a bound must follow. -/
def readSecond (cs : List Char) : Option (Option (Separator × Bound) × List Char) :=
  match readSeparator cs with
  | none => some (none, cs)
  | some (sep, rest) =>
    (readBound (skipBlank rest)).map (fun (b, rest) => (some (sep, b), skipBlank rest))

def readBounds (cs : List Char) :
    Option (Option (Bound × Option (Separator × Bound)) × List Char) :=
  match readBound cs with
  | none => some (none, cs)
  | some (first, rest) =>
    (readSecond (skipBlank rest)).map (fun (second, rest) => (some (first, second), rest))

/-- The step is the last part, so nothing may be left after it. -/
def readStep : List Char → Option (Option (List Char))
  | [] => some none
  | '/' :: rest =>
    (readDigits (skipBlank rest)).bind (fun (digits, rest) =>
      if skipBlank rest = [] then some (some digits) else none)
  | _ => none

/-- A text of blanks alone has a shape without parts. -/
def Shape.read (cs : List Char) : Option Shape :=
  (readBounds (skipBlank cs)).bind (fun (bounds, rest) =>
    (readStep rest).map (fun step => ⟨bounds, step⟩))

end Excerpt
