import Excerpt.Pass

/-!
# Selections

The outcome of a run: the selected lines with their numbers in ascending order,
how many lines were read, and whether reading stopped before the end of the
input. A selection can also be put together from a column of numbers and a
column of lines of the same length.
-/

namespace Excerpt

structure Selection (α : Type) where
  numbered : List (Int × α)
  total : Int
  stopped : Bool
  deriving DecidableEq

namespace Selection

variable {α : Type}

def numbers (s : Selection α) : List Int := s.numbered.map Prod.fst

def lines (s : Selection α) : List α := s.numbered.map Prod.snd

def ofPass (p : Pass α) : Selection α := ⟨p.kept.toList, p.total, p.stopped⟩

/-- Pairs two columns, which must have the same length. -/
def pair : List Int → List α → Except Fault (List (Int × α))
  | [], [] => .ok []
  | n :: ns, a :: as => (pair ns as).map ((n, a) :: ·)
  | _ :: _, [] => raise .fewerLines
  | [], _ :: _ => raise .moreLines

end Selection

end Excerpt
