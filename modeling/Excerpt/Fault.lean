import Excerpt.Numeral
import Excerpt.Rejection

/-!
# Faults

Everything that can break a run off. A rejected specification is an answer to
the user; the other faults say that a value is out of its domain, that a number
is too long, or that the input failed. A fault whose message would have to
write an overlong number is raised as `tooLongToWrite` instead, so that every
raised fault has a message.
-/

namespace Excerpt

inductive Fault where
  | rejected (r : Rejection)
  | tooLongToRead (digits : Nat)
  | tooLongToWrite
  | zeroBound (anchor limit : Int)
  | stepBelowOne (step : Int)
  | startDescends (anchor limit : Int)
  | endAscends (anchor limit : Int)
  | endBeforeStart (anchor limit : Int)
  | totalUnknown
  | capacityNegative (capacity : Int)
  | capacityTooLarge
  | offsetOutside (offset : Int) (size : Nat)
  | slotEmpty
  | sourceFailed (reason : String)
  | sourceUnending
  | fewerLines
  | moreLines
  | encodingUnknown (name : String)
  | fileMissing
  | fileIsDirectory
  | nameTooLong
  | accessDenied
  | lineUnprintable
  | textUnencodable
  deriving DecidableEq

namespace Fault

/-- The numbers that the message writes and that may have any size. -/
def numbers : Fault → List Int
  | zeroBound a l | startDescends a l | endAscends a l | endBeforeStart a l => [a, l]
  | stepBelowOne n | capacityNegative n | offsetOutside n _ => [n]
  | _ => []

def limitText : String :=
  "Exceeds the limit (" ++ toString Numeral.maxDigits ++ " digits) for integer string conversion"

def message : Fault → String
  | rejected r => r.message
  | tooLongToRead digits =>
    limitText ++ ": value has " ++ toString digits
      ++ " digits; use sys.set_int_max_str_digits() to increase the limit"
  | tooLongToWrite => limitText ++ "; use sys.set_int_max_str_digits() to increase the limit"
  | zeroBound a l => "line numbers must be nonzero, got " ++ toString a ++ ".." ++ toString l
  | stepBelowOne s => "step must be >= 1, got " ++ toString s
  | startDescends a l => "positive bounds must be ordered, got " ++ toString a ++ ".." ++ toString l
  | endAscends a l => "negative bounds must be ordered, got " ++ toString a ++ ".." ++ toString l
  | endBeforeStart a l =>
    "mixed bounds must put the positive one first, got " ++ toString a ++ ".." ++ toString l
  | totalUnknown => "total is required to position an end-anchored term"
  | capacityNegative n => "capacity must be >= 0, got " ++ toString n
  | capacityTooLarge => "cannot fit 'int' into an index-sized integer"
  | offsetOutside k size =>
    "buffer offset " ++ toString k ++ " out of range 0.." ++ toString ((size : Int) - 1)
  | slotEmpty => "buffer slot is empty"
  | sourceFailed reason => reason
  | sourceUnending => "the input has no end and no line of it is the last one needed"
  | fewerLines => "zip() argument 2 is shorter than argument 1"
  | moreLines => "zip() argument 2 is longer than argument 1"
  | encodingUnknown name => "unknown encoding: " ++ name
  | fileMissing => "no such file"
  | fileIsDirectory => "the file is a directory"
  | nameTooLong => "the file name is too long"
  | accessDenied => "access to the file is denied"
  | lineUnprintable => "the line holds a byte that is no text"
  | textUnencodable => "the text holds a byte that is no text"

end Fault

def raise {α : Type} (f : Fault) : Except Fault α :=
  .error (if ∀ n ∈ f.numbers, Numeral.Writable n then f else .tooLongToWrite)

theorem raise_eq_error {α : Type} (f : Fault) (h : ∀ n ∈ f.numbers, Numeral.Writable n) :
    (raise f : Except Fault α) = .error f := by
  simp only [raise, if_pos h]

theorem raise_ne_ok {α : Type} (f : Fault) (a : α) : raise f ≠ .ok a := by
  simp [raise]

/-- Reads a run of digits, each of which counts towards the limit. -/
def Numeral.read (digits : List Char) : Except Fault Nat :=
  if maxDigits < digits.length then raise (.tooLongToRead digits.length) else .ok (value digits)

theorem Numeral.read_eq_ok_iff (digits : List Char) (n : Nat) :
    Numeral.read digits = .ok n ↔ digits.length ≤ maxDigits ∧ value digits = n := by
  unfold Numeral.read
  split
  · simp [raise_ne_ok]
    omega
  · simp
    omega

/-- Writes a number, each digit of whose magnitude counts towards the limit. -/
def Numeral.write (n : Int) : Except Fault String :=
  if Writable n then .ok (toString n) else raise .tooLongToWrite

end Excerpt
