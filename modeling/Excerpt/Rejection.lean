/-!
# Rejected terms

Why a term of a specification cannot be understood. A rejection carries the
term as it was written, without the blanks around it, and its cause; the code
and the message are functions of the two.
-/

namespace Excerpt

inductive Rejection.Cause where
  | malformed
  | zeroLine
  | zeroStep
  | negativeOffset (offset : Int)
  deriving DecidableEq

structure Rejection where
  cause : Rejection.Cause
  term : String
  deriving DecidableEq

namespace Rejection

def code (r : Rejection) : String :=
  match r.cause with
  | .malformed => "invalid_term_syntax"
  | .zeroLine => "zero_line_number"
  | .zeroStep | .negativeOffset _ => "invalid_step"

def message (r : Rejection) : String :=
  match r.cause with
  | .malformed => "Invalid line number/range specification '" ++ r.term ++ "'"
  | .zeroLine => "Invalid line number 0 in range specification '" ++ r.term ++ "'"
  | .zeroStep => "Invalid step 0 in range specification '" ++ r.term ++ "'"
  | .negativeOffset offset =>
    "Negative offset " ++ toString offset ++ " after '+' in range specification '" ++ r.term ++ "'"

end Rejection

end Excerpt
