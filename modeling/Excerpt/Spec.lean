import Excerpt.Term.Reader
import Excerpt.Text.Split

/-!
# Specifications

A specification is a list of terms between commas. Blanks around the whole and
around each piece do not count, and a blank specification names every line. The
first piece that is no term decides the answer; the pieces after it are not
looked at.
-/

namespace Excerpt.Spec

open Text

/-- The pieces between the commas, without the blanks around them. -/
def pieces (cs : List Char) : List (List Char) := (splitAtChar ',' (strip cs)).map strip

def readTerms (cs : List Char) : Except Fault (List Term) :=
  if strip cs = [] then .ok [Term.all] else (pieces cs).mapM Term.read

def parse (text : String) : Except Fault (List Term) := readTerms text.toList

end Excerpt.Spec
