import Excerpt.Json

/-!
# Reading JSON

A reader for JSON texts. It allows blanks between the parts of a text and every
escape in a string; an escaped pair of surrogates is one character. Texts with
values that `Json` does not have, such as fractions, are not read.
-/

namespace Excerpt.Json

open Text

def isSpace (c : Char) : Bool := c = ' ' ∨ c = '\t' ∨ c = '\n' ∨ c = '\r'

def skipSpace (cs : List Char) : List Char := cs.dropWhile isSpace

/-- A natural number without leading zeros. -/
def readNatural (cs : List Char) : Option (Nat × List Char) :=
  let digits := cs.takeWhile Char.isDigit
  if digits = ['0'] ∨ digits ≠ [] ∧ digits.head? ≠ some '0' then
    some (Nat.ofDigitChars 10 digits 0, cs.dropWhile Char.isDigit)
  else none

def readNumber : List Char → Option (Int × List Char)
  | '-' :: rest => (readNatural rest).map (fun p => (-p.1, p.2))
  | cs => (readNatural cs).map (fun p => (p.1, p.2))

def hexValue? (c : Char) : Option Nat :=
  if '0' ≤ c ∧ c ≤ '9' then some (c.toNat - '0'.toNat)
  else if 'a' ≤ c ∧ c ≤ 'f' then some (c.toNat - 'a'.toNat + 10)
  else if 'A' ≤ c ∧ c ≤ 'F' then some (c.toNat - 'A'.toNat + 10)
  else none

/-- The number that four hexadecimal digits write. -/
def readUnit : List Char → Option (Nat × List Char)
  | a :: b :: c :: d :: rest =>
    ([a, b, c, d].mapM hexValue?).map (fun values => (values.foldl (16 * · + ·) 0, rest))
  | _ => none

/-- The character behind a backslash and a `u`. A high surrogate needs a low one behind it. -/
def readCodePoint (cs : List Char) : Option (Char × List Char) := do
  let (unit, rest) ← readUnit cs
  if 0xD800 ≤ unit ∧ unit < 0xDC00 then
    match rest with
    | '\\' :: 'u' :: rest => do
      let (low, rest) ← readUnit rest
      if 0xDC00 ≤ low ∧ low < 0xE000 then
        some (Char.ofNat (0x10000 + 0x400 * (unit - 0xD800) + (low - 0xDC00)), rest)
      else none
    | _ => none
  else if 0xDC00 ≤ unit ∧ unit < 0xE000 then none
  else some (Char.ofNat unit, rest)

def readEscape : List Char → Option (Char × List Char)
  | '\x22' :: rest => some ('\x22', rest)
  | '\\' :: rest => some ('\\', rest)
  | '/' :: rest => some ('/', rest)
  | 'b' :: rest => some ('\x08', rest)
  | 'f' :: rest => some ('\x0c', rest)
  | 'n' :: rest => some ('\n', rest)
  | 'r' :: rest => some ('\r', rest)
  | 't' :: rest => some ('\t', rest)
  | 'u' :: rest => readCodePoint rest
  | _ => none

/-- One character of a string. -/
def readChar : List Char → Option (Char × List Char)
  | [] => none
  | c :: rest =>
    if c = '\\' then readEscape rest
    else if c = '\x22' ∨ c.toNat < 0x20 then none
    else some (c, rest)

/-- The characters of a string up to the quote that ends it. The number bounds the steps of the
reading, here and below; a text needs no more of them than it has characters. -/
def readString : Nat → List Char → Option (List Char × List Char)
  | 0, _ => none
  | steps + 1, cs =>
    if cs.head? = some '\x22' then some ([], cs.tail)
    else do
      let (c, rest) ← readChar cs
      let (s, rest) ← readString steps rest
      some (c :: s, rest)

mutual

def readValue : Nat → List Char → Option (Json × List Char)
  | 0, _ => none
  | steps + 1, cs =>
    match readNumber (skipSpace cs) with
    | some (n, rest) => some (.number n, rest)
    | none =>
      match skipSpace cs with
      | 't' :: 'r' :: 'u' :: 'e' :: rest => some (.bool true, rest)
      | 'f' :: 'a' :: 'l' :: 's' :: 'e' :: rest => some (.bool false, rest)
      | '\x22' :: rest => (readString steps rest).map (fun p => (.string p.1, p.2))
      | '[' :: rest =>
        if (skipSpace rest).head? = some ']' then some (.array [], (skipSpace rest).tail)
        else do
          let (j, rest) ← readValue steps rest
          let (js, rest) ← readItems steps rest
          some (.array (j :: js), rest)
      | '\x7b' :: rest =>
        if (skipSpace rest).head? = some '\x7d' then some (.object [], (skipSpace rest).tail)
        else do
          let (m, rest) ← readMember steps rest
          let (ms, rest) ← readMembers steps rest
          some (.object (m :: ms), rest)
      | _ => none

/-- The items behind the first, and the bracket that ends them. -/
def readItems : Nat → List Char → Option (List Json × List Char)
  | 0, _ => none
  | steps + 1, cs =>
    match skipSpace cs with
    | ']' :: rest => some ([], rest)
    | ',' :: rest => do
      let (j, rest) ← readValue steps rest
      let (js, rest) ← readItems steps rest
      some (j :: js, rest)
    | _ => none

def readMember : Nat → List Char → Option ((List Char × Json) × List Char)
  | 0, _ => none
  | steps + 1, cs =>
    match skipSpace cs with
    | '\x22' :: rest => do
      let (key, rest) ← readString steps rest
      match skipSpace rest with
      | ':' :: rest => do
        let (j, rest) ← readValue steps rest
        some ((key, j), rest)
      | _ => none
    | _ => none

/-- The members behind the first, and the brace that ends them. -/
def readMembers : Nat → List Char → Option (List (List Char × Json) × List Char)
  | 0, _ => none
  | steps + 1, cs =>
    match skipSpace cs with
    | '\x7d' :: rest => some ([], rest)
    | ',' :: rest => do
      let (m, rest) ← readMember steps rest
      let (ms, rest) ← readMembers steps rest
      some (m :: ms, rest)
    | _ => none

end

/-- The document that a text holds, with nothing but blanks around it. -/
def read (cs : List Char) : Option Json := do
  let (j, rest) ← readValue (cs.length + 1) cs
  if skipSpace rest = [] then some j else none

end Excerpt.Json
