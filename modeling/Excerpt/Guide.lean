import Excerpt.Text.Quoted

/-!
# The guide to specifications

What the program says about itself: its name and version, a summary, how it is
called, the meaning of a specification in prose, and examples. An example gives the length
of a sample input and the lines that its specification selects there.
-/

namespace Excerpt

structure Example where
  spec : String
  summary : String
  lineCount : Int
  expected : List Int

/-- The lines `line 1`, `line 2` and so on. -/
def sampleLine (before : Nat) : String := "line " ++ toString (before + 1) ++ "\n"

def sampleInput (lineCount : Int) : List String := (List.range lineCount.toNat).map sampleLine

namespace Guide

def program : String := "linerange"

def version : String := "0.1.0"

def summary : String := "Retrieve line ranges from a text stream in a single pass"

def description : String :=
  "A comma-separated list of line numbers (\"N\") or line ranges (\"N1..N2\" or\n" ++
  "\"N1-N2\", or \"N1+M\" which means N2 is set to N1+M), where N, N1, and N2 are\n" ++
  "line numbers. Line numbers begin at 1; a negative number counts from the end\n" ++
  "(-1 is the last line, -2 the second last, and so on). N1..N2 is the same as\n" ++
  "N2..N1. Any term may end with \"/S\" to keep only every S-th line of the range,\n" ++
  "counted from its first bound; a bare \"/S\" applies to the whole input. An\n" ++
  "empty spec selects every line.\n"

def usage : String :=
  "usage: linerange [-h] [--json] [--number] [--examples] [--verbose] [--version]\n" ++
  "                 [spec] [file]\n"

def help : String :=
  usage ++ "\n" ++ summary ++ ".\n\n" ++
  "positional arguments:\n" ++
  "  spec           Line range specification (e.g. '1-10', '-5..-1', '2..-1/3').\n" ++
  "  file           Input file. Reads standard input when omitted or '-'.\n" ++
  "\n" ++
  "options:\n" ++
  "  -h, --help     show this help message and exit\n" ++
  "  --json         Emit a JSON document with line numbers instead of raw lines.\n" ++
  "  --number, -n   Prefix each output line with its line number and a tab.\n" ++
  "  --examples     Show example specifications and exit.\n" ++
  "  --verbose, -v  Verbose logging\n" ++
  "  --version      show program's version number and exit\n" ++
  "\n" ++ description

/-- What is said of arguments that cannot be followed. -/
def misuse (message : String) : String :=
  usage ++ program ++ ": error: " ++ message ++ "\n"

def examples : List Example :=
  [⟨"3", "Third line", 10, [3]⟩,
   ⟨"1-5", "Lines 1 to 5", 10, [1, 2, 3, 4, 5]⟩,
   ⟨"1 .. 5", "Lines 1 to 5, '..' is a synonym for '-'", 10, [1, 2, 3, 4, 5]⟩,
   ⟨"5..1", "N1..N2 is the same as N2..N1", 10, [1, 2, 3, 4, 5]⟩,
   ⟨"1-2, 8 - 9", "Lines 1-2 as well as 8-9", 10, [1, 2, 8, 9]⟩,
   ⟨"3+0", "N1+M means N1..(N1+M); third line only", 10, [3]⟩,
   ⟨"3+2", "Third to fifth line", 10, [3, 4, 5]⟩,
   ⟨"-3+2", "Third last to last line", 10, [8, 9, 10]⟩,
   ⟨"-3+1", "Third last to second last line", 10, [8, 9]⟩,
   ⟨"-5..-1", "Fifth last to last line", 10, [6, 7, 8, 9, 10]⟩,
   ⟨"-1..-5", "Fifth last to last line, either order", 10, [6, 7, 8, 9, 10]⟩,
   ⟨"5..-3", "Fifth line to third last", 10, [5, 6, 7, 8]⟩,
   ⟨"-3..5", "Fifth line to third last, either order", 10, [5, 6, 7, 8]⟩,
   ⟨"/3", "Every third line", 9, [3, 6, 9]⟩,
   ⟨"2..-1/3", "Every third line from line 2 onward", 9, [4, 7]⟩,
   ⟨"-1..-6/2", "Every second line counting back from the end", 10, [5, 7, 9]⟩,
   ⟨"1-10,5-15", "Overlapping ranges select each line once", 20,
     [1, 2, 3, 4, 5, 6, 7, 8, 9, 10, 11, 12, 13, 14, 15]⟩,
   ⟨"", "Empty spec selects everything", 4, [1, 2, 3, 4]⟩]

/-- One line for each example, the summaries in one column. -/
def listing : String :=
  String.join (examples.map (fun e =>
    let spec := Text.quoted e.spec
    "  " ++ spec ++ String.ofList (List.replicate (14 - spec.length) ' ') ++ " " ++ e.summary ++
      "\n"))

end Guide

end Excerpt
