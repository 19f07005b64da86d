import Std.Time
import Excerpt.Command

/-!
# The program

Reads what the command demands, and writes its outcome. Input lines are read
one by one and no more of them than can matter. Everything that is decided is
decided by the command; this module only moves text.
-/

namespace Excerpt.Program

/-- Reads lines until the ceiling or the end; `text` and `count` are what has been read. -/
partial def readInput (stream : IO.FS.Stream) (ceiling : Option Int) (text : String)
    (count : Int) : IO String := do
  let line ← stream.getLine
  if line.isEmpty then return text
  else if Plan.Reached ceiling (count + 1) then return text ++ line
  else readInput stream ceiling (text ++ line) (count + 1)

/-- The number of the system's error for too many links on a path. -/
def tooManyLinks : UInt32 := -40

/-- The number of the system's error for a name or a path that is too long. -/
def nameTooLong : UInt32 := -36

/-- The error says that the path leads to nothing. -/
def saysMissing : IO.Error → Bool
  | .noFileOrDirectory .. | .inappropriateType .. => true
  | .invalidArgument _ code _ => code = tooManyLinks
  | _ => false

def refusal : IO.Error → Refusal
  | .permissionDenied .. => .accessDenied
  | .invalidArgument _ code details =>
    if code = nameTooLong then .nameTooLong else .other details
  | e => .other e.toString

def contents (path : String) : IO Entry := do
  try return .file (← IO.FS.readBinFile path)
  catch e => return .locked (refusal e)

def entry (path : String) : IO Entry := do
  try
    match (← (System.mkFilePath [path]).metadata).type with
    | .file => contents path
    | _ => return .directory
  catch e => return if saysMissing e then .missing else .refused (refusal e)

def inputs (args : List String) : IO Inputs := do
  match Command.demand args with
  | .nothing => return ⟨fun _ => .missing, ""⟩
  | .file path =>
    let found ← entry path
    return ⟨fun _ => found, ""⟩
  | .input ceiling =>
    return ⟨fun _ => .missing, ← readInput (← IO.getStdin) ceiling "" 0⟩

def clock : IO String := do
  return (← Std.Time.PlainTime.now).toTime24Hour

end Excerpt.Program

open Excerpt in
def main (args : List String) : IO UInt32 := do
  let outcome := Command.run (← Program.inputs args) args
  (← IO.getStdout).putStr outcome.output
  (← IO.getStderr).putStr (outcome.reports (← Program.clock))
  match outcome.exit with
  | .ok code => return code.toUInt32
  | .error f =>
    IO.eprintln f.message
    return 1
