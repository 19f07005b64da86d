import Excerpt.Arguments
import Excerpt.File
import Excerpt.Guide
import Excerpt.Json
import Excerpt.Path

/-!
# The command

What the program writes for its arguments, the files it can see and its input.
Lines go to the output raw, numbered or as one JSON document; reports and the
log go beside it. A rejected specification and a missing file end with exit
code 1; any other fault gets out, after what had been written before it. A path
that may not be looked up gets out before the specification is looked at, a file
that may not be opened only after it has been read.
-/

namespace Excerpt

open Text

/-- What the program can read: the files by their paths, and the text of its input. An input with
bytes that are no text is not among them. -/
structure Inputs where
  entry : String → Entry
  input : String

/-- What is written beside the output. -/
inductive Notice where
  | log (e : Event)
  | report (text : String)

structure Outcome where
  exit : Except Fault Nat
  output : String
  notices : List Notice

/-- A log record shows the time at which it was made. -/
def Notice.text (clock : String) : Notice → String
  | .log e => clock ++ " [DEBUG] " ++ e.text ++ "\n"
  | .report text => text

def Outcome.reports (clock : String) (o : Outcome) : String :=
  String.join (o.notices.map (Notice.text clock))

namespace Command

/-- Writes lines after what has been written. A line that is no text is not written, but its number
is. -/
def writeLines (number : Bool) (written : String) : List (Int × Line) → String × Option Fault
  | [] => (written, none)
  | (n, line) :: rest =>
    let written := if number then written ++ toString n ++ "\t" else written
    match line.chars? with
    | none => (written, some .lineUnprintable)
    | some cs => writeLines number (written ++ String.ofList cs) rest

def lineDocument (entry : Int × List Char) : Json :=
  .object [("line".toList, .number entry.1), ("text".toList, .string entry.2)]

def document (spec : String) (s : Selection Line) (lines : List (Int × List Char)) : Json :=
  .object [("spec".toList, .string spec.toList), ("total_lines".toList, .number s.total),
    ("stopped_at_ceiling".toList, .bool s.stopped),
    ("lines".toList, .array (lines.map lineDocument))]

/-- The numbered lines as text, if all of them are. -/
def textLines (lines : List (Int × Line)) : Option (List (Int × List Char)) :=
  lines.mapM (fun e => e.2.chars?.map (fun cs => (e.1, cs)))

/-- The output for a selection, and the fault that it ends with. -/
def present (r : Request) (spec : String) (s : Selection Line) : String × Option Fault :=
  if .json ∈ r.switches then
    match textLines s.numbered with
    | none => ("", some .textUnencodable)
    | some lines => (String.ofList ((document spec s lines).write 0 ++ ['\n']), none)
  else writeLines (.number ∈ r.switches) "" s.numbered

/-- Log records are made only if they are asked for. -/
def logOf (r : Request) (events : List Event) : List Notice :=
  if .verbose ∈ r.switches then events.map .log else []

def failure (message : String) : Notice := .report ("Error: " ++ message ++ "\n")

def finish (r : Request) (spec : String) (run : Run Line) (before : List Event) : Outcome :=
  match run.outcome with
  | .error (.rejected rejection) =>
    ⟨.ok 1, "", logOf r (before ++ run.events) ++ [failure rejection.message]⟩
  | .error f => ⟨.error f, "", logOf r (before ++ run.events)⟩
  | .ok s =>
    let selected := Event.selected s.lines.length s.total s.stopped
    let (output, fault) := present r spec s
    ⟨fault.elim (.ok 0) .error, output, logOf r (before ++ run.events ++ [selected])⟩

/-- The path of the file that is read; without one the input is read. -/
def filePath (r : Request) : Option String := (r.file.map Path.normal).filter (· ≠ "-")

def select (inputs : Inputs) (r : Request) (spec : String) : Outcome :=
  match filePath r with
  | none =>
    finish r spec (Run.ofSpec spec (inputSource inputs.input)) [.readingInput]
  | some path =>
    match (inputs.entry path).isFile with
    | .error f => ⟨.error f, "", []⟩
    | .ok false => ⟨.ok 1, "", [failure ("input file not found: " ++ path)]⟩
    | .ok true => finish r spec (Run.ofEntry spec "utf-8" (inputs.entry path)) []

def misuse (message : String) : Outcome := ⟨.ok 2, "", [.report (Guide.misuse message)]⟩

def run (inputs : Inputs) (args : List String) : Outcome :=
  match Arguments.read args with
  | .error .help => ⟨.ok 0, Guide.help, []⟩
  | .error .version => ⟨.ok 0, Guide.program ++ " " ++ Guide.version ++ "\n", []⟩
  | .error (.misuse message) => misuse message
  | .ok r =>
    if .examples ∈ r.switches then ⟨.ok 0, Guide.listing, []⟩
    else
      match r.spec with
      | none => misuse "the following arguments are required: spec"
      | some spec => select inputs r spec

/-- What has to be read before the outcome for the arguments is known: nothing, a file, or so many
lines of the input. -/
inductive Demand where
  | nothing
  | file (path : String)
  | input (ceiling : Option Int)
  deriving DecidableEq

def demand (args : List String) : Demand :=
  match Arguments.read args with
  | .error _ => .nothing
  | .ok r =>
    if .examples ∈ r.switches then .nothing
    else
      match r.spec, filePath r with
      | none, _ => .nothing
      | some _, some path => .file path
      | some spec, none => ((Spec.parse spec).toOption.map Plan.ceilingFor).elim .nothing .input

end Command

end Excerpt
