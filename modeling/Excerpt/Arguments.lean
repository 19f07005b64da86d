import Excerpt.Text.Digit
import Excerpt.Text.Quoted

/-!
# Command-line arguments

An argument that starts with a dash is an option, unless it is a dash alone, a
negative number, or unknown and holds a space; the first `--` makes everything
after it a word. Long options may be cut short if one option is left, short
ones may share a dash. The first run of words gives the specification and the
file; words after it, and unknown options, are left over and refused at the end.

What shares a dash with a short option and is no option itself is refused as a
text that the option does not take. Later releases of the option reader that
these rules are taken from leave it over as an unknown option instead.
-/

namespace Excerpt

open Text

inductive Switch where
  | help
  | json
  | number
  | examples
  | verbose
  | version
  deriving DecidableEq

/-- What the arguments ask for. -/
structure Request where
  switches : List Switch
  spec : Option String
  file : Option String
  deriving DecidableEq

/-- Why arguments give no request: a text about the program is asked for, or they are refused. -/
inductive Detour where
  | help
  | version
  | misuse (message : String)
  deriving DecidableEq

namespace Switch

def all : List Switch := [.help, .json, .number, .examples, .verbose, .version]

def names : Switch → List String
  | .help => ["-h", "--help"]
  | .json => ["--json"]
  | .number => ["--number", "-n"]
  | .examples => ["--examples"]
  | .verbose => ["--verbose", "-v"]
  | .version => ["--version"]

/-- Every name with its switch, in the order in which the switches are declared. -/
def table : List (String × Switch) := all.flatMap (fun s => s.names.map (fun n => (n, s)))

def ofName? (name : String) : Option Switch := table.lookup name

end Switch

namespace Arguments

/-- An argument by its form: `attached` is what follows the name in the same argument. -/
inductive Form where
  | word (text : String)
  | marker
  | option (name : String) (switch : Switch) (attached : Option String)
  | unknown (text : String)
  deriving DecidableEq

def isMarker (arg : String) : Bool := arg = "--"

/-- A dash before digits, which may hold one point followed by digits; one line feed may follow. -/
def looksNegative (cs : List Char) : Bool :=
  match cs with
  | '-' :: rest =>
    let body := if rest.getLast? = some '\n' then rest.dropLast else rest
    match body.dropWhile isDigit with
    | [] => body ≠ []
    | '.' :: fraction => fraction ≠ [] ∧ fraction.all isDigit
    | _ => false
  | _ => false

/-- The part before the first equals sign and the part after it. -/
def splitAttached (cs : List Char) : String × Option String :=
  match cs.dropWhile (· ≠ '=') with
  | [] => (String.ofList cs, none)
  | _ :: rest => (String.ofList (cs.takeWhile (· ≠ '=')), some (String.ofList rest))

/-- The options that an argument may stand for when it is the full name of none. -/
def candidates (cs : List Char) : List (String × Switch × Option String) :=
  match cs with
  | '-' :: '-' :: _ =>
    let (start, attached) := splitAttached cs
    (Switch.table.filter (fun e => start.toList.isPrefixOf e.1.toList)).map
      (fun e => (e.1, e.2, attached))
  | '-' :: c :: rest =>
    (Switch.table.filter (fun e => e.1 = String.ofList ['-', c])).map
      (fun e => (e.1, e.2, some (String.ofList rest)))
  | _ => []

/-- The form of an argument that starts with a dash and is no full name. -/
def dashedForm (arg : String) : Except Detour Form :=
  let (start, attached) := splitAttached arg.toList
  match attached.bind (fun _ => Switch.ofName? start) with
  | some s => .ok (.option start s attached)
  | none =>
    match candidates arg.toList with
    | [(name, s, attached)] => .ok (.option name s attached)
    | [] =>
      if looksNegative arg.toList ∨ ' ' ∈ arg.toList then .ok (.word arg) else .ok (.unknown arg)
    | several =>
      .error (.misuse ("ambiguous option: " ++ arg ++ " could match " ++
        ", ".intercalate (several.map Prod.fst)))

def form (arg : String) : Except Detour Form :=
  if arg.toList.head? ≠ some '-' ∨ arg = "-" then .ok (.word arg)
  else
    match Switch.ofName? arg with
    | some s => .ok (.option arg s none)
    | none => dashedForm arg

def forms (args : List String) : Except Detour (List Form) := do
  let before ← (args.takeWhile (!isMarker ·)).mapM form
  match args.dropWhile (!isMarker ·) with
  | [] => return before
  | _ :: after => return before ++ .marker :: after.map .word

def Form.isWord : Form → Bool
  | .word _ | .marker => true
  | _ => false

/-- The text of an argument that can be left over. -/
def Form.leftover? : Form → Option String
  | .word text | .unknown text => some text
  | .marker => some "--"
  | .option .. => none

/-- The arguments that one value may take: a word with the marker before or after it. -/
def takeValue (fs : List Form) : List Form × List Form :=
  let before := fs.takeWhile (· = .marker)
  match fs.dropWhile (· = .marker) with
  | .word text :: rest =>
    (before ++ .word text :: rest.takeWhile (· = .marker), rest.dropWhile (· = .marker))
  | rest => (before, rest)

/-- The value in what `takeValue` took; the first `--` there only marks. -/
def valueOf (fs : List Form) : Option String := ((fs.filterMap Form.leftover?).erase "--").head?

/-- Options that share a dash: each takes the next letter as an option until no text is attached. -/
def cluster (s : Switch) : List Char → Except Detour (List Switch)
  | [] => .ok [s]
  | c :: rest =>
    match Switch.ofName? (String.ofList ['-', c]) with
    | some next => (cluster next rest).map (s :: ·)
    | none =>
      .error (.misuse ("argument " ++ "/".intercalate s.names ++ ": ignored explicit argument " ++
        quoted (String.ofList (c :: rest))))

def isLong (name : String) : Bool := ['-', '-'].isPrefixOf name.toList

/-- The switches that an argument turns on. -/
def switchesOf : Form → Except Detour (List Switch)
  | .option _ s none => .ok [s]
  | .option name s (some text) =>
    if isLong name ∨ text = "" then
      .error (.misuse ("argument " ++ "/".intercalate s.names ++ ": ignored explicit argument " ++
        quoted text))
    else cluster s text.toList
  | _ => .ok []

/-- Help and version act as soon as they are met. -/
def act (switches : List Switch) : Except Detour (List Switch) :=
  match switches.find? (fun s => s = .help ∨ s = .version) with
  | some .help => .error .help
  | some .version => .error .version
  | _ => .ok switches

def read (args : List String) : Except Detour Request := do
  let fs ← forms args
  let (specForms, rest) := takeValue (fs.dropWhile (!·.isWord))
  let (fileForms, rest) := takeValue rest
  let others := fs.takeWhile (!·.isWord) ++ rest
  let switches ← others.mapM (fun f => (switchesOf f).bind act)
  match others.filterMap Form.leftover? with
  | [] => return ⟨switches.flatten, valueOf specForms, valueOf fileForms⟩
  | left => .error (.misuse ("unrecognized arguments: " ++ " ".intercalate left))

end Arguments

end Excerpt
