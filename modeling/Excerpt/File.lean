import Excerpt.Run
import Excerpt.Text.Lines

/-!
# Runs over files

What a path stands for, and the run of a specification over it. A rejected
specification is answered before the file or the encoding is looked at. The
lines of a file keep their own terminators. A file that could be opened is
taken to be read to its end.

The lines of an input stream are those of its text, in which every terminator
has become a line feed: that the stream translates its terminators, and that
its bytes are a text, is assumed of it.
-/

namespace Excerpt

open Text

/-- Why the system refuses to look up a path or to open a file. -/
inductive Refusal where
  | nameTooLong
  | accessDenied
  | other (reason : String)
  deriving DecidableEq

def Refusal.fault : Refusal → Fault
  | .nameTooLong => .nameTooLong
  | .accessDenied => .accessDenied
  | .other reason => .sourceFailed reason

@[simp] theorem Refusal.raise_fault {α : Type} (why : Refusal) :
    (raise why.fault : Except Fault α) = .error why.fault := by
  cases why <;> exact raise_eq_error _ (by simp [fault, Fault.numbers])

@[simp] theorem Refusal.fault_ne_rejected (why : Refusal) (r : Rejection) :
    why.fault ≠ .rejected r := by
  cases why <;> simp [fault]

/-- What a path leads to: nothing, a place that may not be looked up, a directory or anything else
that is no file, a file that may not be opened, or one with its bytes. -/
inductive Entry where
  | missing
  | refused (why : Refusal)
  | directory
  | locked (why : Refusal)
  | file (bytes : ByteArray)

/-- Whether there is a file at the path, which need not be one that can be opened. -/
def Entry.isFile : Entry → Except Fault Bool
  | .missing | .directory => .ok false
  | .refused why => raise why.fault
  | .locked _ | .file _ => .ok true

/-- The lines of a text, each of them taken out of it when it is pulled. -/
def textSource (e : Encoding) (bytes : ByteArray) : Source Line :=
  let starts := lineStarts bytes
  Source.counted (fun k => ⟨e, lineAt bytes starts k⟩) starts.size

def Entry.source (encoding : String) : Entry → Except Fault (Source Line)
  | .missing => raise .fileMissing
  | .refused why | .locked why => raise why.fault
  | .directory => raise .fileIsDirectory
  | .file bytes => (Encoding.ofName encoding).map (fun e => textSource e bytes)

def Run.ofEntry (spec : String) (encoding : String) (entry : Entry) : Run Line :=
  match Spec.parse spec with
  | .error f => ⟨.error f, [], Source.ofList []⟩
  | .ok terms =>
    match entry.source encoding with
    | .error f => ⟨.error f, [], Source.ofList []⟩
    | .ok source => Run.ofTerms terms source

/-- The lines of an input stream, in which every terminator arrives as a line feed. -/
def inputSource (text : String) : Source Line :=
  textSource .utf8 (String.ofList (unifyLineEnds text.toList)).toUTF8

end Excerpt
