import Mathlib.Data.String.Basic
import Excerpt.Folder
import Excerpt.Proofs.Arguments
import Excerpt.Proofs.Input

/-!
# The log and the failures

A log shows how the command works and changes nothing else: without it the same
is written, the command ends in the same way, and what is left beside the output
are the reports. A failure is one report and no output. It is met before the
specification is read if a file is asked for and none is there; a path that may
not be looked up is met there as well, but gets out as a fault.
-/

namespace Excerpt

open Text

/-- A record of the log, and no report. -/
def Notice.IsLog : Notice → Prop
  | .log _ => True
  | .report _ => False

instance : DecidablePred Notice.IsLog
  | .log _ => isTrue trivial
  | .report _ => isFalse id

/-- The outcome with the records of the log taken out. -/
def Outcome.withoutLog (o : Outcome) : Outcome :=
  { o with notices := o.notices.filter (fun n => ¬ n.IsLog) }

theorem Entry.source_ne_rejected (entry : Entry) (encoding : String) (r : Rejection) :
    entry.source encoding ≠ .error (.rejected r) := by
  cases entry with
  | missing | directory => simp [source, raise, Fault.numbers]
  | refused why | locked why => simp [source]
  | file bytes =>
    cases named : Text.Encoding.ofName encoding with
    | ok e => simp [source, named, Except.map]
    | error f => simp [source, named, Except.map, Text.Encoding.ofName_eq_error named]

namespace Run

variable {α : Type}

theorem outcome_ofSpec_eq_rejected_iff (spec : String) (s : Source α) (rejection : Rejection) :
    (ofSpec spec s).outcome = .error (.rejected rejection) ↔
      Spec.parse spec = .error (.rejected rejection) := by
  constructor
  · intro h
    rcases outcome_error_cases h with ⟨r, same, rejected⟩ | ⟨unending, -⟩ | raised
    · rwa [same]
    · cases unending
    · cases raised
  · intro rejected
    exact outcome_ofSpec_of_error rejected s

/-- The specification is read before the file is opened, so no file hides its rejection. -/
theorem outcome_ofEntry_eq_rejected_iff (spec encoding : String) (entry : Entry)
    (rejection : Rejection) :
    (ofEntry spec encoding entry).outcome = .error (.rejected rejection) ↔
      Spec.parse spec = .error (.rejected rejection) := by
  cases parsed : Spec.parse spec with
  | error f => simp [ofEntry, parsed]
  | ok terms =>
    cases opened : entry.source encoding with
    | error f =>
      have other := entry.source_ne_rejected encoding rejection
      rw [opened] at other
      simpa [ofEntry, parsed, opened] using other
    | ok source =>
      rw [← parsed, ← outcome_ofSpec_eq_rejected_iff spec source, ofSpec_of_ok parsed]
      simp [ofEntry, parsed, opened]

end Run

section Name

variable {name : String} (single : '/' ∉ name.toList)

include single

theorem Path.root_of_name : root name.toList = [] := by
  cases spelled : name.toList with
  | nil => rfl
  | cons c cs =>
    have other : c ≠ '/' := by
      rintro rfl
      exact single (by simp [spelled])
    simp [root, other]

variable (long : Folder.maxName < name.utf8ByteSize)

include long

omit single in
theorem Folder.toList_ne_of_long {cs : List Char}
    (short : (String.ofList cs).utf8ByteSize ≤ maxName) : name.toList ≠ cs := by
  rintro rfl
  rw [String.ofList_toList] at short
  exact absurd long (Nat.not_lt.mpr short)

theorem Path.parts_of_name : parts name.toList = [name.toList] := by
  have filled : name.toList ≠ [] := Folder.toList_ne_of_long long (by decide)
  have other : name.toList ≠ ['.'] := Folder.toList_ne_of_long long (by decide)
  rw [parts, splitAtChar_of_not_mem single]
  simp [filled, other]

theorem Path.normal_of_name : normal name = name := by
  have filled : name.toList ≠ [] := Folder.toList_ne_of_long long (by decide)
  rw [normal, root_of_name single, parts_of_name single long]
  simp [filled]

/-- A name that is too long is an error in every directory. -/
theorem Folder.find_of_long_name {folder : Folder} (top : folder.entryAt [] = .directory)
    (shown : '\x00' ∉ name.toList) : folder.find name = .refused .nameTooLong := by
  have other : name.toList ≠ up := toList_ne_of_long long (by decide)
  have tooLong : TooLong name.toList := by rwa [TooLong, String.ofList_toList]
  rw [find, if_neg shown]
  split
  · rfl
  · rw [if_pos (Path.root_of_name single), Path.parts_of_name single long, walk, List.reverse_nil,
      top]
    exact (if_neg other).trans (if_pos tooLong)

end Name

namespace Command

/-- The requests ask for the same, but the first one for no log. -/
structure Quieter (r r' : Request) : Prop where
  json : .json ∈ r.switches ↔ .json ∈ r'.switches
  number : .number ∈ r.switches ↔ .number ∈ r'.switches
  path : filePath r = filePath r'
  quiet : .verbose ∉ r.switches

theorem filter_logOf (r : Request) (events : List Event) :
    (logOf r events).filter (fun n => ¬ n.IsLog) = [] := by
  rw [List.filter_eq_nil_iff, logOf]
  split
  · rw [List.forall_mem_map]
    intro e _
    simp [Notice.IsLog]
  · exact List.forall_mem_nil _

section Quieter

variable {r r' : Request} (h : Quieter r r')

include h

/-- The reports of a run are those of the run with a log. -/
theorem Quieter.finish_eq (spec : String) (run : Run Line) (before : List Event) :
    finish r spec run before = (finish r' spec run before).withoutLog := by
  have logs := logOf_of_quiet h.quiet
  have erased := filter_logOf r'
  unfold finish Outcome.withoutLog
  cases run.outcome with
  | ok s => simp only [logs, erased, present_congr h.json h.number]
  | error f =>
    cases f with
    | rejected rejection =>
      have report : [failure rejection.message].filter (fun n => ¬ n.IsLog) =
          [failure rejection.message] := rfl
      simp only [logs, List.filter_append, erased, report]
    | _ => simp only [logs, erased]

theorem Quieter.select_eq (inputs : Inputs) (spec : String) :
    select inputs r spec = (select inputs r' spec).withoutLog := by
  rw [select, select, ← h.path]
  cases filePath r with
  | none => exact h.finish_eq spec _ _
  | some path =>
    dsimp only
    cases (inputs.entry path).isFile with
    | error f => rfl
    | ok there =>
      cases there with
      | false => rfl
      | true => exact h.finish_eq spec _ _

end Quieter

section Failures

variable {r : Request} {inputs : Inputs} {spec : String}

theorem failure_not_found (path : String) :
    failure ("input file not found: " ++ path) =
      .report ("Error: input file not found: " ++ path ++ "\n") := by
  rw [failure, ← String.append_assoc]
  rfl

theorem finish_of_rejected (quiet : .verbose ∉ r.switches) {run : Run Line} {rejection : Rejection}
    (h : run.outcome = .error (.rejected rejection)) (before : List Event) :
    finish r spec run before = ⟨.ok 1, "", [failure rejection.message]⟩ := by
  simp [finish, h, logOf_of_quiet quiet]

theorem exit_finish_eq_one_iff (run : Run Line) (before : List Event) :
    (finish r spec run before).exit = .ok 1 ↔
      ∃ rejection, run.outcome = .error (.rejected rejection) := by
  unfold finish
  cases run.outcome with
  | ok s => cases h : (present r spec s).2 <;> simp [h]
  | error f => cases f <;> simp

/-- There is a file, if one is asked for. -/
def Found (inputs : Inputs) (r : Request) : Prop :=
  ∀ path, filePath r = some path → (inputs.entry path).isFile = .ok true

/-- What is found is run over, and the run is rejected if the specification is. -/
theorem select_of_found (found : Found inputs r) (spec : String) :
    ∃ run before, select inputs r spec = finish r spec run before ∧
      ∀ rejection, run.outcome = .error (.rejected rejection) ↔
        Spec.parse spec = .error (.rejected rejection) := by
  cases named : filePath r with
  | none =>
    refine ⟨_, _, by rw [select, named], ?_⟩
    exact Run.outcome_ofSpec_eq_rejected_iff spec _
  | some path =>
    refine ⟨_, [], ?_, Run.outcome_ofEntry_eq_rejected_iff spec "utf-8" (inputs.entry path)⟩
    rw [select, named]
    dsimp only
    rw [found path named]

end Failures

/-- A log changes nothing but the log: without it the command writes the same, ends in the same way
and reports the same. If a file is asked for and the path leads to none, the command reports that
and ends with exit code 1, whatever the specification is; if the path may not be looked up, that
fault gets out instead, before the specification is read as well. In all other cases it ends with
exit code 1 exactly if the specification is rejected, and all that is seen then is one report. -/
theorem log_changes_only_log (inputs : Inputs) (args args' : List String) (r r' : Request)
    (spec : String) (asks : Asks args r spec) (asks' : Asks args' r' spec)
    (quieter : Quieter r r') :
    run inputs args = (run inputs args').withoutLog ∧
    (∀ path, filePath r = some path →
      ((inputs.entry path).isFile = .ok false →
        run inputs args =
          ⟨.ok 1, "", [.report ("Error: input file not found: " ++ path ++ "\n")]⟩) ∧
      ∀ f, (inputs.entry path).isFile = .error f → run inputs args = ⟨.error f, "", []⟩) ∧
    ((∀ path, filePath r = some path → (inputs.entry path).isFile = .ok true) →
      ((run inputs args).exit = .ok 1 ↔
        ∃ rejection, Spec.parse spec = .error (.rejected rejection)) ∧
      ∀ rejection, Spec.parse spec = .error (.rejected rejection) →
        run inputs args = ⟨.ok 1, "", [.report ("Error: " ++ rejection.message ++ "\n")]⟩) := by
  rw [asks.run_eq, asks'.run_eq]
  refine ⟨quieter.select_eq inputs spec, ?_, ?_⟩
  · intro path named
    rw [select, named]
    dsimp only
    constructor
    · intro absent
      rw [absent, failure_not_found]
    · intro f refused
      rw [refused]
  · intro found
    obtain ⟨run, before, same, rejected⟩ := select_of_found found spec
    rw [same]
    constructor
    · rw [exit_finish_eq_one_iff]
      exact exists_congr rejected
    · intro rejection h
      exact finish_of_rejected quieter.quiet ((rejected rejection).mpr h) before

/-- A missing file hides that the specification cannot be read, and so does a path that may not be
looked up; a bad specification is reported once, with a log and without. -/
theorem log_changes_only_log_failures :
    let inputs : Inputs := ⟨Folder.find ⟨[(["f".toList], ⟨#[97, 10, 98]⟩)]⟩, "a\nb"⟩
    run inputs ["--json", "0", "./g/"] =
        ⟨.ok 1, "", [.report "Error: input file not found: g\n"]⟩ ∧
      run ⟨fun _ => .refused .accessDenied, ""⟩ ["--json", "0", "./g/"] =
        ⟨.error .accessDenied, "", []⟩ ∧
      run inputs ["1,0", "-"] =
        ⟨.ok 1, "", [.report "Error: Invalid line number 0 in range specification '0'\n"]⟩ ∧
      run inputs ["1,0", "-"] = (run inputs ["-v", "1,0", "-"]).withoutLog ∧
      ((run inputs ["-nv", "2", "f"]).withoutLog).output = "2\tb" := by
  intro inputs
  have absent : (inputs.entry "g").isFile = .ok false := by rfl
  have failing (inputs : Inputs) := (log_changes_only_log inputs ["--json", "0", "./g/"]
    ["--json", "0", "./g/", "-v"] ⟨[.json], some "0", some "./g/"⟩
    ⟨[.json, .verbose], some "0", some "./g/"⟩ "0" ⟨by rfl, by rfl, by decide⟩
    ⟨by rfl, by rfl, by decide⟩ ⟨by decide, by decide, by rfl, by decide⟩).2.1 "g" (by rfl)
  obtain ⟨same, -, rejected⟩ := log_changes_only_log inputs ["1,0", "-"] ["-v", "1,0", "-"]
    ⟨[], some "1,0", some "-"⟩ ⟨[.verbose], some "1,0", some "-"⟩ "1,0"
    ⟨by rfl, by rfl, by decide⟩ ⟨by rfl, by rfl, by decide⟩
    ⟨by decide, by decide, by rfl, by decide⟩
  obtain ⟨logged, -, -⟩ := log_changes_only_log inputs ["-n", "2", "f"] ["-nv", "2", "f"]
    ⟨[.number], some "2", some "f"⟩ ⟨[.number, .verbose], some "2", some "f"⟩ "2"
    ⟨by rfl, by rfl, by decide⟩ ⟨by rfl, by rfl, by decide⟩
    ⟨by decide, by decide, by rfl, by decide⟩
  refine ⟨(failing inputs).1 absent, (failing _).2 _ (by rfl), ?_, same, ?_⟩
  · have zero : Spec.parse "1,0" = .error (.rejected ⟨.zeroLine, "0"⟩) := by decide +kernel
    exact (rejected nofun).2 _ zero
  · rw [← logged]
    decide +kernel

section LongName

variable {name : String} (single : '/' ∉ name.toList) (long : Folder.maxName < name.utf8ByteSize)

include single long

theorem filePath_of_long_name {r : Request} (asked : r.file = some name) :
    filePath r = some name := by
  have noInput : name ≠ "-" := fun same => absurd (congrArg String.toList same)
    (Folder.toList_ne_of_long long (by decide))
  simp only [filePath, asked, Option.map_some, Path.normal_of_name single long]
  exact Option.filter_eq_some_iff.mpr ⟨rfl, by simpa using noInput⟩

/-- A name that is too long gets out as a fault before the specification is read. -/
theorem run_of_long_name {folder : Folder} (top : folder.entryAt [] = .directory)
    (shown : '\x00' ∉ name.toList) (input : String) {args : List String} {r : Request}
    {spec : String} (asks : Asks args r spec) (asked : r.file = some name) :
    run ⟨folder.find, input⟩ args = ⟨.error .nameTooLong, "", []⟩ := by
  rw [asks.run_eq, select, filePath_of_long_name single long asked]
  dsimp only
  rw [Folder.find_of_long_name single long top shown]
  rfl

end LongName

/-- A name that is too long for a file is a fault, although there is no file of that name. -/
theorem long_name_gets_out :
    let inputs : Inputs := ⟨Folder.find ⟨[]⟩, ""⟩
    let name := String.ofList (List.replicate 256 'a')
    Asks ["1", name] ⟨[], some "1", some name⟩ "1" ∧
      filePath ⟨[], some "1", some name⟩ = some name ∧
      (inputs.entry name).isFile ≠ .ok true ∧
      (run inputs ["1", name]).exit = .error .nameTooLong := by
  intro inputs name
  have spelled : name.toList = List.replicate 256 'a' := String.toList_ofList
  have other {c : Char} (h : c ≠ 'a') : c ∉ name.toList := by
    rw [spelled]
    exact fun mem => h (List.eq_of_mem_replicate mem)
  have long : Folder.maxName < name.utf8ByteSize := by
    rw [String.utf8ByteSize_ofList]
    decide +kernel
  have plain : ¬ Arguments.Dashed name :=
    fun dashed => other (by decide) (List.mem_of_mem_head? dashed)
  have asks : Asks ["1", name] ⟨[], some "1", some name⟩ "1" :=
    ⟨Arguments.read_of_adjacent (by decide) plain [] [], rfl, List.not_mem_nil⟩
  have single : '/' ∉ name.toList := other (by decide)
  have shown : '\x00' ∉ name.toList := other (by decide)
  have top : Folder.entryAt ⟨[]⟩ [] = .directory := by rfl
  have tooLong := Folder.find_of_long_name single long top shown
  refine ⟨asks, filePath_of_long_name single long rfl, ?_, ?_⟩
  · dsimp only [inputs]
    rw [tooLong]
    nofun
  · rw [run_of_long_name single long top shown "" asks rfl]

end Command

end Excerpt
