import Mathlib.Data.List.TakeWhile
import Excerpt.Command
import Excerpt.Proofs.Traversal

/-!
# Where the arguments stand

Switches may stand before, between and behind the words, but the words have to
stand together: what is taken as the file follows the specification at once.
Behind the marker every argument is a word, whatever it starts with.
-/

namespace Excerpt

/-- The spellings of the switches that say how the selected lines are shown. -/
inductive Flag where
  | json
  | number
  | shortNumber
  | verbose
  | shortVerbose
  deriving DecidableEq

namespace Flag

def text : Flag → String
  | json => "--json"
  | number => "--number"
  | shortNumber => "-n"
  | verbose => "--verbose"
  | shortVerbose => "-v"

def switch : Flag → Switch
  | json => .json
  | number | shortNumber => .number
  | verbose | shortVerbose => .verbose

def form (f : Flag) : Arguments.Form := .option f.text f.switch none

theorem text_ne_marker (f : Flag) : f.text ≠ "--" := by
  cases f <;> decide

end Flag

namespace Arguments

/-- The argument starts with a dash. -/
def Dashed (arg : String) : Prop := arg.toList.head? = some '-'

instance (arg : String) : Decidable (Dashed arg) := inferInstanceAs (Decidable (_ = _))

theorem form_flag (f : Flag) : form f.text = .ok f.form := by
  cases f <;> rfl

theorem form_of_not_dashed {arg : String} (plain : ¬ Dashed arg) : form arg = .ok (.word arg) :=
  if_pos (.inl plain)

theorem ne_marker_of_not_dashed {arg : String} (plain : ¬ Dashed arg) : arg ≠ "--" := by
  rintro rfl
  exact plain (by decide)

/-- The forms of arguments before a marker. -/
structure Formed (args : List String) (formed : List Form) : Prop where
  unmarked : ∀ a ∈ args, a ≠ "--"
  reads : args.mapM form = .ok formed

namespace Formed

theorem flags (flags : List Flag) : Formed (flags.map Flag.text) (flags.map Flag.form) where
  unmarked := by simpa using fun f _ => f.text_ne_marker
  reads := by
    rw [List.mapM_map]
    exact mapM_eq_ok_map _ (fun f _ => form_flag f)

theorem word {arg : String} (plain : ¬ Dashed arg) : Formed [arg] [.word arg] where
  unmarked := by simpa using ne_marker_of_not_dashed plain
  reads := by
    rw [List.mapM_cons, form_of_not_dashed plain]
    rfl

variable {args args' : List String} {formed formed' : List Form} (h : Formed args formed)

include h

theorem append (h' : Formed args' formed') : Formed (args ++ args') (formed ++ formed') where
  unmarked := List.forall_mem_append.mpr ⟨h.unmarked, h'.unmarked⟩
  reads := mapM_append_eq_ok _ h.reads h'.reads

theorem not_isMarker : ∀ a ∈ args, (!isMarker a) = true := by
  simpa [isMarker] using h.unmarked

theorem forms_eq : forms args = .ok formed := by
  rw [forms, List.takeWhile_eq_self_iff.mpr h.not_isMarker,
    List.dropWhile_eq_nil_iff.mpr h.not_isMarker, h.reads]
  rfl

end Formed

/-- Two words without a dash, and switches around them. -/
theorem forms_of_words (flags between behind : List Flag) {spec file : String}
    (plain : ¬ Dashed spec) (plain' : ¬ Dashed file) :
    forms (flags.map Flag.text ++ [spec] ++ between.map Flag.text ++ [file] ++
        behind.map Flag.text) =
      .ok (flags.map Flag.form ++ .word spec :: (between.map Flag.form ++ .word file ::
        behind.map Flag.form)) := by
  have upToSpec := (Formed.flags flags).append (.word plain)
  have upToFile := (upToSpec.append (.flags between)).append (.word plain')
  rw [(upToFile.append (.flags behind)).forms_eq]
  simp only [List.append_assoc, List.cons_append, List.nil_append]

section Take

variable {rest : List Form} {text : String}

theorem takeValue_word (next : ∀ x ∈ rest.head?, x ≠ .marker) :
    takeValue (.word text :: rest) = ([.word text], rest) := by
  cases rest with
  | nil => rfl
  | cons x rest =>
    have other : ¬ decide (x = .marker) = true := by simpa using next
    simp [takeValue, other]

theorem valueOf_word (other : text ≠ "--") : valueOf [.word text] = some text := by
  simp [valueOf, Form.leftover?, other]

end Take

/-- Forms that are not refused by themselves and do not act when they are met. -/
inductive Form.Harmless : Form → Prop
  | flag (f : Flag) : Harmless f.form
  | word (text : String) : Harmless (.word text)

def Form.turnedOn : Form → List Switch
  | .option _ s _ => [s]
  | _ => []

theorem Form.Harmless.switches_eq {x : Form} (h : x.Harmless) :
    (switchesOf x).bind act = .ok x.turnedOn := by
  cases h with
  | flag f => cases f <;> rfl
  | word text => rfl

theorem harmless_flags (flags : List Flag) : ∀ x ∈ flags.map Flag.form, x.Harmless := by
  rw [List.forall_mem_map]
  exact fun f _ => .flag f

theorem leftover_flags (flags : List Flag) :
    (flags.map Flag.form).filterMap Form.leftover? = [] := by
  rw [List.filterMap_map, List.filterMap_eq_nil_iff]
  exact fun _ _ => rfl

theorem turnedOn_flags (flags : List Flag) :
    (flags.map Flag.form).flatMap Form.turnedOn = flags.map Flag.switch := by
  rw [List.flatMap_map, List.map_eq_flatMap]
  rfl

/-- What the arguments ask for, once it is known which of them are taken as the specification and
the file. -/
theorem read_eq {args : List String} {flags : List Flag} {w : Form}
    {words specForms fileForms rest behind : List Form}
    (formed : forms args = .ok (flags.map Flag.form ++ w :: words)) (isWord : w.isWord = true)
    (spec : takeValue (w :: words) = (specForms, rest))
    (file : takeValue rest = (fileForms, behind)) (harmless : ∀ x ∈ behind, x.Harmless) :
    read args =
      match behind.filterMap Form.leftover? with
      | [] => .ok ⟨flags.map Flag.switch ++ behind.flatMap Form.turnedOn,
          valueOf specForms, valueOf fileForms⟩
      | left => .error (.misuse ("unrecognized arguments: " ++ " ".intercalate left)) := by
  have options : ∀ x ∈ flags.map Flag.form, (!x.isWord) = true := by
    rw [List.forall_mem_map]
    exact fun _ _ => rfl
  have words_left : (flags.map Flag.form ++ w :: words).dropWhile (fun x => !x.isWord) =
      w :: words := by
    rw [List.dropWhile_append_of_pos options, List.dropWhile_cons_of_neg (by simp [isWord])]
  have options_left : (flags.map Flag.form ++ w :: words).takeWhile (fun x => !x.isWord) =
      flags.map Flag.form := by
    rw [List.takeWhile_append_of_pos options, List.takeWhile_cons_of_neg (by simp [isWord]),
      List.append_nil]
  have others : ∀ x ∈ flags.map Flag.form ++ behind, (switchesOf x).bind act = .ok x.turnedOn := by
    intro x mem
    rcases List.mem_append.mp mem with mem | mem
    · exact (harmless_flags flags x mem).switches_eq
    · exact (harmless x mem).switches_eq
  have turned := mapM_eq_ok_map _ others
  rw [read, formed]
  simp only [bind, Except.bind] at turned ⊢
  rw [words_left, spec]
  dsimp only
  rw [file]
  dsimp only
  rw [options_left, turned]
  dsimp only
  rw [List.filterMap_append, leftover_flags, List.nil_append, ← List.flatMap_def,
    List.flatMap_append, turnedOn_flags]
  rfl

section Words

variable {spec file : String} (plain : ¬ Dashed spec) (plain' : ¬ Dashed file)

include plain plain'

theorem read_of_adjacent (flags more : List Flag) :
    read (flags.map Flag.text ++ [spec, file] ++ more.map Flag.text) =
      .ok ⟨(flags ++ more).map Flag.switch, some spec, some file⟩ := by
  have formed := forms_of_words flags [] more plain plain'
  have taken : takeValue (.word spec :: .word file :: more.map Flag.form) =
      ([.word spec], .word file :: more.map Flag.form) := takeValue_word (by simp)
  have taken' : takeValue (.word file :: more.map Flag.form) =
      ([.word file], more.map Flag.form) := by
    apply takeValue_word
    cases more <;> simp [Flag.form]
  have both := read_eq formed rfl taken taken' (harmless_flags more)
  rw [leftover_flags, turnedOn_flags, valueOf_word (ne_marker_of_not_dashed plain),
    valueOf_word (ne_marker_of_not_dashed plain'), ← List.map_append] at both
  simpa using both

end Words

end Arguments

namespace Command

open Arguments

end Command

end Excerpt
