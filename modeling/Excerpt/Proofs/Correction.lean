import Excerpt.Correction
import Excerpt.Proofs.Plan
import Excerpt.Proofs.Tail

/-!
# What a correction changes

A correction is told line by line: outside the open lines nothing changes, and
an open line is kept if a waiting term selects it, with the text that the tail
holds, or if it was kept before and some other term selects it. Every line that
it asks the tail for is held there, so it never fails.
-/

namespace Excerpt

variable {α : Type}

namespace Pass

/-- The line is decided anew at the end of the input. -/
def Open (p : Pass α) (line : Int) : Prop := p.firstOpen ≤ line ∧ line ≤ p.total

instance (p : Pass α) (line : Int) : Decidable (p.Open line) :=
  inferInstanceAs (Decidable (_ ∧ _))

/-- What the tail holds for a line, if `held` are the lines in it. -/
def heldAt (p : Pass α) (held : List α) (line : Int) : Option α :=
  held[(line - p.startLine).toNat]?

theorem getElem?_drop (keep : Int → Prop) [DecidablePred keep] (kept : Kept α) (line i : Int) :
    (if line ∉ kept then kept else if keep line then kept else kept.erase line)[i]? =
      if i = line ∧ ¬ keep i then none else kept[i]? := by
  by_cases same : i = line
  · subst same
    by_cases present : i ∈ kept
    · by_cases stays : keep i
      · simp [stays]
      · simp [present, stays]
    · simp [present]
  · rw [if_neg (c := i = line ∧ ¬ keep i) (fun h => same h.1)]
    have erased : (kept.erase line)[i]? = kept[i]? := by
      rw [Std.ExtTreeMap.getElem?_erase, if_neg (by simpa using Ne.symm same)]
    split
    · rfl
    · split
      · rfl
      · exact erased

theorem getElem?_foldl_drop (keep : Int → Prop) [DecidablePred keep] (lines : List Int)
    (kept : Kept α) (i : Int) :
    (lines.foldl (fun kept line =>
      if line ∉ kept then kept else if keep line then kept else kept.erase line) kept)[i]? =
      if i ∈ lines ∧ ¬ keep i then none else kept[i]? := by
  induction lines generalizing kept with
  | nil => simp
  | cons line lines ih =>
    rw [List.foldl_cons, ih, getElem?_drop, ← ite_or]
    refine if_congr ?_ rfl rfl
    rw [List.mem_cons, or_comm, or_and_right]

theorem getElem?_prune (terms : List Term) (p : Pass α) (i : Int) :
    (p.prune terms)[i]? =
      if p.Open i ∧ ¬ ∃ t ∈ terms, t.Selects p.total i then none else p.kept[i]? := by
  rw [prune, getElem?_foldl_drop]
  refine if_congr ?_ rfl rfl
  rw [mem_interval, Open]

/-- A line that a waiting term restores is an open line that it selects. -/
theorem mem_reach_iff (p : Pass α) (t : Term) (line : Int) :
    line ∈ p.reach t ∧ t.place line p.total % t.step = 0 ↔
      p.Open line ∧ t.Selects p.total line := by
  have first : 1 ≤ p.firstOpen := Int.le_max_right _ _
  rw [reach, mem_interval]
  unfold Open Term.Selects
  constructor
  · rintro ⟨⟨low, high⟩, onStep⟩
    exact ⟨by omega, by omega, by omega, onStep⟩
  · rintro ⟨open_, _, inside, onStep⟩
    exact ⟨by omega, onStep⟩

theorem restoreLine_eq_ok {p : Pass α} {held : List α} (h : p.tail.Holds held) (t : Term)
    (kept : Kept α) (line : Int) (open_ : p.Open line) :
    ∃ kept', p.restoreLine t kept line = .ok kept' ∧ ∀ i : Int, kept'[i]? =
      if i = line ∧ t.place i p.total % t.step = 0 then p.heldAt held i else kept[i]? := by
  have start := h.startLine p.total
  have first : p.startLine ≤ p.firstOpen := Int.le_max_left _ _
  unfold startLine at first
  unfold Open at open_
  obtain ⟨a, found, read⟩ := h.lineAt line p.total (by omega) open_.2
  rw [restoreLine, t.onStep_some, read]
  by_cases onStep : t.place line p.total % t.step = 0
  · refine ⟨kept.insert line a, by simp [onStep, bind, Except.bind, pure, Except.pure], ?_⟩
    intro i
    rw [Std.ExtTreeMap.getElem?_insert]
    by_cases same : i = line
    · subst same
      rw [if_pos Std.ReflCmp.compare_self, if_pos ⟨rfl, onStep⟩, heldAt, startLine, start, found]
    · rw [if_neg (by simpa using Ne.symm same), if_neg (fun h => same h.1)]
  · refine ⟨kept, by simp [onStep, bind, Except.bind, pure, Except.pure], ?_⟩
    intro i
    rw [if_neg]
    rintro ⟨rfl, yes⟩
    exact onStep yes

theorem restoreLines_eq_ok {p : Pass α} {held : List α} (h : p.tail.Holds held) (t : Term)
    (lines : List Int) (open_ : ∀ line ∈ lines, p.Open line) (kept : Kept α) :
    ∃ kept', lines.foldlM (p.restoreLine t) kept = .ok kept' ∧ ∀ i : Int, kept'[i]? =
      if i ∈ lines ∧ t.place i p.total % t.step = 0 then p.heldAt held i else kept[i]? := by
  induction lines generalizing kept with
  | nil => exact ⟨kept, rfl, fun i => by simp⟩
  | cons line lines ih =>
    obtain ⟨here, later⟩ := List.forall_mem_cons.mp open_
    obtain ⟨next, stepped, now⟩ := restoreLine_eq_ok h t kept line here
    obtain ⟨last, rest, after⟩ := ih later next
    refine ⟨last, ?_, ?_⟩
    · rw [List.foldlM_cons, stepped]
      exact rest
    · intro i
      rw [after, now, ← ite_or]
      refine if_congr ?_ rfl rfl
      rw [List.mem_cons, or_comm, or_and_right]

/-- Several terms may restore one line; the tail holds one text for it. -/
theorem restoreTerms_eq_ok {p : Pass α} {held : List α} (h : p.tail.Holds held)
    (ts : List Term) (kept : Kept α) :
    ∃ kept', ts.foldlM (fun kept t => (p.reach t).foldlM (p.restoreLine t) kept) kept = .ok kept' ∧
      ∀ i : Int, kept'[i]? =
        if p.Open i ∧ ∃ t ∈ ts, t.Selects p.total i then p.heldAt held i else kept[i]? := by
  induction ts generalizing kept with
  | nil => exact ⟨kept, rfl, fun i => by simp⟩
  | cons t ts ih =>
    have inside : ∀ line ∈ p.reach t, p.Open line := by
      intro line hline
      rw [reach, mem_interval] at hline
      exact ⟨by omega, by omega⟩
    obtain ⟨next, stepped, now⟩ := restoreLines_eq_ok h t (p.reach t) inside kept
    obtain ⟨last, rest, after⟩ := ih next
    refine ⟨last, ?_, ?_⟩
    · rw [List.foldlM_cons, stepped]
      exact rest
    · intro i
      rw [after, now, ← ite_or]
      refine if_congr ?_ rfl rfl
      rw [mem_reach_iff, List.exists_mem_cons_iff, or_comm, and_or_left]

theorem settle_of_nothing_open (terms : List Term) {p : Pass α} {held : List α}
    (h : p.tail.Holds held) (closed : Plan.waiting terms = [] ∨ held = []) :
    p.settle terms = .ok (p, none) := by
  rw [settle, if_pos]
  refine closed.imp_right ?_
  rintro rfl
  exact h.size_eq

theorem settle_of_open (terms : List Term) {p : Pass α} {held : List α} (h : p.tail.Holds held)
    (waits : Plan.waiting terms ≠ []) (some_held : held ≠ []) :
    ∃ kept c, p.settle terms = .ok ({ p with kept := kept }, some c) ∧ ∀ i : Int, kept[i]? =
      if p.Open i then
        if ∃ t ∈ terms, t.NeedsTotal ∧ t.Selects p.total i then p.heldAt held i
        else if ∃ t ∈ terms, t.Selects p.total i then p.kept[i]? else none
      else p.kept[i]? := by
  have nonempty : ¬ (Plan.waiting terms = [] ∨ p.tail.size = 0) := by
    rintro (none_waits | empty)
    · exact waits none_waits
    · rw [h.size_eq] at empty
      exact some_held (List.eq_nil_of_length_eq_zero empty)
  obtain ⟨kept, restored, told⟩ := restoreTerms_eq_ok h (Plan.waiting terms) (p.prune terms)
  change p.restore terms (p.prune terms) = .ok kept at restored
  refine ⟨kept, ⟨p.firstOpen, p.total, p.kept.size - (p.prune terms).size,
    kept.size - (p.prune terms).size⟩, ?_, ?_⟩
  · rw [settle, if_neg nonempty]
    simp only [restored, Except.map]
  intro i
  have waiting : (∃ t ∈ Plan.waiting terms, t.Selects p.total i) ↔
      ∃ t ∈ terms, t.NeedsTotal ∧ t.Selects p.total i := by
    simp only [Plan.mem_waiting, and_assoc]
  rw [told, getElem?_prune]
  simp only [waiting]
  by_cases open_ : p.Open i
  · simp only [open_, true_and, if_true, ite_not]
  · simp only [open_, false_and, if_false]

section Decided

variable {terms : List Term} {p : Pass α} {held : List α} {kept : Kept α}
  (h : p.tail.Holds held)
  (told : ∀ i : Int, kept[i]? =
    if p.Open i then
      if ∃ t ∈ terms, t.NeedsTotal ∧ t.Selects p.total i then p.heldAt held i
      else if ∃ t ∈ terms, t.Selects p.total i then p.kept[i]? else none
    else p.kept[i]?)

include told

theorem getElem?_of_not_open {i : Int} (closed : ¬ p.Open i) : kept[i]? = p.kept[i]? := by
  rw [told, if_neg closed]

/-- A line that no waiting term selects stays only for a term that counts from the start. -/
theorem getElem?_of_not_late {i : Int} (open_ : p.Open i)
    (early : ¬ ∃ t ∈ terms, t.NeedsTotal ∧ t.Selects p.total i) :
    kept[i]? =
      if ∃ t ∈ terms, t.FromStart ∧ t.Selects p.total i then p.kept[i]? else none := by
  rw [told, if_pos open_, if_neg early]
  refine if_congr ?_ rfl rfl
  refine exists_congr fun t => and_congr_right fun mem => ?_
  rw [iff_and_self]
  intro selected
  by_contra waits
  exact early ⟨t, mem, t.needsTotal_iff_not_fromStart.mpr waits, selected⟩

include h

/-- A line that a waiting term selects has the text that the tail holds for it. -/
theorem getElem?_of_late {i : Int} (open_ : p.Open i)
    (late : ∃ t ∈ terms, t.NeedsTotal ∧ t.Selects p.total i) :
    ∃ a, p.tail.get (i - p.startLine) = .ok a ∧ kept[i]? = some a := by
  have first : p.startLine ≤ p.firstOpen := Int.le_max_left _ _
  have start : p.startLine = p.total - held.length + 1 := h.startLine p.total
  have low : p.firstOpen ≤ i := open_.1
  obtain ⟨a, found, read⟩ := h.lineAt i p.total (by omega) open_.2
  refine ⟨a, read, ?_⟩
  rw [told, if_pos open_, if_pos late, heldAt, start, found]

/-- Deciding the open lines once more comes to the same lines. -/
theorem settle_again (waits : Plan.waiting terms ≠ []) (some_held : held ≠ []) :
    ∃ c, settle terms { p with kept := kept } = .ok ({ p with kept := kept }, c) := by
  have tail : ({ p with kept := kept } : Pass α).tail.Holds held := h
  obtain ⟨kept', c, settled, again⟩ := settle_of_open terms tail waits some_held
  have same : kept' = kept := by
    apply Std.ExtTreeMap.ext_getElem?
    intro i
    have place : ({ p with kept := kept } : Pass α).heldAt held i = p.heldAt held i := rfl
    have opened : ({ p with kept := kept } : Pass α).Open i ↔ p.Open i := Iff.rfl
    rw [again]
    dsimp only
    rw [told, place]
    simp only [opened]
    split_ifs <;> rfl
  exact ⟨some c, by rw [settled, same]⟩

end Decided

/-- What a correction reports of itself: there is one if some term waits and the tail holds a line,
and it counts what was dropped from the kept lines and what was restored behind that. -/
theorem correction_of_settle {terms : List Term} {p p' : Pass α} {c : Option Correction}
    (h : p.settle terms = .ok (p', c)) :
    c = if Plan.waiting terms = [] ∨ p.tail.size = 0 then none
      else some ⟨p.firstOpen, p.total, p.kept.size - (p.prune terms).size,
        p'.kept.size - (p.prune terms).size⟩ := by
  unfold settle at h
  split at h
  · cases h
    rw [if_pos (by assumption)]
  · rename_i opened
    rw [if_neg opened]
    cases restored : p.restore terms (p.prune terms) with
    | error f => simp [restored, Except.map] at h
    | ok kept =>
      simp only [restored, Except.map] at h
      cases h
      rfl

end Pass

/-- What a correction does to any pass, whether or not its tail fits its total. It never fails and
leaves all but the kept lines as they were. Without a waiting term or a line in the tail nothing
changes. Otherwise a line from the first one in the tail on stays or comes back if a waiting term
selects it, with the text in the tail, or if it was kept and a term that counts from the start
selects it, with the text that it had. A second correction changes nothing. -/
theorem Pass.settle_decides_open_lines (terms : List Term) (p : Pass α) (made : p.tail.Made) :
    ∃ p' c, p.settle terms = .ok (p', c) ∧
      p'.tail = p.tail ∧ p'.total = p.total ∧ p'.stopped = p.stopped ∧
      (((∀ t ∈ terms, ¬ t.limit < 0) ∨ p.tail.size = 0) → p'.kept = p.kept) ∧
      ((∃ t ∈ terms, t.limit < 0) → p.tail.size ≠ 0 →
        (∀ i, ¬ (max p.startLine 1 ≤ i ∧ i ≤ p.total) → p'.kept[i]? = p.kept[i]?) ∧
        ∀ i, max p.startLine 1 ≤ i → i ≤ p.total →
          (i ∈ p'.kept ↔ (∃ t ∈ terms, t.limit < 0 ∧ t.Selects p.total i) ∨
            i ∈ p.kept ∧ ∃ t ∈ terms, t.FromStart ∧ t.Selects p.total i) ∧
          ((∃ t ∈ terms, t.limit < 0 ∧ t.Selects p.total i) →
            ∃ a, p.tail.get (i - p.startLine) = .ok a ∧ p'.kept[i]? = some a) ∧
          ((¬ ∃ t ∈ terms, t.limit < 0 ∧ t.Selects p.total i) → i ∈ p'.kept →
            p'.kept[i]? = p.kept[i]?)) ∧
      ∃ c', p'.settle terms = .ok (p', c') := by
  obtain ⟨held, h⟩ := made.exists_holds
  have waiting : Plan.waiting terms = [] ↔ ∀ t ∈ terms, ¬ t.limit < 0 := by
    simp [Plan.waiting]
  have empty : held = [] ↔ p.tail.size = 0 := by
    rw [h.size_eq, List.length_eq_zero_iff]
  by_cases closed : Plan.waiting terms = [] ∨ held = []
  · have settled := Pass.settle_of_nothing_open terms h closed
    refine ⟨p, none, settled, rfl, rfl, rfl, fun _ => rfl, ?_, none, settled⟩
    rintro ⟨t, mem, waits⟩ some_held
    rcases closed with none_waits | none_held
    · exact absurd waits (waiting.mp none_waits t mem)
    · exact absurd (empty.mp none_held) some_held
  · obtain ⟨waits, some_held⟩ := not_or.mp closed
    obtain ⟨kept, c, settled, told⟩ := Pass.settle_of_open terms h waits some_held
    refine ⟨{ p with kept := kept }, some c, settled, rfl, rfl, rfl, ?_, ?_,
      Pass.settle_again h told waits some_held⟩
    · rintro (none_waits | none_held)
      · exact absurd (waiting.mpr none_waits) waits
      · exact absurd (empty.mpr none_held) some_held
    · intro _ _
      refine ⟨fun i outside => Pass.getElem?_of_not_open told outside, ?_⟩
      intro i low high
      have open_ : p.Open i := ⟨low, high⟩
      by_cases late : ∃ t ∈ terms, t.limit < 0 ∧ t.Selects p.total i
      · obtain ⟨a, read, found⟩ := Pass.getElem?_of_late h told open_ late
        have present : i ∈ kept := Std.ExtTreeMap.mem_iff_isSome_getElem?.mpr (by
          rw [show kept[i]? = some a from found]
          rfl)
        exact ⟨iff_of_true present (.inl late), fun _ => ⟨a, read, found⟩,
          fun early => absurd late early⟩
      · have value := Pass.getElem?_of_not_late told open_ late
        simp only [Std.ExtTreeMap.mem_iff_isSome_getElem?, late, false_or, false_implies, true_and,
          not_false_eq_true, true_implies, value]
        split
        · rename_i early
          exact ⟨by simp only [early, and_true], fun _ => rfl⟩
        · rename_i dropped
          simp [dropped]

/-- A total of two, for which the tail holds a line too many. -/
theorem Pass.settle_decides_open_lines_short_total :
    ∃ (t : Tail String) (p' : Pass String) (c : Option Correction),
      ((((⟨Array.replicate 3 none, 0, 0⟩ : Tail String).push "a").push "b").push "c").push "d" = t ∧
      Pass.settle [⟨-1, -1, 1, by decide, by decide⟩, ⟨1, 1, 1, by decide, by decide⟩]
        ⟨t, Kept.ofList [(0, "u"), (1, "v"), (2, "w"), (7, "x")], 2, false⟩ = .ok (p', c) ∧
      p'.kept[(0 : Int)]? = some "u" ∧ p'.kept[(1 : Int)]? = some "v" ∧
      p'.kept[(2 : Int)]? = some "d" ∧ p'.kept[(7 : Int)]? = some "x" := by
  obtain ⟨p', c, settled, -, -, -, -, decided, -⟩ := Pass.settle_decides_open_lines
    [⟨-1, -1, 1, by decide, by decide⟩, ⟨1, 1, 1, by decide, by decide⟩]
    ⟨_, Kept.ofList [(0, "u"), (1, "v"), (2, "w"), (7, "x")], 2, false⟩
    (.push "d" (.push "c" (.push "b" (.push "a" (@Tail.Made.new _ 3 _ rfl)))))
  obtain ⟨outside, inside⟩ := decided (by decide) (by decide)
  refine ⟨_, p', c, rfl, settled, ?_, ?_, ?_, ?_⟩
  · exact (outside 0 (by decide)).trans (by decide +kernel)
  · obtain ⟨present, -, old⟩ := inside 1 (by decide) (by decide)
    exact (old (by decide) (present.mpr (.inr (by decide +kernel)))).trans (by decide +kernel)
  · obtain ⟨-, new, -⟩ := inside 2 (by decide) (by decide)
    obtain ⟨a, read, found⟩ := new (by decide)
    cases read
    exact found
  · exact (outside 7 (by decide)).trans (by decide +kernel)

end Excerpt
