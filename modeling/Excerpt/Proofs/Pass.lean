import Excerpt.Pass
import Excerpt.Proofs.Plan
import Excerpt.Proofs.Source
import Excerpt.Proofs.Tail

/-!
# What a pass has read

`Reads` says what a pass has come to once it has taken the lines `xs`: the tail
holds the last of them, and it keeps exactly the lines that some term wants
while the total is unknown. Taking a line preserves it, so reading a source
ends in one of four ways, told by the ceiling and by what the source has left.
-/

namespace Excerpt

open Term

variable {α : Type}

/-- The line with this number, counted from 1. -/
def itemAt (xs : List α) (line : Int) : Option α :=
  if 1 ≤ line then xs[(line - 1).toNat]? else none

theorem itemAt_append_singleton (xs : List α) (a : α) (line : Int) :
    itemAt (xs ++ [a]) line = if line = xs.length + 1 then some a else itemAt xs line := by
  unfold itemAt
  by_cases last : line = xs.length + 1
  · rw [if_pos last, if_pos (by omega), show (line - 1).toNat = xs.length by omega,
      List.getElem?_concat_length]
  · rw [if_neg last]
    split
    · rw [List.getElem?_append]
      split
      · rfl
      · rw [List.getElem?_eq_none (by simp; omega), List.getElem?_eq_none (by omega)]
    · rfl

theorem itemAt_eq_none (xs : List α) (line : Int) (h : line < 1 ∨ xs.length < line) :
    itemAt xs line = none := by
  unfold itemAt
  split
  · exact List.getElem?_eq_none (by omega)
  · rfl

/-- What can be told of a line before the total is known: a term that starts at a known line is
taken to go on until its last line is known to be over. -/
def Term.Wants (t : Term) (line : Int) : Prop :=
  0 < t.anchor ∧ (t.anchor ≤ line ∧ (t.limit < 0 ∨ line ≤ t.limit)) ∧
    (line - t.anchor + 1) % t.step = 0

instance (t : Term) (line : Int) : Decidable (t.Wants line) :=
  inferInstanceAs (Decidable (_ ∧ _))

theorem Term.wants_of_anchor_pos (t : Term) (line : Int) (h : 0 < t.anchor) :
    t.wants line = .ok (decide (t.Wants line)) := by
  unfold Term.wants Term.Wants
  split
  · rename_i inside
    rw [onStep_of_anchor_pos t line none h]
    simp only [h, inside, true_and]
  · rename_i outside
    simp only [outside, false_and, and_false, decide_false]

theorem anyM_eq_ok {β : Type} (f : β → Except Fault Bool) (p : β → Prop) [DecidablePred p]
    (bs : List β) (h : ∀ b ∈ bs, f b = .ok (decide (p b))) :
    bs.anyM f = .ok (decide (∃ b ∈ bs, p b)) := by
  induction bs with
  | nil => rfl
  | cons b bs ih =>
    obtain ⟨first, rest⟩ := List.forall_mem_cons.mp h
    rw [List.anyM_cons, first]
    by_cases hb : p b
    · simp [hb, bind, Except.bind, pure, Except.pure]
    · simpa [hb, bind, Except.bind] using ih rest

/-- No term is asked for a position that it cannot tell. -/
theorem anyM_live (terms : List Term) (line : Int) :
    (live terms).anyM (fun t : Term => t.wants line) =
      .ok (decide (∃ t ∈ terms, t.Wants line)) := by
  have told : ∀ t ∈ live terms, t.wants line = .ok (decide (t.Wants line)) := by
    intro t ht
    exact t.wants_of_anchor_pos line (of_decide_eq_true (List.mem_filter.mp ht).2)
  have same : (∃ t ∈ live terms, t.Wants line) ↔ ∃ t ∈ terms, t.Wants line := by
    constructor
    · rintro ⟨t, ht, wanted⟩
      exact ⟨t, (List.mem_filter.mp ht).1, wanted⟩
    · rintro ⟨t, ht, wanted⟩
      exact ⟨t, List.mem_filter.mpr ⟨ht, decide_eq_true wanted.1⟩, wanted⟩
  rw [anyM_eq_ok _ _ _ told]
  simp only [same]

namespace Pass

/-- The pass has taken the lines `xs`. -/
structure Reads (terms : List Term) (capacity : Nat) (stopped : Bool) (xs : List α)
    (p : Pass α) : Prop where
  capacity_eq : p.tail.capacity = capacity
  tail : p.tail.Holds (xs.rtake capacity)
  total : p.total = xs.length
  stopped_eq : p.stopped = stopped
  kept : ∀ line, p.kept[line]? = if ∃ t ∈ terms, t.Wants line then itemAt xs line else none

theorem new_reads (terms : List Term) (plan : Plan) (low : 0 ≤ plan.capacity)
    (high : plan.capacity < Tail.capacityLimit) :
    ∃ p : Pass α, Pass.new plan = .ok p ∧ p.Reads terms plan.capacity.toNat false [] := by
  refine ⟨_, by rw [Pass.new, Tail.new_eq_ok low high]; rfl, ?_⟩
  constructor
  · simp [Tail.capacity]
  · rw [List.rtake_nil]
    exact Tail.holds_empty _
  · rfl
  · rfl
  · intro line
    simp [itemAt]

theorem take_eq_ok (terms : List Term) (a : α) (tail : Tail α) (kept : Kept α) (total : Int)
    (stopped : Bool) :
    Pass.take (live terms) a ⟨tail, kept, total, stopped⟩ =
      .ok ⟨tail.push a,
        if ∃ t ∈ terms, t.Wants (total + 1) then kept.insert (total + 1) a else kept,
        total + 1, stopped⟩ := by
  rw [Pass.take, anyM_live]
  simp only [Except.map, decide_eq_true_eq]

theorem Reads.take {terms : List Term} {capacity : Nat} {stopped : Bool} {xs : List α}
    {p : Pass α} (h : p.Reads terms capacity stopped xs) (a : α) :
    ∃ p', p.take (live terms) a = .ok p' ∧ p'.Reads terms capacity stopped (xs ++ [a]) := by
  obtain ⟨tail, kept, total, flag⟩ := p
  have same := h.capacity_eq
  subst same
  refine ⟨_, take_eq_ok terms a tail kept total flag, ?_⟩
  constructor
  · exact Tail.capacity_push _ _
  · exact h.tail.push_rtake a
  · have before : total = xs.length := h.total
    simp [before]
  · exact h.stopped_eq
  · intro line
    have before : total = xs.length := h.total
    have old : kept[line]? = _ := h.kept line
    rw [itemAt_append_singleton, ← before]
    by_cases last : line = total + 1
    · subst last
      rw [if_pos rfl]
      split
      · rw [Std.ExtTreeMap.getElem?_insert_self]
      · rw [old, itemAt_eq_none xs _ (.inr (by omega)), ite_self]
    · rw [if_neg last, ← old]
      split
      · rw [Std.ExtTreeMap.getElem?_insert, if_neg]
        simpa using Ne.symm last
      · rfl

theorem Reads.stop {terms : List Term} {capacity : Nat} {stopped : Bool} {xs : List α}
    {p : Pass α} (h : p.Reads terms capacity stopped xs) :
    p.stop.Reads terms capacity true xs :=
  ⟨h.capacity_eq, h.tail, h.total, rfl, h.kept⟩

theorem Reads.startLine_eq {terms : List Term} {capacity : Nat} {stopped : Bool}
    {xs : List α} {p : Pass α} (h : p.Reads terms capacity stopped xs) :
    p.startLine = xs.length - min (capacity : Int) xs.length + 1 := by
  rw [startLine, h.tail.startLine, h.total, List.rtake, List.length_drop]
  omega

/-- A line is kept if it has been read and some term wants it. -/
theorem Reads.mem_kept_iff {terms : List Term} {capacity : Nat} {stopped : Bool} {xs : List α}
    {p : Pass α} (h : p.Reads terms capacity stopped xs) (line : Int) :
    line ∈ p.kept ↔ (1 ≤ line ∧ line ≤ p.total) ∧ ∃ t ∈ terms, t.Wants line := by
  rw [Std.ExtTreeMap.mem_iff_isSome_getElem?, h.kept, h.total]
  by_cases inside : 1 ≤ line ∧ line ≤ xs.length
  · have read : (itemAt xs line).isSome := by
      rw [itemAt, if_pos inside.1, isSome_getElem?]
      omega
    split
    · rename_i wanted
      exact iff_of_true read ⟨inside, wanted⟩
    · rename_i unwanted
      exact iff_of_false (by simp) (fun both => unwanted both.2)
  · rw [itemAt_eq_none xs line (by omega), ite_self]
    exact iff_of_false (by simp) (fun both => inside both.1)

end Pass

theorem Source.lt_pulls_of_available (s : Source α) (ceiling : Option Int) (n : Nat)
    (h : s.available = n) : n < s.pulls ceiling := by
  obtain ⟨served, supply⟩ := s
  cases supply with
  | listed rest ending => exact Nat.lt_succ_of_le (Nat.cast_inj.mp h).ge
  | counted item left ending => exact Nat.lt_succ_of_le (Nat.cast_inj.mp h).ge
  | endless item => exact absurd h.symm (ENat.natCast_ne_top n)

theorem Source.le_pulls_of_stopLine (s : Source α) (ceiling : Option Int) (k : Nat)
    (h : Plan.stopLine ceiling = k) (enough : (k : ℕ∞) ≤ s.available) : k ≤ s.pulls ceiling := by
  obtain ⟨served, supply⟩ := s
  cases supply with
  | listed rest ending => exact Nat.le_succ_of_le (Nat.cast_le.mp enough)
  | counted item left ending => exact Nat.le_succ_of_le (Nat.cast_le.mp enough)
  | endless item =>
    cases ceiling with
    | none => exact absurd h.symm (ENat.natCast_ne_top k)
    | some c => exact (Nat.cast_inj.mp h).ge

namespace Scan

/-- Pulls below the ceiling only lengthen what has been read. -/
theorem read_items {terms : List Term} {capacity : Nat} {xs : List α} {p : Pass α}
    (h : p.Reads terms capacity false xs) (ceiling : Option Int) (s : Source α) (k : Nat)
    (enough : (k : ℕ∞) ≤ s.available)
    (below : ((xs.length + k : Nat) : ℕ∞) < Plan.stopLine ceiling) (pulls : Nat) :
    ∃ p', p'.Reads terms capacity false (xs ++ s.items k) ∧
      read (live terms) ceiling (pulls + k) s p =
        read (live terms) ceiling pulls (s.after k) p' := by
  induction k generalizing xs p s with
  | zero => exact ⟨p, by rwa [Source.items, List.append_nil], rfl⟩
  | succ k ih =>
    obtain ⟨a, rest, pulled, _, _, more⟩ := s.exists_pull_of_le k enough
    obtain ⟨next, taken, reads⟩ := h.take a
    have length : (xs ++ [a]).length + k = xs.length + (k + 1) := by
      rw [List.length_append, List.length_singleton]
      omega
    have open_ : ¬ Plan.Reached ceiling next.total := by
      rw [reads.total, Plan.reached_iff_stopLine_le _ _ (by simp), not_le]
      refine lt_of_le_of_lt (Nat.cast_le.mpr ?_) below
      omega
    obtain ⟨p', reads', same⟩ := ih reads rest more (by rwa [length])
    refine ⟨p', ?_, ?_⟩
    · simpa [Source.items, pulled] using reads'
    · rw [← Nat.add_assoc, read]
      simp only [pulled, taken, open_, if_false, Source.after]
      exact same

/-- A reader that meets the ceiling takes that line and asks for no other. -/
theorem read_stops {terms : List Term} {capacity : Nat} {xs : List α} {p : Pass α}
    (h : p.Reads terms capacity false xs) (ceiling : Option Int) (s : Source α)
    (enough : ((1 : Nat) : ℕ∞) ≤ s.available)
    (reached : Plan.stopLine ceiling ≤ ((xs.length + 1 : Nat) : ℕ∞)) (pulls : Nat) :
    ∃ p', p'.Reads terms capacity true (xs ++ s.items 1) ∧
      read (live terms) ceiling (pulls + 1) s p = ⟨.ok p', s.after 1⟩ := by
  obtain ⟨a, rest, pulled, _⟩ := s.exists_pull_of_le 0 enough
  obtain ⟨next, taken, reads⟩ := h.take a
  have closed : Plan.Reached ceiling next.total := by
    rw [reads.total, Plan.reached_iff_stopLine_le _ _ (by simp), List.length_append]
    exact reached
  refine ⟨next.stop, ?_, ?_⟩
  · simpa [Source.items, pulled] using reads.stop
  · rw [read]
    simp only [pulled, taken, closed, if_true, Source.after]

/-- A source without end is never done with if no line is the last one needed. -/
theorem read_unending {terms : List Term} {capacity : Nat} {xs : List α} {p : Pass α}
    (h : p.Reads terms capacity false xs) (s : Source α) (endless : s.available = ⊤) (pulls : Nat) :
    read (live terms) none pulls s p = ⟨raise .sourceUnending, s.after pulls⟩ := by
  obtain ⟨p', _, same⟩ := read_items h none s pulls (by rw [endless]; exact le_top)
    (ENat.natCast_lt_top _) 0
  rw [Nat.zero_add] at same
  rw [same, read]

variable (terms : List Term) (plan : Plan) (s : Source α) (low : 0 ≤ plan.capacity)
  (high : plan.capacity < Tail.capacityLimit)

include low high

theorem ofPlan_stops (k : Nat) (stop : Plan.stopLine plan.ceiling = k)
    (enough : (k : ℕ∞) ≤ s.available) :
    ∃ p, p.Reads terms plan.capacity.toNat true (s.items k) ∧
      ofPlan terms plan s = ⟨.ok p, s.after k⟩ := by
  obtain ⟨new, made, empty⟩ := Pass.new_reads (α := α) terms plan low high
  obtain ⟨m, rfl⟩ : ∃ m, k = m + 1 := by
    have pos := Plan.stopLine_pos plan.ceiling
    rw [stop] at pos
    exact ⟨k - 1, (Nat.sub_add_cancel (Nat.cast_lt.mp pos)).symm⟩
  obtain ⟨spare, pulls⟩ :=
    Nat.exists_eq_add_of_le (s.le_pulls_of_stopLine plan.ceiling _ stop enough)
  have before : (m : ℕ∞) ≤ s.available := le_trans (Nat.cast_le.mpr (Nat.le_succ m)) enough
  have more := s.le_available_after m 1 enough
  obtain ⟨p, reads, same⟩ := read_items empty plan.ceiling s m before
    (by rw [stop]; exact Nat.cast_lt.mpr (by simp)) (spare + 1)
  obtain ⟨p', reads', same'⟩ := read_stops reads plan.ceiling (s.after m) more
    (by rw [stop, List.nil_append, s.length_items m before]) spare
  refine ⟨p', ?_, ?_⟩
  · rwa [s.items_add m 1]
  · rw [ofPlan, made, pulls, show m + 1 + spare = spare + 1 + m by omega]
    simp only [same, same', s.after_add m 1]

theorem ofPlan_ends (n : Nat) (count : s.available = n)
    (below : (n : ℕ∞) < Plan.stopLine plan.ceiling) :
    (s.ending? = some .finished → ∃ p, p.Reads terms plan.capacity.toNat false (s.items n) ∧
      ofPlan terms plan s = ⟨.ok p, s.after n⟩) ∧
    ∀ reason, s.ending? = some (.failed reason) →
      ofPlan terms plan s = ⟨raise (.sourceFailed reason), s.after n⟩ := by
  obtain ⟨new, made, empty⟩ := Pass.new_reads (α := α) terms plan low high
  obtain ⟨spare, pulls⟩ := Nat.exists_eq_add_of_lt (s.lt_pulls_of_available plan.ceiling n count)
  obtain ⟨p, reads, same⟩ := read_items empty plan.ceiling s n count.ge
    (by rwa [List.length_nil, Nat.zero_add]) (spare + 1)
  have run : ofPlan terms plan s = read (live terms) plan.ceiling (spare + 1) (s.after n) p := by
    rw [ofPlan, made, pulls, show n + spare + 1 = spare + 1 + n by omega]
    exact same
  constructor
  · intro ends
    refine ⟨p, reads, ?_⟩
    rw [run, read, s.pull_after_available n _ count ends]
    rfl
  · intro reason ends
    rw [run, read, s.pull_after_available n _ count ends]
    rfl

theorem ofPlan_unending (open_ : plan.ceiling = none) (endless : s.available = ⊤) :
    ofPlan terms plan s = ⟨raise .sourceUnending, s⟩ := by
  obtain ⟨new, made, _⟩ := Pass.new_reads (α := α) terms plan low high
  have none_allowed : s.pulls none = 0 := by
    obtain ⟨served, supply⟩ := s
    cases supply with
    | listed rest ending => exact absurd endless (ENat.natCast_ne_top _)
    | counted item left ending => exact absurd endless (ENat.natCast_ne_top _)
    | endless item => rfl
  simp only [ofPlan, made, open_, none_allowed, read]

/-- A finite input is read to its end, or to the line after which a pass stops if it is as long. -/
theorem exists_reads_ofList (lines : List α) :
    ∃ p k stopped, (ofPlan terms plan (Source.ofList lines)).outcome = .ok p ∧
      p.Reads terms plan.capacity.toNat stopped (lines.take k) ∧
      (k : ℕ∞) = min (lines.length : ℕ∞) (Plan.stopLine plan.ceiling) ∧
      (stopped = true ↔ Plan.stopLine plan.ceiling ≤ lines.length) := by
  have count : (Source.ofList lines).available = lines.length := rfl
  rcases lt_or_ge (lines.length : ℕ∞) (Plan.stopLine plan.ceiling) with below | reached
  · obtain ⟨p, reads, scanned⟩ := (ofPlan_ends terms plan (Source.ofList lines) low high
      lines.length count below).1 rfl
    rw [Source.items_ofList] at reads
    exact ⟨p, lines.length, false, by rw [scanned], reads, (min_eq_left below.le).symm,
      iff_of_false Bool.false_ne_true (not_le_of_gt below)⟩
  · obtain ⟨k, stop⟩ := ENat.ne_top_iff_exists.mp
      (ne_top_of_le_ne_top (ENat.natCast_ne_top lines.length) reached)
    obtain ⟨p, reads, scanned⟩ := ofPlan_stops terms plan (Source.ofList lines) low high
      k stop.symm (stop ▸ reached)
    rw [Source.items_ofList] at reads
    exact ⟨p, k, true, by rw [scanned], reads, stop.trans (min_eq_right reached).symm,
      iff_of_true rfl reached⟩

end Scan

/-- What a pass over a finite input comes to under any plan whose ring can exist, whatever its
ceiling. With a ceiling it reads up to that line, but at least one line; it has stopped if the input
goes so far. The tail holds the last of the lines read, and those are kept that some term wants that
starts at a known line. -/
theorem Scan.keeps_what_was_read (terms : List Term) (plan : Plan) (low : 0 ≤ plan.capacity)
    (high : plan.capacity < Tail.capacityLimit) (lines : List α) :
    ∃ p, (Scan.ofPlan terms plan (Source.ofList lines)).outcome = .ok p ∧
      p.total = plan.ceiling.elim (lines.length : Int) (fun c => min lines.length (max c 1)) ∧
      (p.stopped = true ↔ ∃ c ∈ plan.ceiling, max c 1 ≤ lines.length) ∧
      p.tail.lines =
        .ok ((lines.take p.total.toNat).rtake (min plan.capacity p.total).toNat) ∧
      p.startLine = p.total - min plan.capacity p.total + 1 ∧
      (∀ i, i ∈ p.kept ↔ (1 ≤ i ∧ i ≤ p.total) ∧ ∃ t ∈ terms, 0 < t.anchor ∧
        (t.anchor ≤ i ∧ (t.limit < 0 ∨ i ≤ t.limit)) ∧ (i - t.anchor + 1) % t.step = 0) ∧
      ∀ i ∈ p.kept, ∃ a, lines[(i - 1).toNat]? = some a ∧ p.kept[i]? = some a := by
  obtain ⟨p, k, stopped, scanned, reads, count, early⟩ :=
    Scan.exists_reads_ofList terms plan low high lines
  have length : (lines.take k).length = k := by
    rw [List.length_take_of_le]
    exact Nat.cast_le.mp (count.le.trans (min_le_left _ _))
  have total : p.total = k := by rw [reads.total, length]
  refine ⟨p, scanned, ?_, ?_, ?_, ?_, reads.mem_kept_iff, ?_⟩
  · rw [total]
    exact Plan.cast_eq_of_eq_min_stopLine count
  · rw [reads.stopped_eq, early, Plan.stopLine_le_iff]
  · rw [reads.tail.lines, total, Int.toNat_natCast, List.rtake, List.rtake, length]
    congr 2
    omega
  · rw [reads.startLine_eq, length, total]
    omega
  · intro i mem
    obtain ⟨inside, wanted⟩ := (reads.mem_kept_iff i).mp mem
    have read : (i - 1).toNat < k := by omega
    have present : (i - 1).toNat < lines.length := by
      rw [List.length_take] at length
      omega
    refine ⟨_, List.getElem?_eq_getElem present, ?_⟩
    rw [reads.kept, if_pos wanted, itemAt, if_pos inside.1, List.getElem?_take_of_lt read]
    exact List.getElem?_eq_getElem present

/-- Under a ceiling of zero one line is read, and a ring of two slots holds it. -/
theorem Scan.keeps_what_was_read_one :
    ∃ p, (Scan.ofPlan [⟨1, -5, 1, by decide, by decide⟩, ⟨-1, -1, 1, by decide, by decide⟩]
        ⟨2, some 0⟩ (Source.ofList ["a", "b", "c"])).outcome = .ok p ∧
      p.total = 1 ∧ p.stopped = true ∧ p.tail.lines = .ok ["a"] ∧ p.startLine = 1 ∧
      p.kept[(1 : Int)]? = some "a" ∧ (2 : Int) ∉ p.kept := by
  obtain ⟨p, scanned, total, stopped, held, start, kept, values⟩ := Scan.keeps_what_was_read
    [⟨1, -5, 1, by decide, by decide⟩, ⟨-1, -1, 1, by decide, by decide⟩] ⟨2, some 0⟩
    (by decide) (by decide) ["a", "b", "c"]
  have one : p.total = 1 := total.trans (by decide)
  rw [one] at held start
  refine ⟨p, scanned, one, stopped.mpr ⟨0, rfl, by decide⟩, held, start, ?_, ?_⟩
  · obtain ⟨a, found, value⟩ := values 1 ((kept 1).mpr ⟨by omega, by decide⟩)
    cases found
    exact value
  · intro mem
    have inside := ((kept 2).mp mem).1
    omega

end Excerpt
