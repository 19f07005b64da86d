import Mathlib.Data.List.Sort
import Excerpt.Correction
import Excerpt.Proofs.Pass

/-!
# The lines that terms name

`Names` is the meaning of a term, told by its two bounds in an input of known
length, and `materialised` selects with the whole input at hand. What a pass
wants of a line before the total is known agrees with this meaning wherever
every bound that counts from the end lies behind the line.
-/

namespace Excerpt

variable {α : Type}

namespace Term

/-- The term names a line of an input of `n` lines: the line lies between the bounds, in either
order, and its place, counted from the anchor, is a multiple of the step. -/
def Names (t : Term) (n line : Int) : Prop :=
  let a := if 0 < t.anchor then t.anchor else n + t.anchor + 1
  let b := if 0 < t.limit then t.limit else n + t.limit + 1
  let place := if 0 < t.anchor then line - t.anchor + 1 else n + t.anchor + 1 - line + 1
  (min a b ≤ line ∧ line ≤ max a b) ∧ place % t.step = 0

instance (t : Term) (n line : Int) : Decidable (t.Names n line) :=
  inferInstanceAs (Decidable (_ ∧ _))

theorem between_window_iff (t : Term) (n line : Int) :
    ((t.window n).1 ≤ line ∧ line ≤ (t.window n).2) ↔
      min (lineOf t.anchor n) (lineOf t.limit n) ≤ line ∧
        line ≤ max (lineOf t.anchor n) (lineOf t.limit n) := by
  simp only [window]
  split <;> dsimp only <;> omega

/-- A term that counts from the start names the same lines of every input. -/
theorem names_iff_of_fromStart (t : Term) (n line : Int) (h : t.FromStart) :
    t.Names n line ↔
      (t.anchor ≤ line ∧ line ≤ t.limit) ∧ (line - t.anchor + 1) % t.step = 0 := by
  have ordered := t.normal
  unfold Normal at ordered
  unfold FromStart at h
  simp only [Names, h, if_true]
  rw [min_eq_left (by omega), max_eq_right (by omega)]

theorem selects_iff_names (t : Term) (n line : Int) :
    t.Selects n line ↔ (1 ≤ line ∧ line ≤ n) ∧ t.Names n line := by
  rw [Selects, between_window_iff]
  rfl

theorem lineOf_of_pos {bound : Int} (h : 0 < bound) (n : Int) : lineOf bound n = bound := if_pos h

theorem lineOf_of_neg {bound : Int} (h : bound < 0) (n : Int) :
    lineOf bound n = n + bound + 1 :=
  if_neg (not_lt_of_gt h)

theorem window_of_fromStart {t : Term} {n : Int} (h : t.FromStart) :
    t.window n = (t.anchor, t.limit) := by
  have ordered := t.normal
  unfold Normal at ordered
  unfold FromStart at h
  rw [window, lineOf_of_pos h.1, lineOf_of_pos h.2]
  exact if_pos (by omega)

theorem wants_iff_selects_of_fromStart (t : Term) (n line : Int) (h : t.FromStart)
    (inside : 1 ≤ line ∧ line ≤ n) : t.Wants line ↔ t.Selects n line := by
  unfold FromStart at h
  simp only [Wants, Selects, place, window_of_fromStart h, h, inside, if_true]
  constructor
  · rintro ⟨_, ⟨low, high⟩, onStep⟩
    exact ⟨⟨trivial, trivial⟩, ⟨low, by omega⟩, onStep⟩
  · rintro ⟨_, ⟨low, high⟩, onStep⟩
    exact ⟨trivial, ⟨low, .inr high⟩, onStep⟩

/-- Before the last `capacity` lines a term that waits is already decided: every bound that counts
from the end lies behind the line, so the term goes on there if it has started. -/
theorem wants_iff_selects_of_le_sub (t : Term) (n line capacity : Int)
    (anchor : -t.anchor ≤ capacity) (limit : -t.limit ≤ capacity)
    (inside : 1 ≤ line ∧ line ≤ n) (before : line ≤ n - capacity) :
    t.Wants line ↔ t.Selects n line := by
  by_cases known : t.FromStart
  · exact t.wants_iff_selects_of_fromStart n line known inside
  have ordered := t.normal
  unfold Normal at ordered
  unfold FromStart at known
  have endless : t.limit < 0 := by omega
  have limit_behind : line < lineOf t.limit n := by
    rw [lineOf_of_neg endless]
    omega
  rw [Selects, between_window_iff]
  by_cases start : 0 < t.anchor
  · have at_anchor : lineOf t.anchor n = t.anchor := if_pos start
    simp only [Wants, place, start, endless, inside, at_anchor, if_true, true_or]
    constructor
    · rintro ⟨_, ⟨low, _⟩, onStep⟩
      exact ⟨⟨trivial, trivial⟩, ⟨by omega, by omega⟩, onStep⟩
    · rintro ⟨_, ⟨low, _⟩, onStep⟩
      exact ⟨trivial, ⟨by omega, trivial⟩, onStep⟩
  · have anchor_behind : line < lineOf t.anchor n := by
      rw [lineOf_of_neg (by omega)]
      omega
    constructor
    · intro wanted
      exact absurd wanted.1 start
    · rintro ⟨_, ⟨low, _⟩, _⟩
      omega

end Term

/-- Every line with its number. -/
def numbered (xs : List α) : List (Int × α) := xs.mapIdx (fun k a => ((k : Int) + 1, a))

theorem mem_numbered_iff (xs : List α) (line : Int) (a : α) :
    (line, a) ∈ numbered xs ↔ itemAt xs line = some a := by
  rw [numbered, List.mem_mapIdx, itemAt]
  constructor
  · rintro ⟨k, hk, same⟩
    obtain ⟨rfl, rfl⟩ := Prod.mk.inj same
    rw [if_pos (by omega), Int.add_sub_cancel, Int.toNat_natCast, List.getElem?_eq_getElem hk]
  · intro found
    split at found
    · obtain ⟨hk, same⟩ := List.getElem?_eq_some_iff.mp found
      exact ⟨(line - 1).toNat, hk, by rw [same]; exact Prod.ext (by omega) rfl⟩
    · simp at found

theorem itemAt_eq_some_iff (xs : List α) (line : Int) (a : α) :
    itemAt xs line = some a ↔ ∃ k, ∃ hk : k < xs.length, line = k + 1 ∧ xs[k] = a := by
  simp only [← mem_numbered_iff, numbered, List.mem_mapIdx, Prod.mk.injEq, eq_comm]

theorem map_snd_numbered (xs : List α) : (numbered xs).map Prod.snd = xs := by
  apply List.ext_getElem?
  intro k
  simp only [numbered, List.getElem?_map, List.getElem?_mapIdx, Option.map_map]
  exact Option.map_id'

theorem numbered_ascends (xs : List α) : (numbered xs).Pairwise (fun e f => e.1 < f.1) := by
  rw [List.pairwise_iff_getElem]
  intro i j hi hj before
  simp only [numbered, List.getElem_mapIdx]
  omega

theorem itemAt_append_left (xs ys : List α) (line : Int) (h : line ≤ xs.length) :
    itemAt (xs ++ ys) line = itemAt xs line := by
  unfold itemAt
  split
  · exact List.getElem?_append_left (by omega)
  · rfl

/-- Two selections of lines that ascend and have the same members are the same. -/
theorem eq_of_ascends {es fs : List (Int × α)} (he : es.Pairwise (fun e f => e.1 < f.1))
    (hf : fs.Pairwise (fun e f => e.1 < f.1)) (h : ∀ e, e ∈ es ↔ e ∈ fs) : es = fs := by
  have irreflexive : Std.Irrefl (fun e f : Int × α => e.1 < f.1) := ⟨fun e => lt_irrefl e.1⟩
  have antisymmetric : Std.Antisymm (fun e f : Int × α => e.1 < f.1) :=
    ⟨fun _ _ before after => absurd after (lt_asymm before)⟩
  exact he.eq_of_mem_iff hf h

/-- The selection that is made with the whole input at hand. -/
def materialised (terms : List Term) (xs : List α) : List (Int × α) :=
  (numbered xs).filter (fun e => ∃ t ∈ terms, t.Names xs.length e.1)

theorem mem_materialised_iff (terms : List Term) (xs : List α) (line : Int) (a : α) :
    (line, a) ∈ materialised terms xs ↔
      itemAt xs line = some a ∧ ∃ t ∈ terms, t.Names xs.length line := by
  rw [materialised, List.mem_filter, mem_numbered_iff, decide_eq_true_eq]

theorem materialised_ascends (terms : List Term) (xs : List α) :
    (materialised terms xs).Pairwise (fun e f => e.1 < f.1) :=
  (numbered_ascends xs).filter _

theorem inside_of_itemAt {xs : List α} {line : Int} {a : α} (h : itemAt xs line = some a) :
    1 ≤ line ∧ line ≤ xs.length := by
  by_contra outside
  rw [itemAt_eq_none xs line (by omega)] at h
  cases h

theorem materialised_all (xs : List α) : materialised [Term.all] xs = numbered xs := by
  rw [materialised, List.filter_eq_self]
  rintro ⟨line, a⟩ mem
  have inside := inside_of_itemAt ((mem_numbered_iff xs line a).mp mem)
  rw [decide_eq_true_eq]
  refine ⟨Term.all, List.mem_singleton_self _, ?_, Int.emod_one _⟩
  change min 1 ((xs.length : Int) + -1 + 1) ≤ line ∧ line ≤ max 1 ((xs.length : Int) + -1 + 1)
  omega

/-- If all terms count from the start, later lines change nothing for the earlier ones. -/
theorem materialised_append (terms : List Term) (xs ys : List α)
    (known : ∀ t ∈ terms, t.FromStart) :
    (materialised terms (xs ++ ys)).filter (fun e => e.1 ≤ (xs.length : Int)) =
      materialised terms xs := by
  refine eq_of_ascends ((materialised_ascends _ _).filter _) (materialised_ascends _ _) ?_
  rintro ⟨line, a⟩
  have same : (∃ t ∈ terms, t.Names (xs ++ ys).length line) ↔
      ∃ t ∈ terms, t.Names xs.length line := by
    refine exists_congr fun t => and_congr_right fun ht => ?_
    rw [t.names_iff_of_fromStart _ _ (known t ht), t.names_iff_of_fromStart _ _ (known t ht)]
  rw [List.mem_filter, mem_materialised_iff, mem_materialised_iff, same, decide_eq_true_eq]
  constructor
  · rintro ⟨⟨found, named⟩, before⟩
    rw [itemAt_append_left xs ys line before] at found
    exact ⟨found, named⟩
  · rintro ⟨found, named⟩
    have before := (inside_of_itemAt found).2
    rw [itemAt_append_left xs ys line before]
    exact ⟨⟨found, named⟩, before⟩

/-- Lines behind every limit are not selected, so they need not be read. -/
theorem materialised_take (terms : List Term) (xs : List α) (k : Nat) (enough : k ≤ xs.length)
    (bound : ∀ t ∈ terms, t.FromStart ∧ t.limit ≤ k) :
    materialised terms (xs.take k) = materialised terms xs := by
  rw [← materialised_append terms (xs.take k) (xs.drop k) (fun t ht => (bound t ht).1),
    List.take_append_drop, List.filter_eq_self]
  rintro ⟨line, a⟩ selected
  obtain ⟨t, ht, named⟩ := ((mem_materialised_iff terms xs line a).mp selected).2
  obtain ⟨known, limit⟩ := bound t ht
  have last := ((t.names_iff_of_fromStart _ _ known).mp named).1.2
  rw [decide_eq_true_eq, List.length_take_of_le enough]
  omega

/-- A map of lines is listed as the materialised selection once it holds what the terms select. -/
theorem toList_eq_materialised (terms : List Term) (xs : List α) (kept : Kept α)
    (h : ∀ line : Int, kept[line]? =
      if ∃ t ∈ terms, t.Selects xs.length line then itemAt xs line else none) :
    kept.toList = materialised terms xs := by
  refine eq_of_ascends ?_ (materialised_ascends terms xs) ?_
  · refine Std.ExtTreeMap.ordered_keys_toList.imp ?_
    intro e f before
    exact Int.compare_eq_lt.mp before
  · rintro ⟨line, a⟩
    rw [Std.ExtTreeMap.mem_toList_iff_getElem?_eq_some, h, mem_materialised_iff,
      Option.ite_none_right_eq_some, and_comm]
    refine and_congr_right ?_
    intro found
    simp only [Term.selects_iff_names, inside_of_itemAt found, and_self, true_and]

end Excerpt
