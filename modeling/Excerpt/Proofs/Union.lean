import Excerpt.Proofs.Streaming

/-!
# Terms side by side

Terms select independently of each other: two lists of terms together select
what each of them selects alone, however the runs differ in where they stop, in
how many lines they hold and in which they correct. Order and repetition of the
terms make no difference to a run, not even to how far it reads.
-/

namespace Excerpt

variable {α : Type}

namespace Plan

theorem Feasible.append {ts us : List Term} (hts : Feasible ts) (hus : Feasible us) :
    Feasible (ts ++ us) := by
  rw [feasible_iff] at hts hus ⊢
  exact List.forall_mem_append.mpr ⟨hts, hus⟩

theorem foldr_max_mono {ms ns : List Nat} (part : ms ⊆ ns) :
    ms.foldr max 0 ≤ ns.foldr max 0 := by
  apply List.max_le_of_forall_le
  intro n mem
  exact List.le_max_of_le (part mem) le_rfl

section SameTerms

variable {ts us : List Term} (same : ∀ t, t ∈ us ↔ t ∈ ts)

include same

theorem Feasible.of_same (h : Feasible ts) : Feasible us := by
  rw [feasible_iff] at h ⊢
  intro t ht
  exact h t ((same t).mp ht)

theorem lastNeeded_of_same : lastNeeded us = lastNeeded ts := by
  have empty : us ≠ [] ↔ ts ≠ [] := by
    rw [ne_eq, ne_eq, List.eq_nil_iff_forall_not_mem, List.eq_nil_iff_forall_not_mem]
    simp only [same]
  have known : (∀ t ∈ us, t.FromStart) ↔ ∀ t ∈ ts, t.FromStart := by
    simp only [same]
  have greatest := le_antisymm
    (foldr_max_mono (List.map_subset (fun t => t.limit.toNat) fun t => (same t).mp))
    (foldr_max_mono (List.map_subset (fun t => t.limit.toNat) fun t => (same t).mpr))
  exact if_congr (and_congr empty known) (congrArg Nat.cast greatest) rfl

end SameTerms

end Plan

theorem materialised_of_same {ts us : List Term} (same : ∀ t, t ∈ us ↔ t ∈ ts) (xs : List α) :
    materialised us xs = materialised ts xs := by
  unfold materialised
  simp only [same]

theorem mem_materialised_append_iff (ts us : List Term) (xs : List α) (e : Int × α) :
    e ∈ materialised (ts ++ us) xs ↔ e ∈ materialised ts xs ∨ e ∈ materialised us xs := by
  obtain ⟨line, a⟩ := e
  simp only [mem_materialised_iff, List.mem_append, or_and_right, exists_or, and_or_left]

namespace Run

/-- A run is told by the terms that it is given, in whatever order and however often: how it ends is
decided by its last needed line and by its source. -/
theorem ofTerms_of_same {ts us : List Term} (feasible : Plan.Feasible ts)
    (same : ∀ t, t ∈ us ↔ t ∈ ts) (s : Source α) :
    (ofTerms us s).outcome = (ofTerms ts s).outcome ∧
      (ofTerms us s).source = (ofTerms ts s).source := by
  have feasible' : Plan.Feasible us := feasible.of_same same
  have needed := Plan.lastNeeded_of_same same
  obtain ⟨k, last, enough, outcome, source⟩ | ⟨n, count, below, ends, outcome, source⟩ |
    ⟨n, reason, count, below, fails, outcome, source⟩ | ⟨last, endless, outcome, source⟩ :=
    ofTerms_cases feasible s
  · rw [outcome, source, ← materialised_of_same same]
    exact ofTerms_stops feasible' s k (needed.trans last) enough
  · rw [outcome, source, ← materialised_of_same same]
    exact ofTerms_ends feasible' s n count ends (needed ▸ below)
  · rw [outcome, source]
    exact ofTerms_fails feasible' s n count reason fails (needed ▸ below)
  · rw [outcome, source]
    exact ofTerms_unending feasible' s (needed.trans last) endless

end Run

/-- Two lists of terms together select what each of them selects; a list with the same terms, in
another order or with repetitions, makes the very same run. -/
theorem Run.terms_unite (ts us : List Term) (hts : Plan.Feasible ts) (hus : Plan.Feasible us)
    (lines : List α) :
    (∃ first second both, (Run.ofTerms ts (Source.ofList lines)).outcome = .ok first ∧
      (Run.ofTerms us (Source.ofList lines)).outcome = .ok second ∧
      (Run.ofTerms (ts ++ us) (Source.ofList lines)).outcome = .ok both ∧
      ∀ e, e ∈ both.numbered ↔ e ∈ first.numbered ∨ e ∈ second.numbered) ∧
    ∀ ts' : List Term, (∀ t, t ∈ ts' ↔ t ∈ ts) →
      (Run.ofTerms ts' (Source.ofList lines)).outcome =
        (Run.ofTerms ts (Source.ofList lines)).outcome := by
  constructor
  · obtain ⟨first, outcome, selected⟩ := Run.numbered_ofTerms_ofList hts lines
    obtain ⟨second, outcome', selected'⟩ := Run.numbered_ofTerms_ofList hus lines
    obtain ⟨both, outcome'', selected''⟩ := Run.numbered_ofTerms_ofList (hts.append hus) lines
    refine ⟨first, second, both, outcome, outcome', outcome'', ?_⟩
    intro e
    rw [selected, selected', selected'', mem_materialised_append_iff]
  · intro ts' same
    exact (Run.ofTerms_of_same hts same (Source.ofList lines)).1

/-- A reversed mixed term and a counted one beside one from the end, over six lines. -/
theorem Run.terms_unite_repeated :
    (∃ both, (Run.ofTerms [⟨5, -3, 1, by decide, by decide⟩, ⟨1, 3, 2, by decide, by decide⟩,
        ⟨-1, -2, 1, by decide, by decide⟩]
        (Source.ofList ["a", "b", "c", "d", "e", "f"])).outcome = .ok both ∧
      (4, "d") ∈ both.numbered ∧ (6, "f") ∈ both.numbered) ∧
    (Run.ofTerms [⟨1, 3, 2, by decide, by decide⟩, ⟨5, -3, 1, by decide, by decide⟩,
        ⟨1, 3, 2, by decide, by decide⟩]
        (Source.ofList ["a", "b", "c", "d", "e", "f"])).outcome =
      (Run.ofTerms [⟨5, -3, 1, by decide, by decide⟩, ⟨1, 3, 2, by decide, by decide⟩]
        (Source.ofList ["a", "b", "c", "d", "e", "f"])).outcome := by
  obtain ⟨⟨first, second, both, outcome, outcome', outcome'', union⟩, again⟩ := Run.terms_unite
    [⟨5, -3, 1, by decide, by decide⟩, ⟨1, 3, 2, by decide, by decide⟩]
    [⟨-1, -2, 1, by decide, by decide⟩] ⟨by decide +kernel, by decide +kernel⟩
    ⟨by decide +kernel, by decide +kernel⟩ ["a", "b", "c", "d", "e", "f"]
  have known : (Run.ofTerms [⟨5, -3, 1, by decide, by decide⟩, ⟨1, 3, 2, by decide, by decide⟩]
      (Source.ofList ["a", "b", "c", "d", "e", "f"])).outcome =
        .ok ⟨[(2, "b"), (4, "d"), (5, "e")], 6, false⟩ := by decide +kernel
  have known' : (Run.ofTerms [⟨-1, -2, 1, by decide, by decide⟩]
      (Source.ofList ["a", "b", "c", "d", "e", "f"])).outcome =
        .ok ⟨[(5, "e"), (6, "f")], 6, false⟩ := by decide +kernel
  obtain rfl := Except.ok.inj (outcome.symm.trans known)
  obtain rfl := Except.ok.inj (outcome'.symm.trans known')
  refine ⟨⟨both, outcome'', (union _).mpr (.inl (by decide)), (union _).mpr (.inr (by decide))⟩, ?_⟩
  apply again
  intro t
  simp only [List.mem_cons, List.not_mem_nil, or_false]
  rw [or_left_comm, or_self]

end Excerpt
