import RevisionStore.Proofs.History.Pruning

/-!
# Histories that lose their oldest changes

Pruning under `latestPrior` with nothing guarded below the cut takes changes from the old end
of a history only: what a guarded lookup answers with is the newest change below it, and
everything from there on stays. What is left is a suffix (`remainder_suffix`), in which a
lookup that finds anything finds what it would have found in the whole (`getLast?_filter`).
A history that ends in a tombstone next to the cut loses everything (`remainder_eq_none`).
-/

namespace RevisionStore

/-- What a condition leaves of a list in which it passes on to later elements is a suffix. -/
theorem filter_suffix_of_pairwise {α : Type} {p : α → Bool} {l : List α}
    (upward : l.Pairwise fun a b => p a = true → p b = true) : l.filter p <:+ l := by
  induction l with
  | nil => exact List.suffix_refl _
  | cons a l ih =>
    obtain ⟨onward, upward⟩ := List.pairwise_cons.1 upward
    by_cases holds : p a = true
    · have each : ∀ b ∈ a :: l, p b = true :=
        List.forall_mem_cons.2 ⟨holds, fun b member => onward b member holds⟩
      simp only [List.filter_eq_self.2 each, List.suffix_refl]
    · rw [List.filter_cons_of_neg holds]
      exact (ih upward).trans (List.suffix_cons a l)

/-- The last match in a suffix, if there is one, is the last match in the whole. -/
theorem getLast?_filter_of_suffix {α : Type} {p : α → Bool} {l l' : List α} {a : α}
    (suffix : l' <:+ l) (last : (l'.filter p).getLast? = some a) :
    (l.filter p).getLast? = some a := by
  obtain ⟨before, rfl⟩ := suffix
  simp [List.filter_append, List.getLast?_append, last]

namespace History

variable {K V : Type} {h h' : History K V} {guarded : List Revision} {cut r : Revision}
  {c : Change K V}

/-- Under `latestPrior` a lookup answers with the last change at or below its revision. -/
theorem select?_latest_eq_getLast? :
    h.select? .latestPrior r = (h.changes.filter fun d => d.revision ≤ r).getLast? := by
  have kept : (h.changes.filter fun d => d.revision ≤ r).getLast? =
      (h.keep fun d => d.revision ≤ r).head? := rfl
  rw [kept]
  refine Option.ext fun c => ?_
  simp only [select?_eq_some_iff, head?_eq_some_iff, mem_keep, decide_eq_true_eq,
    Lookup.Prefers, and_imp, and_assoc]

/-- A later change is recorded at the end. -/
theorem changes_insert (later : ∀ d ∈ h.changes, d.revision < c.revision) :
    (h.insert c).changes = h.changes ++ [c] := by
  have before : h.changes.filter (fun d => d.revision < c.revision) = h.changes :=
    List.filter_eq_self.2 fun d member => by simpa using later d member
  have after : h.changes.filter (fun d => c.revision < d.revision) = [] :=
    List.filter_eq_nil_iff.2 fun d member => by simpa using Nat.le_of_lt (later d member)
  simp only [insert, place, before, after]

/-- A history of nothing but one change. -/
theorem changes_eq_singleton (member : c ∈ h.changes) (only : ∀ d ∈ h.changes, d = c) :
    h.changes = [c] := by
  obtain ⟨key, changes, ascending⟩ := h
  cases changes with
  | nil => cases member
  | cons d rest =>
    obtain rfl := only d List.mem_cons_self
    have first := (List.pairwise_cons.1 ascending).1
    have empty : rest = [] := by
      refine List.eq_nil_iff_forall_not_mem.2 fun e later => ?_
      have before := first e later
      rw [only e (List.mem_cons_of_mem _ later)] at before
      exact Nat.lt_irrefl _ before
    exact congrArg _ empty

/-! ## Guarded from the cut on -/

/-- If nothing is guarded below the cut, a change that stays has everything after it stay. -/
theorem thin_suffix (above : ∀ p ∈ guarded, cut ≤ p) :
    (h.thin .latestPrior guarded cut).changes <:+ h.changes := by
  apply filter_suffix_of_pairwise
  refine h.ascending.imp_of_mem fun {a b} ha hb before stays => ?_
  have kept : a ∈ (h.thin .latestPrior guarded cut).changes := mem_keep.2 ⟨ha, stays⟩
  refine (mem_keep.1 (mem_thin_iff.2 ⟨hb, ?_⟩)).2
  obtain beyond | head | ⟨p, guards, selected⟩ := (mem_thin_iff.1 kept).2
  · exact .inl (Nat.lt_trans beyond before)
  · exact absurd ((head?_eq_some_iff.1 head).2 b hb) (Nat.not_le_of_lt before)
  · -- the lookup that observes the earlier change would have preferred the later one
    refine .inl (Nat.lt_of_not_le fun below => ?_)
    have preferred :=
      (select?_eq_some_iff.1 selected).2.2 b hb (Nat.le_trans below (above p guards))
    exact Nat.not_le_of_lt before preferred

theorem remainder_suffix (above : ∀ p ∈ guarded, cut ≤ p)
    (left : h.remainder .latestPrior guarded cut = some h') : h'.changes <:+ h.changes := by
  obtain ⟨_, same⟩ := Option.ite_none_left_eq_some.1 left
  obtain rfl := Option.some.inj same
  simp only [prune]
  split
  next => exact List.nil_suffix
  next => exact thin_suffix above

/-- Nothing is left of a history that ends in a tombstone just above the cut, or below it, if
only lookups are guarded that see the tombstone. -/
theorem remainder_eq_none (head : h.head? = some c) (tombstone : c.isTombstone = true)
    (near : c.revision ≤ cut + 1) (above : ∀ p ∈ guarded, c.revision ≤ p) :
    h.remainder .latestPrior guarded cut = none := by
  obtain ⟨member, newest⟩ := head?_eq_some_iff.1 head
  have only : ∀ d ∈ (h.thin .latestPrior guarded cut).changes, d = c := by
    intro d left
    obtain ⟨there, beyond | newer | ⟨p, guards, selected⟩⟩ := mem_thin_iff.1 left
    · exact eq_of_revision_eq there member
        (Nat.le_antisymm (newest d there) (Nat.le_trans near beyond))
    · exact Option.some.inj (newer.symm.trans head)
    · -- guarded lookups all answer with the tombstone
      have answers := select?_latest_of_head? head (above p guards)
      exact Option.some.inj (selected.symm.trans answers)
  have last : (h.thin .latestPrior guarded cut).head? = some c := head?_thin.trans head
  have single := changes_eq_singleton (mem_of_head? last) only
  have lone : (h.thin .latestPrior guarded cut).isLoneTombstone = true :=
    isLoneTombstone_iff.2 ⟨c, single, tombstone⟩
  simp [remainder, prune_of_lone lone, isEmpty, empty]

end History

end RevisionStore
