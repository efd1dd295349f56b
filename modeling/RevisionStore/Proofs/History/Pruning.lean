import RevisionStore.History.Prune
import RevisionStore.Proofs.History.Selection

/-!
# What pruning leaves of a history

`Pruned rule guarded` relates what is filed under a key before and after any amount of
pruning that guards the same revisions. A history that is left keeps its most recent
change and the answer of every guarded lookup. One that goes altogether ended in a
tombstone, and no guarded lookup found anything but that tombstone.
-/

namespace RevisionStore

namespace History

variable {K V : Type} {h h' : History K V} {rule : Lookup} {guarded : List Revision}
  {cut : Revision} {c : Change K V}

/-- What may become of the history filed under a key when guarded lookups must not change. -/
inductive Pruned (rule : Lookup) (guarded : List Revision) :
    Option (History K V) → Option (History K V) → Prop
  -- where nothing is filed, nothing comes to be
  | absent : Pruned rule guarded none none
  -- changes may go, but not the most recent one and none with which a guarded lookup answers
  | thinned {h h' : History K V} (key : h'.key = h.key) (fewer : h'.changes ⊆ h.changes)
      (head : h'.head? = h.head?)
      (answers : ∀ p ∈ guarded, h'.select? rule p = h.select? rule p) :
      Pruned rule guarded (some h) (some h')
  -- a history may go if it ends in a tombstone, which is all that guarded lookups find
  | emptied {h : History K V} {c : Change K V} (head : h.head? = some c)
      (tombstone : c.isTombstone = true)
      (answers : ∀ p ∈ guarded, ∀ d, h.select? rule p = some d → d = c) :
      Pruned rule guarded (some h) none

namespace Pruned

variable {before middle after : Option (History K V)}

theorem refl : ∀ filed : Option (History K V), Pruned rule guarded filed filed
  | none => .absent
  | some _ => .thinned rfl (fun _ => id) rfl fun _ _ => rfl

theorem trans (first : Pruned rule guarded before middle)
    (second : Pruned rule guarded middle after) : Pruned rule guarded before after := by
  cases first with
  | absent => exact second
  | emptied head tombstone answers =>
    cases second with
    | absent => exact .emptied head tombstone answers
  | thinned key fewer head answers =>
    cases second with
    | thinned key' fewer' head' answers' =>
      refine .thinned (key'.trans key) (fun _ member => fewer (fewer' member)) (head'.trans head) ?_
      exact fun p hp => (answers' p hp).trans (answers p hp)
    | emptied head' tombstone answers' =>
      refine .emptied (head.symm.trans head') tombstone fun p hp d selected => ?_
      exact answers' p hp d ((answers p hp).trans selected)

/-- Where nothing is filed, pruning makes nothing. -/
theorem eq_none (pruned : Pruned rule guarded none after) : after = none := by
  cases pruned
  rfl

/-- A history of which something is left has changes left. -/
theorem ne_nil (pruned : Pruned rule guarded (some h) (some h')) (filled : h.changes ≠ []) :
    h'.changes ≠ [] := by
  cases pruned with
  | thinned key fewer head answers =>
    intro nothing
    exact filled (head?_eq_none_iff.1 (head.symm.trans (head?_eq_none_iff.2 nothing)))

end Pruned

/-! ## One pruning -/

theorem mem_keep {p : Change K V → Bool} : c ∈ (h.keep p).changes ↔ c ∈ h.changes ∧ p c = true :=
  List.mem_filter

/-- The most recent change is never thinned out. -/
theorem not_isDoomed_of_head? (head : h.head? = some c) :
    h.isDoomed rule guarded cut c.revision = false := by
  simp [isDoomed, lastRevision?, head]

/-- No change with which a guarded lookup answers is thinned out. -/
theorem not_isDoomed_of_select? {p : Revision} (guards : p ∈ guarded)
    (selected : h.select? rule p = some c) : h.isDoomed rule guarded cut c.revision = false := by
  have seen : c.revision ∈ h.observed rule guarded :=
    List.mem_filterMap.2 ⟨p, guards, by simp [visibleRevision?, selected]⟩
  simp [isDoomed, seen]

/-- Thinning leaves what lies above the cut, the most recent change, and what guarded lookups
answer with. -/
theorem mem_thin_iff :
    c ∈ (h.thin rule guarded cut).changes ↔
      c ∈ h.changes ∧ (cut < c.revision ∨ h.head? = some c ∨
        ∃ p ∈ guarded, h.select? rule p = some c) := by
  rw [thin, mem_keep]
  refine and_congr_right fun member => ?_
  rw [Bool.not_eq_true']
  constructor
  · intro stays
    by_cases above : cut < c.revision
    · exact .inl above
    by_cases last : h.lastRevision? = some c.revision
    · obtain ⟨d, head, same⟩ := Option.map_eq_some_iff.1 last
      obtain rfl := eq_of_revision_eq (mem_of_head? head) member same
      exact .inr (.inl head)
    · have seen : c.revision ∈ h.observed rule guarded := by
        simpa [isDoomed, Nat.not_lt.1 above, last] using stays
      obtain ⟨p, guards, visible⟩ := List.mem_filterMap.1 seen
      obtain ⟨d, selected, same⟩ := Option.map_eq_some_iff.1 visible
      obtain rfl := eq_of_revision_eq (mem_of_select? selected) member same
      exact .inr (.inr ⟨p, guards, selected⟩)
  · rintro (above | head | ⟨p, guards, selected⟩)
    · simp [isDoomed, Nat.not_le.2 above]
    · exact not_isDoomed_of_head? head
    · exact not_isDoomed_of_select? guards selected

theorem head?_thin : (h.thin rule guarded cut).head? = h.head? := by
  cases head : h.head? with
  | none =>
    have empty : h.changes = [] := head?_eq_none_iff.1 head
    exact head?_eq_none_iff.2 (by simp [thin, keep, empty])
  | some c =>
    obtain ⟨member, newest⟩ := head?_eq_some_iff.1 head
    refine head?_eq_some_iff.2 ⟨mem_keep.2 ⟨member, ?_⟩, fun d hd => newest d (mem_keep.1 hd).1⟩
    simp [not_isDoomed_of_head? head]

theorem select?_thin {p : Revision} (guards : p ∈ guarded) :
    (h.thin rule guarded cut).select? rule p = h.select? rule p := by
  refine select?_eq_of_subset (fun _ member => (mem_keep.1 member).1) fun c selected => ?_
  refine mem_keep.2 ⟨mem_of_select? selected, ?_⟩
  simp [not_isDoomed_of_select? guards selected]

theorem pruned_thin (cut : Revision) :
    Pruned rule guarded (some h) (some (h.thin rule guarded cut)) := by
  have fewer : (h.thin rule guarded cut).changes ⊆ h.changes :=
    fun _ member => (mem_keep.1 member).1
  exact .thinned rfl fewer head?_thin fun _ guards => select?_thin guards

theorem isLoneTombstone_iff :
    h.isLoneTombstone = true ↔ ∃ c, h.changes = [c] ∧ c.isTombstone = true := by
  rw [isLoneTombstone, Bool.and_eq_true, beq_iff_eq, List.length_eq_one_iff]
  constructor
  · rintro ⟨⟨c, only⟩, deleted⟩
    exact ⟨c, only, by simpa [isDeletedAtHead, head?, only] using deleted⟩
  · rintro ⟨c, only, tombstone⟩
    exact ⟨⟨c, only⟩, by simpa [isDeletedAtHead, head?, only] using tombstone⟩

theorem prune_of_lone (lone : (h.thin rule guarded cut).isLoneTombstone = true) :
    (h.prune rule guarded cut).1 = empty h.key := by
  simp only [prune, lone, if_true]

theorem prune_of_not_lone (kept : (h.thin rule guarded cut).isLoneTombstone = false) :
    (h.prune rule guarded cut).1 = h.thin rule guarded cut := by
  simp only [prune, kept, Bool.false_eq_true, if_false]

/-- Pruning thins a history, and empties it if a tombstone is left alone. -/
theorem prune_cases (h : History K V) (rule : Lookup) (guarded : List Revision) (cut : Revision) :
    (∃ c, (h.thin rule guarded cut).changes = [c] ∧ c.isTombstone = true ∧
        (h.prune rule guarded cut).1 = empty h.key) ∨
      (h.thin rule guarded cut).isLoneTombstone = false ∧
        (h.prune rule guarded cut).1 = h.thin rule guarded cut := by
  cases lone : (h.thin rule guarded cut).isLoneTombstone with
  | true =>
    obtain ⟨c, only, tombstone⟩ := isLoneTombstone_iff.1 lone
    exact .inl ⟨c, only, tombstone, prune_of_lone lone⟩
  | false => exact .inr ⟨rfl, prune_of_not_lone lone⟩

/-- What stays filed after one pruning: nothing, if nothing is left. -/
def remainder (h : History K V) (rule : Lookup) (guarded : List Revision) (cut : Revision) :
    Option (History K V) :=
  let pruned := (h.prune rule guarded cut).1
  if pruned.isEmpty then none else some pruned

theorem pruned_remainder (filled : h.changes ≠ []) :
    Pruned rule guarded (some h) (h.remainder rule guarded cut) := by
  refine (pruned_thin cut).trans ?_
  have left : (h.thin rule guarded cut).changes ≠ [] := (pruned_thin cut).ne_nil filled
  obtain ⟨c, only, tombstone, emptied⟩ | ⟨_, thinned⟩ := h.prune_cases rule guarded cut
  · have head : (h.thin rule guarded cut).head? = some c := by simp [head?, only]
    simp only [remainder, emptied, isEmpty, empty, List.isEmpty_nil, if_true]
    refine .emptied head tombstone fun p _ d selected => ?_
    simpa [only] using mem_of_select? selected
  · simpa [remainder, thinned, isEmpty, left] using Pruned.refl (some _)

end History

end RevisionStore
