import RevisionStore.Proofs.History.Amendments
import RevisionStore.Proofs.History.Pruning

/-!
# Pruning, cut by cut

What thinning at a cut leaves are the changes that matter: those above the cut, the most recent
one, and those with which guarded lookups answer (`mem_thin_iff`). So guarded lookups answer as
before, and nothing at or below the cut stays without a reason (`prune_amended`).

Thinning again decides by the same observations, since no guarded lookup has changed, so that two
cuts thin out as the larger one does (`thin_thin`). A tombstone that is left alone at one cut is
still alone at any other. Hence pruning at several cuts, in whatever order, is pruning at the
largest (`pruneEach_eq_prune`).
-/

namespace RevisionStore

namespace History

variable {K V : Type}

/-- Prune at some cuts, one after the other; also answers how many changes were dropped in all. -/
def pruneEach (h : History K V) (rule : Lookup) (guarded : List Revision) :
    List Revision → History K V × Nat
  | [] => (h, 0)
  | cut :: cuts =>
    let (pruned, dropped) := h.prune rule guarded cut
    let (left, more) := pruned.pruneEach rule guarded cuts
    (left, dropped + more)

variable {h h' : History K V} {rule : Lookup} {guarded cuts : List Revision} {r cut a b : Revision}
  {c : Change K V}

theorem eq_of_changes (key : h'.key = h.key) (changes : h'.changes = h.changes) : h' = h := by
  obtain ⟨_, _, _⟩ := h
  obtain ⟨_, _, _⟩ := h'
  cases key
  cases changes
  rfl

theorem changes_thin : (h.thin rule guarded cut).changes =
    h.changes.filter fun d => !h.isDoomed rule guarded cut d.revision := rfl

/-! ## What matters stays -/

/-- The count of a pruning is that of the changes that are gone. -/
theorem prune_count (h : History K V) (rule : Lookup) (guarded : List Revision) (cut : Revision) :
    (h.prune rule guarded cut).2 + (h.prune rule guarded cut).1.length = h.length := by
  have split : h.changes.length = _ :=
    List.length_eq_length_filter_add fun d => h.isDoomed rule guarded cut d.revision
  cases lone : (h.thin rule guarded cut).isLoneTombstone with
  | true =>
    obtain ⟨c, only, _⟩ := isLoneTombstone_iff.1 lone
    rw [← changes_thin, only] at split
    simp only [prune, lone, if_true, length, empty]
    exact split.symm
  | false =>
    simp only [prune, lone, Bool.false_eq_true, if_false, length]
    exact split.symm

/-- Pruning leaves no tombstone alone. -/
theorem isLoneTombstone_prune : (h.prune rule guarded cut).1.isLoneTombstone = false := by
  obtain ⟨_, _, _, emptied⟩ | ⟨kept, thinned⟩ := h.prune_cases rule guarded cut
  · rw [emptied]
    rfl
  · rw [thinned, kept]

/-- Guarded lookups read as before if archives recollect nothing. -/
theorem readAt_prune (coherent : ∀ d ∈ h.changes, d.Coherent) {p : Revision}
    (guards : p ∈ guarded) :
    (h.prune rule guarded cut).1.readAt rule (fun _ _ => none) p =
      h.readAt rule (fun _ _ => none) p := by
  have answers : (h.thin rule guarded cut).select? rule p = h.select? rule p := select?_thin guards
  obtain ⟨c, only, tombstone, emptied⟩ | ⟨_, thinned⟩ := h.prune_cases rule guarded cut
  · -- the lookup found the tombstone, or nothing, and finds nothing now
    have after : (empty h.key : History K V).select? rule p = none :=
      select?_eq_none_iff.2 (by rintro d ⟨⟩)
    rw [emptied, readAt_of_unselected after]
    cases selected : h.select? rule p with
    | none => rw [readAt_of_unselected selected]
    | some d =>
      have left : d ∈ (h.thin rule guarded cut).changes := mem_of_select? (answers.trans selected)
      obtain rfl : d = c := by simpa [only] using left
      have silent : d.value? = none :=
        (coherent d (mem_of_select? selected)).value?_eq_none tombstone
      rw [readAt_of_select? selected, silent, Option.map_none]
      rfl
  · rw [thinned, readAt, readAt, answers]

/-- What pruning drops of the changes above the cut and of the most recent one: nothing, unless a
tombstone is all that matters. -/
theorem mem_prune_or (h : History K V) (rule : Lookup) (guarded : List Revision) (cut : Revision) :
    (∀ c ∈ h.changes, cut < c.revision ∨ h.head? = some c →
        c ∈ (h.prune rule guarded cut).1.changes) ∨
      (h.prune rule guarded cut).1.changes = [] ∧
        ∃ c, h.head? = some c ∧ c.isTombstone = true ∧
          ∀ d ∈ h.changes, d ≠ c →
            d.revision ≤ cut ∧ ∀ p ∈ guarded, h.select? rule p ≠ some d := by
  obtain ⟨c, only, tombstone, emptied⟩ | ⟨_, thinned⟩ := h.prune_cases rule guarded cut
  · have same : (h.thin rule guarded cut).head? = h.head? := head?_thin
    have head : h.head? = some c := by
      rw [← same, head?, only]
      rfl
    refine .inr ⟨by rw [emptied]; rfl, c, head, tombstone, fun d member other => ?_⟩
    have gone : d ∉ (h.thin rule guarded cut).changes := by simpa [only] using other
    refine ⟨Nat.not_lt.1 fun above => gone ?_, fun p guards selected => gone ?_⟩
    · exact mem_thin_iff.2 ⟨member, .inl above⟩
    · exact mem_thin_iff.2 ⟨member, .inr (.inr ⟨p, guards, selected⟩)⟩
  · refine .inl fun c member matters => ?_
    rw [thinned]
    exact mem_thin_iff.2 ⟨member, matters.imp_right .inl⟩

/-- What stays at or below the cut is the most recent change or the answer of a guarded lookup. -/
theorem matters_of_mem_prune (stays : c ∈ (h.prune rule guarded cut).1.changes)
    (below : c.revision ≤ cut) :
    h.head? = some c ∧ (h.prune rule guarded cut).1.head? = some c ∨
      ∃ p ∈ guarded, h.select? rule p = some c ∧
        (h.prune rule guarded cut).1.select? rule p = some c := by
  obtain ⟨_, _, _, emptied⟩ | ⟨_, thinned⟩ := h.prune_cases rule guarded cut
  · rw [emptied] at stays
    cases stays
  · rw [thinned] at stays ⊢
    obtain above | head | ⟨p, guards, selected⟩ := (mem_thin_iff.1 stays).2
    · exact absurd above (Nat.not_lt.2 below)
    · exact .inl ⟨head, head?_thin.trans head⟩
    · exact .inr ⟨p, guards, selected, (select?_thin guards).trans selected⟩

theorem prune_sublist : (h.prune rule guarded cut).1.changes.Sublist h.changes := by
  obtain ⟨_, _, _, emptied⟩ | ⟨_, thinned⟩ := h.prune_cases rule guarded cut
  · rw [emptied]
    exact List.nil_sublist _
  · rw [thinned]
    exact List.filter_sublist

/-- Whatever history is built, and whatever is guarded: pruning at a cut leaves reads at guarded
revisions as they are, if archives recollect nothing. It invents no change, and drops neither the
most recent one nor any above the cut, unless a tombstone is all that is left, which goes as well.
What stays at or below the cut is the most recent change or the answer of a guarded lookup. The
count is that of the changes that are gone. -/
theorem prune_amended (k : K) (amendments : List (Amendment V)) (rule : Lookup)
    (guarded : List Revision) (cut : Revision) :
    let h := amended k amendments
    let left := (h.prune rule guarded cut).1
    (∀ p ∈ guarded,
        left.readAt rule (fun _ _ => none) p = h.readAt rule (fun _ _ => none) p) ∧
      left.changes.Sublist h.changes ∧
      ((∀ c ∈ h.changes, cut < c.revision ∨ h.head? = some c → c ∈ left.changes) ∨
        left.changes = [] ∧ ∃ c, h.head? = some c ∧ c.isTombstone = true ∧
          ∀ d ∈ h.changes, d ≠ c →
            d.revision ≤ cut ∧ ∀ p ∈ guarded, h.select? rule p ≠ some d) ∧
      (∀ c, left.changes = [c] → c.isTombstone = false) ∧
      (∀ c ∈ left.changes, c.revision ≤ cut →
        h.head? = some c ∧ left.head? = some c ∨
          ∃ p ∈ guarded, h.select? rule p = some c ∧ left.select? rule p = some c) ∧
      (h.prune rule guarded cut).2 + left.length = h.length := by
  intro h left
  have coherent : ∀ d ∈ h.changes, d.Coherent := fun d member =>
    coherent_of_standing (mem_amended.1 member)
  refine ⟨fun p guards => readAt_prune coherent guards, prune_sublist,
    h.mem_prune_or rule guarded cut, fun c only => ?_,
    fun c stays below => matters_of_mem_prune stays below, h.prune_count rule guarded cut⟩
  by_contra tombstone
  have lone := isLoneTombstone_iff.2 ⟨c, only, by simpa using tombstone⟩
  rw [isLoneTombstone_prune] at lone
  cases lone

/-- A key that comes, changes and goes. -/
def worn : History Nat Nat :=
  amended 1 [.added 1 5, .modified 3 7, .deleted 5]

example : (worn.prune .latestPrior [2] 4).1.revisions = [1, 5] := by decide

/-! ## One cut after another -/

theorem observed_thin :
    (h.thin rule guarded cut).observed rule guarded = h.observed rule guarded := by
  refine List.filterMap_congr fun p guards => ?_
  rw [visibleRevision?, visibleRevision?, select?_thin guards]

theorem isDoomed_thin :
    (h.thin rule guarded a).isDoomed rule guarded b r = h.isDoomed rule guarded b r := by
  simp only [isDoomed, lastRevision?, head?_thin, observed_thin]

theorem isDoomed_max :
    h.isDoomed rule guarded (max a b) r =
      (h.isDoomed rule guarded a r || h.isDoomed rule guarded b r) := by
  have below : decide (r ≤ max a b) = (decide (r ≤ a) || decide (r ≤ b)) := by
    rw [← Bool.decide_or, decide_eq_decide]
    exact le_max_iff
  simp only [isDoomed, below, Bool.and_assoc, Bool.and_or_distrib_right]

/-- Thinning twice is thinning at the larger cut. -/
theorem thin_thin :
    (h.thin rule guarded a).thin rule guarded b = h.thin rule guarded (max a b) := by
  refine eq_of_changes rfl ?_
  rw [changes_thin, changes_thin, changes_thin, List.filter_filter]
  refine List.filter_congr fun c _ => ?_
  rw [isDoomed_thin, isDoomed_max, Bool.not_or, Bool.and_comm]

/-- A tombstone that is alone has nothing to be thinned out. -/
theorem thin_of_lone (lone : h.isLoneTombstone = true) : h.thin rule guarded cut = h := by
  obtain ⟨c, only, _⟩ := isLoneTombstone_iff.1 lone
  have head : h.head? = some c := by simp [head?, only]
  refine eq_of_changes rfl ?_
  rw [changes_thin, only]
  simp [not_isDoomed_of_head? head]

/-- Pruning twice is pruning at the larger cut. -/
theorem prune_prune :
    ((h.prune rule guarded a).1.prune rule guarded b).1 = (h.prune rule guarded (max a b)).1 := by
  cases lone : (h.thin rule guarded a).isLoneTombstone with
  | true =>
    -- what the first cut empties the larger one empties as well
    have still : (h.thin rule guarded (max a b)).isLoneTombstone = true := by
      rw [← thin_thin, thin_of_lone lone, lone]
    rw [prune_of_lone lone, prune_of_lone still]
    rfl
  | false =>
    rw [prune_of_not_lone lone, prune, prune, thin_thin]
    split <;> rfl

/-- Prunings at two cuts drop as many changes in all as one at the larger. -/
theorem prune_count_prune :
    (h.prune rule guarded a).2 + ((h.prune rule guarded a).1.prune rule guarded b).2 =
      (h.prune rule guarded (max a b)).2 := by
  have first := h.prune_count rule guarded a
  have second := (h.prune rule guarded a).1.prune_count rule guarded b
  have once := h.prune_count rule guarded (max a b)
  rw [prune_prune] at second
  omega

/-- Pruning at some cuts, in any order, leaves what pruning at the largest one leaves, and drops
as many changes. In particular pruning again at the same cut drops nothing more. -/
theorem pruneEach_eq_prune (h : History K V) (rule : Lookup) (guarded : List Revision)
    (largest : cuts.max? = some cut) :
    h.pruneEach rule guarded cuts = h.prune rule guarded cut ∧
      (h.prune rule guarded cut).1.prune rule guarded cut = ((h.prune rule guarded cut).1, 0) := by
  refine ⟨?_, ?_⟩
  · induction cuts generalizing h cut with
    | nil => cases largest
    | cons first rest ih =>
      rw [List.max?_cons, Option.some.injEq] at largest
      cases later : rest.max? with
      | none =>
        rw [List.max?_eq_none_iff] at later
        subst later
        subst largest
        rfl
      | some second =>
        simp only [later, Option.elim_some] at largest
        subst largest
        simp only [pruneEach, ih _ later]
        exact Prod.ext prune_prune prune_count_prune
  · have same : ((h.prune rule guarded cut).1.prune rule guarded cut).1 =
        (h.prune rule guarded cut).1 := by rw [prune_prune, max_self]
    have count := (h.prune rule guarded cut).1.prune_count rule guarded cut
    rw [same] at count
    exact Prod.ext same (by omega)

/-- The second of three cuts leaves the tombstone alone, so that the third finds nothing. -/
theorem pruneEach_eq_prune_emptied :
    [1, 4, 2].max? = some 4 ∧
      worn.pruneEach .latestPrior [6] [1, 4, 2] = worn.prune .latestPrior [6] 4 ∧
      (worn.prune .latestPrior [6] 4).1.changes = [] ∧ (worn.prune .latestPrior [6] 4).2 = 3 := by
  have largest : [1, 4, 2].max? = some 4 := by decide
  exact ⟨largest, (pruneEach_eq_prune worn .latestPrior [6] largest).1, by decide, by decide⟩

end History

end RevisionStore
