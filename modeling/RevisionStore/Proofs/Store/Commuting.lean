import RevisionStore.Draft.Update
import RevisionStore.Proofs.Store.Acceptance

/-!
# Commits that stage different keys

The tip of a key is what the most recent change of its history says: its kind and its value.
The tips of a store decide which keys are current, which values they have and which drafts can
be committed, key by key. A commit sets the tips of the keys that it stages, each to something
that depends on the tip before, and leaves the others alone (`Extended.tip`). Two commits that
stage different keys therefore lead to the same in both orders (`Extended.concurs`), up to the
order of the keys and to which of the two revisions the changes are filed under.
-/

namespace RevisionStore

variable {K V : Type} [DecidableEq K]

namespace Commit

variable {c : Commit K V} {contents contents' : K → Option V} {k : K}

/-- A commit does something to the keys that its draft stages. -/
theorem kind?_eq_none_iff_not_staged : c.kind? k = none ↔ k ∉ c.draft.staged := by
  rw [kind?_eq_none_iff]
  simp only [Draft.staged, List.mem_append, not_or]
  tauto

/-- What is under a key after a commit depends on what was under this key before. -/
theorem after_congr (same : contents k = contents' k) :
    c.after contents k = c.after contents' k := by
  simp only [after, same]

end Commit

namespace Store

/-- The kind and the value of the most recent change of `k`. -/
def tip (s : Store K V) (k : K) : Option (ChangeKind × Option V) :=
  ((s.histories.get? k).bind (·.head?)).map fun c => (c.kind, c.value?)

variable {s s' t t' : Store K V} {c c' : Commit K V} {k : K}

theorem leading?_eq_tip_bind : s.leading? k = (s.tip k).bind Prod.snd := by
  simp only [Store.leading?, tip]
  cases s.histories.get? k with
  | none => rfl
  | some h => cases head : h.head? <;> simp [History.leading?, head]

theorem isLive_eq_tip_any (kept : s.WellKept) :
    s.isLive k = (s.tip k).any fun tip => tip.1 != .deleted := by
  simp only [isLive, tip]
  cases filed : s.histories.get? k with
  | none => rfl
  | some h =>
    obtain ⟨c, head⟩ := (kept.filed k h filed).head
    simp [History.isLive_of_head? head, head, Change.isTombstone, bne]

theorem leading?_congr (same : s.tip k = t.tip k) : s.leading? k = t.leading? k := by
  rw [leading?_eq_tip_bind, same, ← leading?_eq_tip_bind]

theorem isLive_congr (kept : s.WellKept) (kept' : t.WellKept) (same : s.tip k = t.tip k) :
    s.isLive k = t.isLive k := by
  rw [isLive_eq_tip_any kept, same, ← isLive_eq_tip_any kept']

/-- Two stores agree in what is current: they are at the same revision, list the same keys in
some order, and every key has the same tip. -/
structure Concurs (s t : Store K V) : Prop where
  revision : s.revision = t.revision
  keys : ∃ roster roster', s.roster? s.revision = some roster ∧
    t.roster? t.revision = some roster' ∧ roster.keys.Perm roster'.keys
  tip : ∀ k, s.tip k = t.tip k

/-- Stores at the same revision agree in what is current if their tips do. -/
theorem Concurs.of_tip (kept : s.WellKept) (kept' : t.WellKept) (revision : s.revision = t.revision)
    (tip : ∀ k, s.tip k = t.tip k) : s.Concurs t := by
  obtain ⟨roster, current⟩ := kept.current
  obtain ⟨roster', current'⟩ := kept'.current
  have distinct := kept.distinct roster (mem_of_roster? current).1
  have distinct' := kept'.distinct roster' (mem_of_roster? current').1
  refine ⟨revision, ⟨roster, roster', current, current', ?_⟩, tip⟩
  refine (List.perm_ext_iff_of_nodup distinct distinct').2 fun k => ?_
  rw [kept.live roster current, kept'.live roster' current', isLive_congr kept kept' (tip k)]

/-- Whether a draft can be committed depends on the tips of the keys that it stages. -/
theorem exists_commit_congr {reconciler : Reconciler V} {now now' : Nat} {d : Draft K V}
    (kept : s.WellKept) (kept' : t.WellKept) (staged : d.WellStaged) (total : reconciler.Total)
    (same : ∀ k ∈ d.staged, s.tip k = t.tip k) :
    (∃ s', s.commit reconciler now d = .ok s') ↔ ∃ t', t.commit reconciler now' d = .ok t' := by
  obtain ⟨roster, current⟩ := kept.current
  obtain ⟨roster', current'⟩ := kept'.current
  have listed (k : K) (member : k ∈ d.staged) : k ∈ roster.keys ↔ k ∈ roster'.keys := by
    rw [kept.live roster current, kept'.live roster' current',
      isLive_congr kept kept' (same k member)]
  have fresh : (∀ k ∈ d.added, k ∉ roster.keys) ↔ ∀ k ∈ d.added, k ∉ roster'.keys :=
    forall₂_congr fun k added => not_congr (listed k (by simp [Draft.staged, added]))
  have live : (∀ k, k ∈ d.touched ∨ k ∈ d.removed → k ∈ roster.keys) ↔
      ∀ k, k ∈ d.touched ∨ k ∈ d.removed → k ∈ roster'.keys :=
    forall₂_congr fun k changed => listed k (by simp [Draft.staged, changed])
  rw [exists_commit_iff kept staged total current, exists_commit_iff kept' staged total current',
    fresh, live]

namespace Extended

/-- A commit sets the tips of the keys that it stages. -/
theorem tip (kept : s.WellKept) (extended : s.Extended c s') (k : K) :
    s'.tip k = ((c.kind? k).map fun kind => (kind, c.after s.leading? k)).or (s.tip k) := by
  obtain ⟨nothing, _, same⟩ | ⟨change, does, made, _, written⟩ := extended.change?_eq_none_or k
  · simp [Store.tip, same, nothing]
  · have head := head?_insert kept made
    have value := (Commit.of_change?_eq_some made).2.2.2
    simp [Store.tip, written, head, does, value]

theorem tip_of_not_staged (kept : s.WellKept) (extended : s.Extended c s')
    (unstaged : k ∉ c.draft.staged) : s'.tip k = s.tip k := by
  simp [extended.tip kept, Commit.kind?_eq_none_iff_not_staged.2 unstaged]

/-- What a commit makes of a tip depends on the tip. -/
theorem tip_congr (kept : s.WellKept) (kept' : t.WellKept) (extended : s.Extended c s')
    (extended' : t.Extended c t') (same : s.tip k = t.tip k) : s'.tip k = t'.tip k := by
  rw [extended.tip kept, extended'.tip kept', same, Commit.after_congr (leading?_congr same)]

/-- Two commits that stage different keys lead to the same in both orders. -/
theorem concurs {u u' : Store K V} (apart : ∀ k ∈ c.draft.staged, k ∉ c'.draft.staged)
    (kept : s.WellKept) (staged : c.draft.WellStaged) (staged' : c'.draft.WellStaged)
    (first : s.Extended c t) (second : t.Extended c' u) (first' : s.Extended c' t')
    (second' : t'.Extended c u') : u.Concurs u' := by
  have between := first.wellKept kept staged
  have between' := first'.wellKept kept staged'
  refine .of_tip (second.wellKept between staged') (second'.wellKept between' staged) ?_ fun k => ?_
  · rw [second.revision, first.revision, second'.revision, first'.revision]
  · by_cases member : k ∈ c.draft.staged
    · -- the other commit does nothing to `k`, whether it comes after this one or before
      have before : s.tip k = t'.tip k := (first'.tip_of_not_staged kept (apart k member)).symm
      calc u.tip k = t.tip k := second.tip_of_not_staged between (apart k member)
        _ = u'.tip k := tip_congr kept between' first second' before
    · have before : t.tip k = s.tip k := first.tip_of_not_staged kept member
      calc u.tip k = t'.tip k := tip_congr between kept second first' before
        _ = u'.tip k := (second'.tip_of_not_staged between' member).symm

end Extended

end Store

end RevisionStore
