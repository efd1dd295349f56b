import RevisionStore.Store.Read
import RevisionStore.Proofs.Store.Sweep

/-!
# Well-kept stores

`Store.WellKept` ties the two halves of a store together: the rosters, which say which
keys exist at a revision, and the histories, which say what their values are. The key of
a current roster is one whose history does not end in a tombstone (`live`); rosters and
histories are written by different code, and this is where they have to agree.

Opening and releasing copies do not touch either half. A pass keeps the store well kept
because pruning never changes whether a history ends in a tombstone. That a commit does
is the business of `RevisionStore.Proofs.Store.Publication`.
-/

namespace RevisionStore

namespace History

variable {K V : Type}

/-- A history as it may be filed under a key in a store at revision `r`: it is not empty,
it belongs to the key, and its changes are well-formed and not ahead of the store. -/
structure WellFiled (h : History K V) (k : K) (r : Revision) : Prop where
  key : h.key = k
  filled : h.changes ≠ []
  belongs : ∀ c ∈ h.changes, c.key = k
  bounded : ∀ c ∈ h.changes, c.revision ≤ r
  coherent : ∀ c ∈ h.changes, c.Coherent

variable {h h' : History K V} {k : K} {r : Revision} {c : Change K V} {rule : Lookup}
  {guarded : List Revision} {before after : Option (History K V)}

theorem WellFiled.pruned (filed : h.WellFiled k r)
    (pruned : Pruned rule guarded (some h) (some h')) : h'.WellFiled k r := by
  have filled := pruned.ne_nil filed.filled
  cases pruned with
  | thinned key fewer head answers =>
    refine ⟨key.trans filed.key, filled, ?_, ?_, ?_⟩
    · exact fun c member => filed.belongs c (fewer member)
    · exact fun c member => filed.bounded c (fewer member)
    · exact fun c member => filed.coherent c (fewer member)

/-- Recording a well-formed change of the key keeps a history well filed. -/
theorem WellFiled.insert (filed : ∀ d ∈ h.changes, d.key = k ∧ d.revision ≤ r ∧ d.Coherent)
    (key : h.key = k) (belongs : c.key = k) (bounded : c.revision ≤ r) (coherent : c.Coherent) :
    (h.insert c).WellFiled k r := by
  refine ⟨key, List.ne_nil_of_mem (mem_insert.2 (.inl rfl)), ?_, ?_, ?_⟩
  all_goals
    intro d member
    obtain rfl | ⟨member, _⟩ := mem_insert.1 member
  · exact belongs
  · exact (filed d member).1
  · exact bounded
  · exact (filed d member).2.1
  · exact coherent
  · exact (filed d member).2.2

/-- A filled history has a most recent change. -/
theorem WellFiled.head (filed : h.WellFiled k r) : ∃ c, h.head? = some c := by
  cases head : h.head? with
  | none => exact absurd (head?_eq_none_iff.1 head) filed.filled
  | some c => exact ⟨c, rfl⟩

/-- Pruning does not change whether a key is live. -/
theorem Pruned.any_isLive (pruned : Pruned rule guarded before after) :
    after.any (·.isLive) = before.any (·.isLive) := by
  cases pruned with
  | absent => rfl
  | thinned key fewer head answers => simp [isLive, isDeletedAtHead, head]
  | emptied head tombstone answers => simp [isLive_of_head? head, tombstone]

end History

namespace Store

open History (Pruned WellFiled)

variable {K V : Type} [DecidableEq K]

/-- The rosters and the histories of a store fit together. -/
structure WellKept (s : Store K V) : Prop where
  -- the roster of the current revision is retained
  current : ∃ roster, s.roster? s.revision = some roster
  -- rosters are kept in strictly ascending order, so at most one per revision
  ascending : s.rosters.Pairwise fun a b => a.revision < b.revision
  -- no roster is ahead of the store
  bounded : ∀ roster ∈ s.rosters, roster.revision ≤ s.revision
  -- no roster lists a key twice
  distinct : ∀ roster ∈ s.rosters, roster.keys.Nodup
  -- every history is well filed under its key
  filed : ∀ k h, s.histories.get? k = some h → h.WellFiled k s.revision
  -- the current roster lists the keys whose history does not end in a tombstone
  live : ∀ roster, s.roster? s.revision = some roster → ∀ k, k ∈ roster.keys ↔ s.isLive k = true

variable {s : Store K V} {k : K} {roster : Roster K} {r : Revision}

omit [DecidableEq K] in
theorem mem_of_roster? (found : s.roster? r = some roster) :
    roster ∈ s.rosters ∧ roster.revision = r :=
  ⟨List.mem_of_find?_eq_some found, by simpa using List.find?_some found⟩

omit [DecidableEq K] in
/-- In ascending order every roster is found under its own revision. -/
theorem roster?_of_mem (ascending : s.rosters.Pairwise fun a b => a.revision < b.revision)
    (member : roster ∈ s.rosters) : s.roster? roster.revision = some roster := by
  simp only [roster?]
  rw [History.find?_eq_some_iff_of_pairwise (fun _ _ => Nat.lt_asymm) ascending]
  refine ⟨member, by simp, fun other found same => .inl ?_⟩
  exact History.eq_of_pairwise_lt ascending found member (by simpa using same)

/-- A key is live if and only if its history has a most recent change that is no tombstone. -/
theorem isLive_iff (kept : s.WellKept) :
    s.isLive k = true ↔
      ∃ h c, s.histories.get? k = some h ∧ h.head? = some c ∧ c.isTombstone = false := by
  simp only [isLive]
  cases filed : s.histories.get? k with
  | none => simp
  | some h =>
    obtain ⟨c, head⟩ := (kept.filed k h filed).head
    simp [History.isLive_of_head? head, head]

namespace WellKept

theorem filled (kept : s.WellKept) : Filled s.histories :=
  fun k h filed => (kept.filed k h filed).filled

/-- The current revision is watched. -/
theorem watched_revision (kept : s.WellKept) : s.Watched s.revision := by
  obtain ⟨roster, current⟩ := kept.current
  obtain ⟨member, same⟩ := mem_of_roster? current
  exact .inl ⟨roster, member, same⟩

theorem fresh (lookup : Lookup) (now : Nat) : (Store.fresh lookup now : Store K V).WellKept where
  current := ⟨⟨0, now, []⟩, rfl⟩
  ascending := by simp [Store.fresh]
  bounded := by simp [Store.fresh]
  distinct := by simp [Store.fresh]
  filed k h filed := nomatch filed
  live roster found k := by
    cases found
    simp [isLive, Store.fresh]

/-- The register has nothing to do with rosters and histories. -/
theorem of_register {s' : Store K V} (kept : s.WellKept) (revision : s'.revision = s.revision)
    (histories : s'.histories = s.histories) (rosters : s'.rosters = s.rosters) : s'.WellKept := by
  have roster (r : Revision) : s'.roster? r = s.roster? r := by simp [roster?, rosters]
  constructor
  · simpa [revision, roster] using kept.current
  · simpa [rosters] using kept.ascending
  · simpa [rosters, revision] using kept.bounded
  · simpa [rosters] using kept.distinct
  · simpa [histories, revision] using kept.filed
  · simpa [revision, roster, isLive, histories] using kept.live

/-- A roster that is not given up is found after a pass as before. -/
theorem roster?_sweep (kept : s.WellKept) {gone : List (Roster K)}
    (found : s.roster? r = some roster) (stays : ∀ other ∈ gone, other.revision ≠ r) :
    (s.sweep gone).roster? r = some roster := by
  obtain ⟨member, rfl⟩ := mem_of_roster? found
  exact roster?_of_mem (kept.ascending.filter _) (mem_rosters_sweep.2 ⟨member, stays⟩)

/-- A pass that spares the current roster keeps a store well kept. -/
theorem sweep (kept : s.WellKept) {gone : List (Roster K)}
    (spared : ∀ roster ∈ gone, roster.revision ≠ s.revision) : (s.sweep gone).WellKept := by
  obtain ⟨current, found⟩ := kept.current
  have found' := kept.roster?_sweep found spared
  refine ⟨⟨current, found'⟩, kept.ascending.filter _, ?_, ?_, ?_, ?_⟩
  · exact fun roster member => kept.bounded roster (mem_rosters_sweep.1 member).1
  · exact fun roster member => kept.distinct roster (mem_rosters_sweep.1 member).1
  · intro k h' filed'
    obtain ⟨h, filed, pruned⟩ := filed_of_filed_sweep kept.filled filed'
    exact (kept.filed k h filed).pruned pruned
  · intro roster same k
    have same : roster = current := Option.some.inj (same.symm.trans found')
    rw [same, kept.live current found k, isLive, isLive,
      (sweep_pruned kept.filled gone k).any_isLive]

end WellKept

end Store

end RevisionStore
