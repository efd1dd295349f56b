import RevisionStore.Store.Expire
import RevisionStore.Proofs.History.Pruning

/-!
# What a pass does to a store

A pass prunes many histories at many cuts, but always under the same guard, so what
becomes of each key is one `History.Pruned` (`sweep_pruned`). The rosters that stay are
those that were not given up, and the current one is never among the doomed.
-/

namespace RevisionStore

namespace Store

open History (Pruned)

variable {K V : Type} {rule : Lookup} {guarded : List Revision} {cut : Revision}
  {s : Store K V} {gone : List (Roster K)}

/-- The revisions at which a store has to answer: those with a roster and the bases of
open working copies. -/
def Watched (s : Store K V) (r : Revision) : Prop :=
  (∃ roster ∈ s.rosters, roster.revision = r) ∨ ∃ registration ∈ s.active, registration.revision = r

theorem mem_doomed {expires : Roster K → Bool} {roster : Roster K} :
    roster ∈ s.doomed expires ↔
      roster ∈ s.rosters ∧ roster.revision ≠ s.revision ∧ expires roster = true := by
  simp [doomed]

variable [DecidableEq K]

/-- No key has an empty history. -/
def Filled (histories : Dict K (History K V)) : Prop :=
  ∀ k h, histories.get? k = some h → h.changes ≠ []

/-! ## Histories -/

/-- Pruning the history of one key concerns that key alone. -/
theorem get?_pruneKey (histories : Dict K (History K V)) (k k' : K) :
    (pruneKey rule guarded cut histories k).get? k' =
      if k' = k then (histories.get? k).bind (·.remainder rule guarded cut)
      else histories.get? k' := by
  simp only [pruneKey, History.remainder]
  cases filed : histories.get? k with
  | none =>
    by_cases same : k' = k
    · simp [same, filed]
    · simp [same]
  | some h =>
    by_cases gone : (h.prune rule guarded cut).1.isEmpty = true
    · simp [gone, Dict.get?_erase]
    · simp [gone, Dict.get?_put]

theorem pruneKey_pruned (rule : Lookup) (guarded : List Revision) (cut : Revision)
    {histories : Dict K (History K V)} (filled : Filled histories) (k k' : K) :
    Pruned rule guarded (histories.get? k') ((pruneKey rule guarded cut histories k).get? k') := by
  rw [get?_pruneKey]
  split
  next same =>
    subst same
    cases filed : histories.get? k' with
    | none => exact .absent
    | some h => exact History.pruned_remainder (filled k' h filed)
  next => exact .refl _

/-- A relation between dictionaries that leaves something of filled histories only where
something is left in them. -/
theorem Filled.of_pruned {before after : Dict K (History K V)} (filled : Filled before)
    (pruned : ∀ k, Pruned rule guarded (before.get? k) (after.get? k)) : Filled after := by
  intro k h' filed
  have history := pruned k
  rw [filed] at history
  cases was : before.get? k with
  | none =>
    rw [was] at history
    cases history
  | some h =>
    rw [was] at history
    exact history.ne_nil (filled k h was)

theorem pruneKeys_pruned (rule : Lookup) (guarded : List Revision) (cut : Revision) (keys : List K)
    {histories : Dict K (History K V)}
    (filled : Filled histories) (k : K) :
    Pruned rule guarded (histories.get? k)
      ((keys.foldl (pruneKey rule guarded cut) histories).get? k) := by
  induction keys generalizing histories with
  | nil => exact .refl _
  | cons k' keys ih =>
    have first := pruneKey_pruned rule guarded cut filled k'
    exact (first k).trans (ih (filled.of_pruned first))

theorem pruneRosters_pruned (gone : List (Roster K)) {histories : Dict K (History K V)}
    (filled : Filled histories) (k : K) :
    Pruned rule guarded (histories.get? k)
      ((gone.foldl (pruneRoster rule guarded) histories).get? k) := by
  induction gone generalizing histories with
  | nil => exact .refl _
  | cons roster gone ih =>
    have first := pruneKeys_pruned rule guarded roster.revision roster.keys filled
    exact (first k).trans (ih (filled.of_pruned first))

/-- What a pass makes of the history of each key. -/
theorem sweep_pruned (filled : Filled s.histories) (gone : List (Roster K)) (k : K) :
    Pruned s.lookup (s.guarded gone) (s.histories.get? k) ((s.sweep gone).histories.get? k) :=
  pruneRosters_pruned gone filled k

/-- What is filed after a pass is left of something that was filed before. -/
theorem filed_of_filed_sweep {k : K} {h' : History K V} (filled : Filled s.histories)
    (filed' : (s.sweep gone).histories.get? k = some h') :
    ∃ h, s.histories.get? k = some h ∧ Pruned s.lookup (s.guarded gone) (some h) (some h') := by
  have pruned := sweep_pruned filled gone k
  rw [filed'] at pruned
  cases filed : s.histories.get? k with
  | none =>
    rw [filed] at pruned
    cases pruned
  | some h => exact ⟨h, rfl, filed ▸ pruned⟩

/-! ## Rosters -/

theorem mem_rosters_sweep {roster : Roster K} :
    roster ∈ (s.sweep gone).rosters ↔
      roster ∈ s.rosters ∧ ∀ r ∈ gone, r.revision ≠ roster.revision := by
  simp [sweep, isAmong]

/-- What a store has to answer for after a pass is guarded in the pass. -/
theorem mem_guarded_of_watched {r : Revision} (watched : (s.sweep gone).Watched r) :
    r ∈ s.guarded gone := by
  obtain ⟨roster, member, rfl⟩ | ⟨registration, member, rfl⟩ := watched
  · obtain ⟨member, stays⟩ := mem_rosters_sweep.1 member
    have kept : isAmong gone roster.revision = false := by simpa [isAmong] using stays
    simp only [guarded, retained, List.mem_append, List.mem_filter, List.mem_map]
    exact .inl (.inl ⟨⟨roster, member, rfl⟩, by simp [kept]⟩)
  · simp only [guarded, List.mem_append, List.mem_map]
    exact .inl (.inr ⟨registration, member, rfl⟩)

theorem watched_of_watched_sweep {r : Revision} (watched : (s.sweep gone).Watched r) :
    s.Watched r := by
  obtain ⟨roster, member, rfl⟩ | registered := watched
  · exact .inl ⟨roster, (mem_rosters_sweep.1 member).1, rfl⟩
  · exact .inr registered

/-- A pass of a keeper leaves the store as it is or gives up what the keeper's policy says. -/
theorem expire_store (s : Store K V) (keeper : Retention.Keeper K V) (now : Nat) :
    (s.expire keeper now).2.1 = s ∨
      ∃ expires : Roster K → Bool, (s.expire keeper now).2.1 = s.sweep (s.doomed expires) := by
  simp only [expire]
  by_cases run : (keeper.warden.ask s.view).1 = true
  · exact .inr ⟨_, by simp only [run, if_true]; rfl⟩
  · exact .inl (by simp only [run, if_false, Bool.false_eq_true])

end Store

end RevisionStore
