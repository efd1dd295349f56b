import RevisionStore.Proofs.Store.Publication

/-!
# Stores that track a log

A store keeps less than the log of its commits: histories are pruned and rosters given up.
`Store.Tracks` says what it keeps all the same. Its rosters list the contents of the log,
each key ends in what the log leaves under it, and a lookup at a watched revision under a
key of that revision is answered by a resident change. Under `latestPrior` that change
carries the value of the log; under `earliestPrior` it may be older.

The register, passes and commits keep a store on its log. Pruning cannot take the answer
of a watched lookup away: what is observed is guarded, and a history that is emptied ends
in a tombstone that no watched revision with a value can have reached.
-/

namespace RevisionStore

namespace Store

open History (Pruned)

variable {K V : Type} [DecidableEq K]

/-- What a store keeps of the log of its commits. -/
structure Tracks (s : Store K V) (log : List (Commit K V)) : Prop where
  length : log.length = s.revision
  watched_le : ∀ r, s.Watched r → r ≤ s.revision
  -- rosters list the keys of the contents at their revision
  listed : ∀ roster ∈ s.rosters, ∀ k,
    k ∈ roster.keys ↔ (contentsAt log roster.revision k).isSome = true
  -- every key ends in its current contents
  leading : ∀ k, s.leading? k = contentsAt log s.revision k
  -- the most recent change of a history says what is under its key from then on
  since : ∀ k h c, s.histories.get? k = some h → h.head? = some c →
    ∀ r, c.revision ≤ r → r ≤ s.revision → contentsAt log r k = c.value?
  -- every change records what the log leaves under its key at its revision
  recorded : ∀ k h, s.histories.get? k = some h → ∀ c ∈ h.changes,
    contentsAt log c.revision k = c.value?
  -- a watched lookup under a key that is there is answered by a resident change
  answered : ∀ r, s.Watched r → ∀ k v, contentsAt log r k = some v →
    ∃ h c, s.histories.get? k = some h ∧ h.select? s.lookup r = some c ∧
      (s.lookup = .latestPrior → c.value? = some v)

variable {s s' : Store K V} {log : List (Commit K V)} {c : Commit K V} {k : K} {v : V}
  {r : Revision} {roster : Roster K} {recollect : Recollection K V} {reconciler : Reconciler V}

/-- Live keys are those that end in a value. -/
theorem WellKept.isSome_leading? (kept : s.WellKept) (k : K) :
    (s.leading? k).isSome = s.isLive k := by
  simp only [Store.leading?, isLive]
  cases filed : s.histories.get? k with
  | none => rfl
  | some h =>
    obtain ⟨change, head⟩ := (kept.filed k h filed).head
    have coherent := (kept.filed k h filed).coherent change (History.mem_of_head? head)
    simp only [Option.bind_some, Option.any_some, History.leading?_of_head? head,
      History.isLive_of_head? head]
    exact coherent

/-- Pruning does not change the value in which a key ends. -/
theorem WellKept.leading?_sweep (kept : s.WellKept) (gone : List (Roster K)) (k : K) :
    (s.sweep gone).leading? k = s.leading? k := by
  have pruned := sweep_pruned kept.filled gone k
  simp only [Store.leading?]
  cases filed : s.histories.get? k with
  | none =>
    rw [filed] at pruned
    generalize (s.sweep gone).histories.get? k = after at pruned
    cases pruned
    rfl
  | some h =>
    rw [filed] at pruned
    generalize (s.sweep gone).histories.get? k = after at pruned
    cases pruned with
    | thinned key fewer head answers => simp [History.leading?, head]
    | @emptied _ change head tombstone answers =>
      -- what goes ended in a tombstone, so that there was no value to lose
      have coherent := (kept.filed k h filed).coherent change (History.mem_of_head? head)
      simp [History.leading?_of_head? head, coherent.value?_eq_none tombstone]

namespace Extended

/-- The revisions watched after a commit are those before it and the new one. -/
theorem watched (extended : s.Extended c s') (watched : s'.Watched r) :
    s.Watched r ∨ r = s.revision + 1 := by
  obtain ⟨_, now, _, rosters⟩ := extended.rosters
  obtain ⟨roster, member, rfl⟩ | ⟨registration, member, rfl⟩ := watched
  · rw [rosters, List.mem_append, List.mem_singleton] at member
    obtain member | rfl := member
    · exact .inl (.inl ⟨roster, member, rfl⟩)
    · exact .inr rfl
  · exact .inl (.inr ⟨registration, extended.active ▸ member, rfl⟩)

/-- A lookup at an earlier revision is answered after a commit as before. -/
theorem answered_of_le {h : History K V} {change : Change K V} (extended : s.Extended c s')
    (filed : s.histories.get? k = some h) (selected : h.select? s.lookup r = some change)
    (earlier : r ≤ s.revision) :
    ∃ h', s'.histories.get? k = some h' ∧ h'.select? s'.lookup r = some change := by
  rw [extended.lookup]
  obtain ⟨_, _, same⟩ | ⟨change', _, made, _, written⟩ := extended.change?_eq_none_or k
  · exact ⟨h, same.trans filed, selected⟩
  · have later : r < change'.revision := by
      rw [(Commit.of_change?_eq_some made).2.2.1]
      exact Nat.lt_succ_of_le earlier
    refine ⟨h.insert change', by simp [written, filed], ?_⟩
    rw [History.select?_insert_of_lt later, selected]

/-- A lookup at the revision of a commit is answered by the change it makes or, without one,
by what was there before. -/
theorem answered_next (extended : s.Extended c s') (kept : s.WellKept)
    (there : c.after s.leading? k = some v) :
    ∃ h change, s'.histories.get? k = some h ∧
      h.select? s'.lookup (s.revision + 1) = some change ∧
        (s'.lookup = .latestPrior → change.value? = some v) := by
  rw [extended.lookup]
  obtain ⟨_, nothing, same⟩ | ⟨change', _, made, _, written⟩ := extended.change?_eq_none_or k
  · -- nothing is recorded at the new revision: all changes lie below it
    rw [Commit.after_of_change?_eq_none nothing] at there
    cases filed : s.histories.get? k with
    | none => simp [Store.leading?, filed] at there
    | some h =>
      obtain ⟨last, head⟩ := (kept.filed k h filed).head
      have below : last.revision ≤ s.revision + 1 :=
        Nat.le_succ_of_le ((kept.filed k h filed).bounded last (History.mem_of_head? head))
      cases selected : h.select? s.lookup (s.revision + 1) with
      | none =>
        have above := History.select?_eq_none_iff.1 selected last (History.mem_of_head? head)
        exact absurd below (Nat.not_le_of_lt above)
      | some change =>
        refine ⟨h, change, same.trans filed, selected, fun latest => ?_⟩
        rw [latest, History.select?_latest_of_head? head below] at selected
        obtain rfl := Option.some.inj selected
        simpa [Store.leading?, filed, History.leading?_of_head? head] using there
  · -- the change that the commit makes lies at the new revision itself
    obtain ⟨_, _, revision, value⟩ := Commit.of_change?_eq_some made
    refine ⟨_, change', written, ?_, fun _ => value.trans there⟩
    rw [← revision]
    exact History.select?_insert_self

end Extended

namespace Tracks

theorem fresh (lookup : Lookup) (now : Nat) : (Store.fresh lookup now : Store K V).Tracks [] where
  length := rfl
  watched_le r watched := by
    obtain ⟨roster, member, rfl⟩ | ⟨registration, member, _⟩ := watched
    · rw [List.mem_singleton.1 member]
      exact Nat.le_refl _
    · cases member
  listed roster member k := by
    rw [List.mem_singleton.1 member]
    simp
  leading k := by simp [Store.leading?, Store.fresh]
  since k h c filed := nomatch filed
  recorded k h filed := nomatch filed
  answered r watched k v there := by simp [contentsAt] at there

/-- Registering copies of watched revisions and releasing copies keeps a store on its log. -/
theorem of_register (tracks : s.Tracks log) (revision : s'.revision = s.revision)
    (histories : s'.histories = s.histories) (rosters : s'.rosters = s.rosters)
    (lookup : s'.lookup = s.lookup)
    (active : ∀ registration ∈ s'.active, s.Watched registration.revision) : s'.Tracks log := by
  have watched (r : Revision) (watched : s'.Watched r) : s.Watched r := by
    obtain listed | ⟨registration, member, rfl⟩ := watched
    · exact .inl (rosters ▸ listed)
    · exact active registration member
  constructor
  · simpa [revision] using tracks.length
  · exact fun r watched' => revision ▸ tracks.watched_le r (watched r watched')
  · simpa [rosters] using tracks.listed
  · simpa [Store.leading?, histories, revision] using tracks.leading
  · simpa [histories, revision] using tracks.since
  · simpa [histories] using tracks.recorded
  · intro r watched'
    rw [histories, lookup]
    exact tracks.answered r (watched r watched')

/-- A pass leaves the change with which a watched lookup under a key that is there answers. -/
theorem select?_sweep {gone : List (Roster K)} {h : History K V} {change : Change K V}
    (tracks : s.Tracks log) (kept : s.WellKept) (watched : (s.sweep gone).Watched r)
    (there : contentsAt log r k = some v) (filed : s.histories.get? k = some h)
    (selected : h.select? s.lookup r = some change) :
    ∃ h', (s.sweep gone).histories.get? k = some h' ∧ h'.select? s.lookup r = some change := by
  have guards := mem_guarded_of_watched watched
  have pruned := sweep_pruned kept.filled gone k
  rw [filed] at pruned
  generalize filed' : (s.sweep gone).histories.get? k = after at pruned
  cases pruned with
  | @thinned _ h' key fewer head answers => exact ⟨h', rfl, (answers r guards).trans selected⟩
  | emptied head tombstone answers =>
    -- the answer would be the last tombstone, after which nothing is under the key
    obtain rfl := answers r guards change selected
    have since := tracks.since k h change filed head r (History.le_of_select? selected)
      (tracks.watched_le r (watched_of_watched_sweep watched))
    have coherent := (kept.filed k h filed).coherent change (History.mem_of_head? head)
    rw [there, coherent.value?_eq_none tombstone] at since
    cases since

/-- A pass keeps a store on its log. -/
theorem sweep (tracks : s.Tracks log) (kept : s.WellKept) (gone : List (Roster K)) :
    (s.sweep gone).Tracks log where
  length := tracks.length
  watched_le r watched := tracks.watched_le r (watched_of_watched_sweep watched)
  listed roster member := tracks.listed roster (mem_rosters_sweep.1 member).1
  leading k := (kept.leading?_sweep gone k).trans (tracks.leading k)
  since k h' change filed' head' r since bounded := by
    obtain ⟨h, filed, pruned⟩ := filed_of_filed_sweep kept.filled filed'
    cases pruned with
    | thinned key fewer head answers =>
      exact tracks.since k h change filed (head.symm.trans head') r since bounded
  recorded k h' filed' change member := by
    obtain ⟨h, filed, pruned⟩ := filed_of_filed_sweep kept.filled filed'
    cases pruned with
    | thinned key fewer head answers => exact tracks.recorded k h filed change (fewer member)
  answered r watched k v there := by
    obtain ⟨h, change, filed, selected, valued⟩ :=
      tracks.answered r (watched_of_watched_sweep watched) k v there
    obtain ⟨h', filed', selected'⟩ := tracks.select?_sweep kept watched there filed selected
    exact ⟨h', change, filed', selected', valued⟩

/-- What a further commit does to the contents up to the current revision: nothing. -/
theorem contentsAt_of_le (tracks : s.Tracks log) (earlier : r ≤ s.revision) :
    contentsAt (log ++ [c]) r = contentsAt log r :=
  contentsAt_append_of_le (tracks.length ▸ earlier)

/-- The contents after a further commit, in terms of the store before it. -/
theorem contentsAt_next (tracks : s.Tracks log) :
    contentsAt (log ++ [c]) (s.revision + 1) = c.after s.leading? := by
  rw [funext tracks.leading, ← tracks.length]
  exact contentsAt_append_succ

theorem leading_extended (tracks : s.Tracks log) (kept : s.WellKept) (extended : s.Extended c s')
    (k : K) : s'.leading? k = contentsAt (log ++ [c]) s'.revision k := by
  rw [extended.leading? kept, extended.revision, tracks.contentsAt_next]

theorem listed_extended (tracks : s.Tracks log) (kept : s.WellKept) (staged : c.draft.WellStaged)
    (extended : s.Extended c s') (member : roster ∈ s'.rosters) (k : K) :
    k ∈ roster.keys ↔ (contentsAt (log ++ [c]) roster.revision k).isSome = true := by
  have kept' := extended.wellKept kept staged
  obtain ⟨_, latest, _, found, _, revision, members⟩ := extended.current kept
  obtain old | rfl := (members roster).1 member
  · rw [tracks.contentsAt_of_le (kept.bounded roster old)]
    exact tracks.listed roster old k
  · rw [kept'.live roster found k, revision, ← extended.revision,
      ← tracks.leading_extended kept extended, kept'.isSome_leading?]

theorem since_extended {h : History K V} {change : Change K V} (tracks : s.Tracks log)
    (kept : s.WellKept) (extended : s.Extended c s') (filed : s'.histories.get? k = some h)
    (head : h.head? = some change) (since : change.revision ≤ r) (bounded : r ≤ s'.revision) :
    contentsAt (log ++ [c]) r k = change.value? := by
  rw [extended.revision] at bounded
  obtain ⟨_, nothing, same⟩ | ⟨change', _, made, _, written⟩ := extended.change?_eq_none_or k
  · -- the history is as before, and so are the contents, also at the new revision
    have filed := same ▸ filed
    obtain rfl | lt := Nat.eq_or_lt_of_le bounded
    · rw [tracks.contentsAt_next, Commit.after_of_change?_eq_none nothing, tracks.leading]
      refine tracks.since k h change filed head s.revision ?_ (Nat.le_refl _)
      exact (kept.filed k h filed).bounded change (History.mem_of_head? head)
    · have le := Nat.le_of_lt_succ lt
      rw [tracks.contentsAt_of_le le]
      exact tracks.since k h change filed head r since le
  · -- the most recent change is the new one, and nothing comes after it
    rw [written] at filed
    obtain rfl := Option.some.inj filed
    obtain rfl := Option.some.inj (head.symm.trans (Extended.head?_insert kept made))
    obtain ⟨_, _, revision, value⟩ := Commit.of_change?_eq_some made
    obtain rfl : r = s.revision + 1 := Nat.le_antisymm bounded (revision ▸ since)
    rw [tracks.contentsAt_next, value]

theorem recorded_extended {h : History K V} {change : Change K V} (tracks : s.Tracks log)
    (kept : s.WellKept) (extended : s.Extended c s') (filed : s'.histories.get? k = some h)
    (member : change ∈ h.changes) : contentsAt (log ++ [c]) change.revision k = change.value? := by
  have old {h : History K V} (filed : s.histories.get? k = some h) (member : change ∈ h.changes) :
      contentsAt (log ++ [c]) change.revision k = change.value? := by
    rw [tracks.contentsAt_of_le ((kept.filed k h filed).bounded change member)]
    exact tracks.recorded k h filed change member
  obtain ⟨_, _, same⟩ | ⟨change', _, made, _, written⟩ := extended.change?_eq_none_or k
  · exact old (same ▸ filed) member
  · rw [written] at filed
    obtain rfl := Option.some.inj filed
    obtain rfl | ⟨earlier, _⟩ := History.mem_insert.1 member
    · obtain ⟨_, _, revision, value⟩ := Commit.of_change?_eq_some made
      rw [revision, tracks.contentsAt_next, value]
    · cases filed : s.histories.get? k with
      | none =>
        rw [filed] at earlier
        cases earlier
      | some h =>
        rw [filed] at earlier
        exact old filed earlier

/-- A commit puts a store on the log with the commit at its end. -/
theorem extended (tracks : s.Tracks log) (kept : s.WellKept) (staged : c.draft.WellStaged)
    (extended : s.Extended c s') : s'.Tracks (log ++ [c]) where
  length := by simp [tracks.length, extended.revision]
  watched_le r watched := by
    rw [extended.revision]
    obtain watched | rfl := extended.watched watched
    · exact Nat.le_succ_of_le (tracks.watched_le r watched)
    · exact Nat.le_refl _
  listed _ member := tracks.listed_extended kept staged extended member
  leading := tracks.leading_extended kept extended
  since _ _ _ filed head _ := tracks.since_extended kept extended filed head
  recorded _ _ filed _ := tracks.recorded_extended kept extended filed
  answered r watched k v there := by
    obtain watched | rfl := extended.watched watched
    · -- the commit records at a later revision, where an earlier lookup does not look
      have le := tracks.watched_le r watched
      rw [tracks.contentsAt_of_le le] at there
      obtain ⟨h, change, filed, selected, valued⟩ := tracks.answered r watched k v there
      obtain ⟨h', filed', selected'⟩ := extended.answered_of_le filed selected le
      exact ⟨h', change, filed', selected', extended.lookup ▸ valued⟩
    · rw [tracks.contentsAt_next] at there
      exact extended.answered_next kept there

/-! ## Reading -/

/-- At a watched revision a roster, if there is one, lists the keys of the log. -/
theorem contains_roster (tracks : s.Tracks log) (found : s.roster? r = some roster) (k : K) :
    roster.contains k = (contentsAt log r k).isSome := by
  obtain ⟨member, rfl⟩ := mem_of_roster? found
  rw [Bool.eq_iff_iff, Roster.contains_iff, tracks.listed roster member k]

/-- A lookup at a watched revision under a key that is there is answered from the key's
history, whichever the rule. -/
theorem visible_of_contents (tracks : s.Tracks log) (recollect : Recollection K V)
    (watched : s.Watched r) (there : contentsAt log r k = some v) :
    ∃ h c, s.histories.get? k = some h ∧ h.select? s.lookup r = some c ∧
      (s.lookup = .latestPrior → c.value? = some v) ∧
        s.visible recollect r k = .ok (c.value?.map .resident) := by
  obtain ⟨h, change, filed, selected, valued⟩ := tracks.answered r watched k v there
  have within : s.checkRange r = .ok () :=
    if_neg (Nat.not_lt_of_le (tracks.watched_le r watched))
  have listed : ((s.roster? r).any fun roster => !roster.contains k) = false := by
    cases found : s.roster? r with
    | none => rfl
    | some roster => simp [tracks.contains_roster found, there]
  refine ⟨h, change, filed, selected, valued, ?_⟩
  simp [visible, within, listed, filed, History.readAt, selected]

/-- A lookup at a retained revision under a key that is not there finds nothing. -/
theorem visible_of_not_contents (tracks : s.Tracks log) (found : s.roster? r = some roster)
    (absent : contentsAt log r k = none) : s.visible recollect r k = .ok none := by
  obtain ⟨member, same⟩ := mem_of_roster? found
  have within : s.checkRange r = .ok () :=
    if_neg (Nat.not_lt_of_le (tracks.watched_le r (.inl ⟨roster, member, same⟩)))
  simp [visible, within, found, tracks.contains_roster found, absent]

/-- Under `latestPrior` a lookup at a watched revision finds the contents of the log. -/
theorem visible_latest (tracks : s.Tracks log) (latest : s.lookup = .latestPrior)
    (recollect : Recollection K V) (watched : s.Watched r) (there : contentsAt log r k = some v) :
    s.visible recollect r k = .ok (some (.resident v)) := by
  obtain ⟨h, change, _, _, valued, visible⟩ := tracks.visible_of_contents recollect watched there
  simpa [valued latest] using visible

/-- Under `latestPrior` a lookup at a retained revision finds what the log has there. -/
theorem visible_retained (tracks : s.Tracks log) (latest : s.lookup = .latestPrior)
    (recollect : Recollection K V) (found : s.roster? r = some roster) (k : K) :
    s.visible recollect r k = .ok ((contentsAt log r k).map .resident) := by
  obtain ⟨member, same⟩ := mem_of_roster? found
  cases there : contentsAt log r k with
  | none => simpa using tracks.visible_of_not_contents found there
  | some v => exact tracks.visible_latest latest recollect (.inl ⟨roster, member, same⟩) there

/-- Under `latestPrior` a watched key is read as a clone of its contents. -/
theorem getAt_of_contents (tracks : s.Tracks log) (latest : s.lookup = .latestPrior)
    (watched : s.Watched r) (there : contentsAt log r k = some v) :
    s.getAt reconciler recollect r k = (reconciler.cloned v).map some := by
  simp [getAt, tracks.visible_latest latest recollect watched there, handOut]

theorem getAt_of_not_contents (tracks : s.Tracks log) (found : s.roster? r = some roster)
    (absent : contentsAt log r k = none) : s.getAt reconciler recollect r k = .ok none := by
  simp [getAt, tracks.visible_of_not_contents found absent]

end Tracks

end Store

end RevisionStore
