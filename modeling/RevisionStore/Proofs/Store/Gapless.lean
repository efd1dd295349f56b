import RevisionStore.Proofs.Chronicle
import RevisionStore.Proofs.Lifecycle
import RevisionStore.Proofs.History.Suffix
import RevisionStore.Proofs.Store.Unwatched
import RevisionStore.Proofs.Store.Window

/-!
# Stores without gaps

Under `latestPrior` and sparing policies the history of a key is a suffix of its chronicle,
the changes that the log makes to it (`Store.Gapless`): passes take changes from the old end
only. A lookup that finds a change therefore finds the last one at or before its revision
(`lastChange?_of_selected?`), whether or not the revision is still retained.

No history is left behind either. A history that ends in a tombstone is there because of an
earlier revision that is still retained; the window then has the revision just before the
removal, which lists the key, and giving up that one takes the history with it
(`sweep_eq_none`).
-/

namespace RevisionStore

namespace Store

open History (Pruned)

variable {K V : Type} [DecidableEq K] {s s' : Store K V} {guarded : List Revision}
  {cut : Revision} {k : K} {h h' : History K V} {roster : Roster K} {gone : List (Roster K)}

/-! ## What a pass leaves under a key -/

/-- What may become of the history filed under a key when it loses its oldest changes. -/
def Shortened (before after : Option (History K V)) : Prop :=
  ∀ h', after = some h' → ∃ h, before = some h ∧ h'.changes <:+ h.changes

namespace Shortened

variable {K V : Type} {before middle after : Option (History K V)}

theorem refl (filed : Option (History K V)) : Shortened filed filed :=
  fun h same => ⟨h, same, List.suffix_refl _⟩

theorem trans (first : Shortened before middle) (second : Shortened middle after) :
    Shortened before after := by
  intro h'' left
  obtain ⟨h', middle, suffix'⟩ := second h'' left
  obtain ⟨h, filed, suffix⟩ := first h' middle
  exact ⟨h, filed, suffix'.trans suffix⟩

end Shortened

theorem pruneKey_shortened (above : ∀ p ∈ guarded, cut ≤ p) (histories : Dict K (History K V))
    (k' : K) :
    Shortened (histories.get? k) ((pruneKey .latestPrior guarded cut histories k').get? k) := by
  rw [get?_pruneKey]
  split
  next same =>
    subst same
    intro h' left
    obtain ⟨h, filed, left⟩ := Option.bind_eq_some_iff.1 left
    exact ⟨h, filed, History.remainder_suffix above left⟩
  next => exact .refl _

theorem pruneKeys_shortened (above : ∀ p ∈ guarded, cut ≤ p) (keys : List K)
    (histories : Dict K (History K V)) :
    Shortened (histories.get? k)
      ((keys.foldl (pruneKey .latestPrior guarded cut) histories).get? k) := by
  induction keys generalizing histories with
  | nil => exact .refl _
  | cons k' keys ih => exact (pruneKey_shortened above histories k').trans (ih _)

theorem pruneRosters_shortened (above : ∀ roster ∈ gone, ∀ p ∈ guarded, roster.revision ≤ p)
    (histories : Dict K (History K V)) :
    Shortened (histories.get? k)
      ((gone.foldl (pruneRoster .latestPrior guarded) histories).get? k) := by
  induction gone generalizing histories with
  | nil => exact .refl _
  | cons roster gone ih =>
    have first :=
      pruneKeys_shortened (k := k) (above roster List.mem_cons_self) roster.keys histories
    exact first.trans (ih (fun r member => above r (List.mem_cons_of_mem _ member)) _)

/-- A key that is pruned has no history afterwards if nothing is left of whatever earlier
prunings may have made of it. -/
theorem pruneKeys_eq_none {rule : Lookup} {keys : List K} {histories : Dict K (History K V)}
    (filled : Filled histories) (listed : k ∈ keys)
    (vanishes : ∀ h', Pruned rule guarded (histories.get? k) (some h') →
      h'.remainder rule guarded cut = none) :
    (keys.foldl (pruneKey rule guarded cut) histories).get? k = none := by
  induction keys generalizing histories with
  | nil => cases listed
  | cons k' keys ih =>
    have first := pruneKey_pruned rule guarded cut filled k'
    have filled' := filled.of_pruned first
    by_cases same : k = k'
    · subst same
      have pruned : (pruneKey rule guarded cut histories k).get? k = none := by
        rw [get?_pruneKey, if_pos rfl]
        cases filed : histories.get? k with
        | none => rfl
        | some h => exact vanishes h (filed ▸ .refl _)
      have rest := pruneKeys_pruned rule guarded cut keys filled' k
      rw [pruned] at rest
      exact rest.eq_none
    · refine ih filled' ((List.mem_cons.1 listed).resolve_left same) fun h' pruned => ?_
      exact vanishes h' ((first k).trans pruned)

theorem pruneRosters_eq_none {rule : Lookup} {histories : Dict K (History K V)}
    (filled : Filled histories) (member : roster ∈ gone) (listed : k ∈ roster.keys)
    (vanishes : ∀ h', Pruned rule guarded (histories.get? k) (some h') →
      h'.remainder rule guarded roster.revision = none) :
    (gone.foldl (pruneRoster rule guarded) histories).get? k = none := by
  induction gone generalizing histories with
  | nil => cases member
  | cons other gone ih =>
    have first := pruneKeys_pruned rule guarded other.revision other.keys filled
    have filled' := filled.of_pruned first
    obtain rfl | later := List.mem_cons.1 member
    · have rest : Pruned rule guarded _ _ := pruneRosters_pruned gone filled' k
      rw [pruneKeys_eq_none filled listed vanishes] at rest
      exact rest.eq_none
    · exact ih filled' later fun h' pruned => vanishes h' ((first k).trans pruned)

/-- A pass that gives up a roster just below the removal of a key that the roster lists, or
a later one, and guards nothing below the removal, takes the key's history. -/
theorem sweep_eq_none {c : Change K V} (kept : s.WellKept) (latest : s.lookup = .latestPrior)
    (member : roster ∈ gone) (listed : k ∈ roster.keys) (filed : s.histories.get? k = some h)
    (head : h.head? = some c) (tombstone : c.isTombstone = true)
    (near : c.revision ≤ roster.revision + 1) (above : ∀ p ∈ s.guarded gone, c.revision ≤ p) :
    (s.sweep gone).histories.get? k = none := by
  refine pruneRosters_eq_none kept.filled member listed fun h' pruned => ?_
  rw [filed] at pruned
  cases pruned with
  | thinned key fewer head' answers =>
    rw [latest]
    exact History.remainder_eq_none (head'.trans head) tombstone near above

/-! ## Gapless stores -/

/-- A store with the rule `latestPrior` and a window of retained revisions, in which the
history of every key is a suffix of its chronicle, and one that ends in a tombstone has a
retained revision before it. -/
structure Gapless (s : Store K V) (log : List (Commit K V)) : Prop where
  latest : s.lookup = .latestPrior
  windowed : s.Windowed
  suffix : ∀ k h, s.histories.get? k = some h → h.changes <:+ changesOf log k
  spent : ∀ k h c, s.histories.get? k = some h → h.head? = some c → c.isTombstone = true →
    ∃ r ∈ s.retained, r < c.revision

namespace Gapless

variable {log : List (Commit K V)} {c : Change K V} {r : Revision}

theorem fresh (now : Nat) : (Store.fresh .latestPrior now : Store K V).Gapless [] where
  latest := rfl
  windowed := .fresh .latestPrior now
  suffix _ _ filed := nomatch filed
  spent _ _ _ filed := nomatch filed

/-- A lookup that finds a change finds the last one that the log has at or before its
revision. -/
theorem lastChange?_of_selected? (gapless : s.Gapless log) (selected : s.selected? r k = some c) :
    lastChange? log r k = some c := by
  obtain ⟨h, filed, selected⟩ := Option.bind_eq_some_iff.1 selected
  rw [gapless.latest, History.select?_latest_eq_getLast?] at selected
  exact getLast?_filter_of_suffix (gapless.suffix k h filed) selected

/-- The revision before a removal that a history ends in is retained and lists the key. -/
theorem exists_listed_before (gapless : s.Gapless log) (sound : s.Sound log)
    (orderly : Orderly log) (filed : s.histories.get? k = some h) (head : h.head? = some c)
    (tombstone : c.isTombstone = true) :
    ∃ roster ∈ s.rosters, c.revision = roster.revision + 1 ∧ k ∈ roster.keys := by
  have made := (gapless.suffix k h filed).subset (History.mem_of_head? head)
  obtain ⟨n, commit, found, does⟩ := mem_changesOf.1 made
  obtain ⟨kind, _, revision, _⟩ := Commit.of_change?_eq_some does
  -- what is removed was there at the revision before
  have removed : k ∈ commit.draft.removed := by
    have deleted : c.kind = .deleted := by simpa [Change.isTombstone] using tombstone
    exact Commit.kind?_eq_deleted_iff.1 (deleted ▸ kind)
  have there := (orderly n commit found).live k (.inr removed)
  have bound : n ≤ s.revision := by
    rw [← sound.tracks.length]
    exact Nat.le_of_lt (List.getElem?_eq_some_iff.1 found).1
  obtain ⟨r, retained, before⟩ := gapless.spent k h c filed head tombstone
  rw [revision] at before
  have within : r ≤ n := Nat.le_of_lt_succ before
  obtain ⟨roster, member, rfl⟩ :=
    List.mem_map.1 (gapless.windowed.contiguous r retained n within bound)
  exact ⟨roster, member, revision, (sound.tracks.listed roster member k).2 there⟩

/-- A key with a history is listed by some roster. -/
theorem exists_listed (gapless : s.Gapless log) (sound : s.Sound log) (orderly : Orderly log)
    (filed : s.histories.get? k = some h) : ∃ roster ∈ s.rosters, k ∈ roster.keys := by
  obtain ⟨c, head⟩ := (sound.kept.filed k h filed).head
  cases tombstone : c.isTombstone with
  | true =>
    obtain ⟨roster, member, _, listed⟩ :=
      gapless.exists_listed_before sound orderly filed head tombstone
    exact ⟨roster, member, listed⟩
  | false =>
    obtain ⟨roster, current⟩ := sound.kept.current
    have live : s.isLive k = true :=
      (isLive_iff sound.kept).2 ⟨h, c, filed, head, tombstone⟩
    exact ⟨roster, (mem_of_roster? current).1, (sound.kept.live roster current k).2 live⟩

/-! ## What keeps a store gapless -/

/-- The register has nothing to do with histories and rosters, but for the window. -/
theorem of_register (gapless : s.Gapless log) (windowed : s'.Windowed)
    (lookup : s'.lookup = s.lookup) (histories : s'.histories = s.histories)
    (rosters : s'.rosters = s.rosters) : s'.Gapless log := by
  have retained : s'.retained = s.retained := by simp [Store.retained, rosters]
  refine ⟨lookup.trans gapless.latest, windowed, ?_, ?_⟩
  · rw [histories]
    exact gapless.suffix
  · rw [histories, retained]
    exact gapless.spent

section Sweep

variable (gapless : s.Gapless log) (sound : s.Sound log)
include gapless sound

theorem suffix_sweep_unused (filed : (s.sweep (s.doomed s.unused)).histories.get? k = some h) :
    h.changes <:+ changesOf log k := by
  have above : ∀ roster ∈ s.doomed s.unused, ∀ p ∈ s.guarded (s.doomed s.unused),
      roster.revision ≤ p := fun roster member p guards =>
    Nat.le_of_lt (lt_of_mem_doomed_unused sound.kept member guards)
  simp only [sweep, gapless.latest] at filed
  obtain ⟨h', filed', suffix⟩ := pruneRosters_shortened above s.histories h filed
  exact suffix.trans (gapless.suffix k h' filed')

/-- A history that ends in a tombstone goes with the last revision before it. -/
theorem spent_sweep_unused (orderly : Orderly log)
    (filed : (s.sweep (s.doomed s.unused)).histories.get? k = some h) (head : h.head? = some c)
    (tombstone : c.isTombstone = true) :
    ∃ r ∈ (s.sweep (s.doomed s.unused)).retained, r < c.revision := by
  obtain ⟨h', filed', pruned⟩ := filed_of_filed_sweep sound.kept.filled filed
  have head' : h'.head? = some c := by
    cases pruned with
    | thinned key fewer same answers => exact same.symm.trans head
  obtain ⟨roster, member, next, listed⟩ :=
    gapless.exists_listed_before sound orderly filed' head' tombstone
  by_contra none_before
  have since : ∀ r ∈ (s.sweep (s.doomed s.unused)).retained, c.revision ≤ r := by
    simpa using none_before
  -- the revision before the removal has been given up
  have given : roster ∈ s.doomed s.unused := by
    have gone : roster.revision ∉ (s.sweep (s.doomed s.unused)).retained := by
      intro stays
      have le := since _ stays
      rw [next] at le
      exact Nat.not_succ_le_self _ le
    rw [mem_retained_sweep_unused] at gone
    have unused : roster.revision ≠ s.revision ∧
        ∀ registration ∈ s.active, roster.revision < registration.revision := by
      simpa [List.mem_map_of_mem member, not_or, Store.retained] using gone
    exact mem_doomed.2 ⟨member, unused.1, by simpa [Store.unused] using unused.2⟩
  -- and nothing below the removal is guarded, so that the history is gone too
  have above : ∀ p ∈ s.guarded (s.doomed s.unused), c.revision ≤ p := by
    intro p guards
    obtain rfl | ⟨registration, registered, le⟩ := eq_or_le_of_mem_guarded guards
    · exact since _ (mem_retained_sweep_unused.2 ⟨sound.kept.revision_mem_retained, .inl rfl⟩)
    · have based := gapless.windowed.sweep_unused.based registration registered
      exact Nat.le_trans (since _ based) le
  have gone := sweep_eq_none sound.kept gapless.latest given listed filed' head' tombstone
    (Nat.le_of_eq next) above
  rw [gone] at filed
  cases filed

/-- A pass under a sparing policy keeps a store gapless. -/
theorem sweep_unused (orderly : Orderly log) :
    (s.sweep (s.doomed s.unused)).Gapless log where
  latest := gapless.latest
  windowed := gapless.windowed.sweep_unused
  suffix _ _ filed := gapless.suffix_sweep_unused sound filed
  spent _ _ _ filed head tombstone := gapless.spent_sweep_unused sound orderly filed head tombstone

end Sweep

theorem upkeep {keeper : Retention.Keeper K V} {now : Nat} (gapless : s.Gapless log)
    (sound : s.Sound log) (orderly : Orderly log) (sparing : keeper.warden.policy.Sparing)
    (upkeep : Upkeep keeper now s s') : s'.Gapless log := by
  have windowed := gapless.windowed.upkeep sparing upkeep
  cases upkeep with
  | opened made =>
    obtain ⟨_, _, rfl⟩ := checkout_eq_ok_iff.1 made
    exact gapless.of_register windowed rfl rfl rfl
  | released id => exact gapless.of_register windowed rfl rfl rfl
  | passed =>
    obtain same | swept := s.expire_store_of_sparing sparing now
    · rw [same]
      exact gapless
    · rw [swept]
      exact gapless.sweep_unused sound orderly

/-- What a commit adds to is a suffix of the chronicle, filed or empty. -/
theorem suffix_getD (gapless : s.Gapless log) (k : K) :
    ((s.histories.get? k).getD (.empty k)).changes <:+ changesOf log k := by
  cases filed : s.histories.get? k with
  | none => exact List.nil_suffix
  | some h => exact gapless.suffix k h filed

section Commits

variable {commit : Commit K V} (gapless : s.Gapless log) (sound : s.Sound log)
  (step : s.Extended commit s')
include gapless sound step

/-- A commit records at the end of histories. -/
theorem suffix_extended (filed : s'.histories.get? k = some h) :
    h.changes <:+ changesOf (log ++ [commit]) k := by
  have contents : contentsAt log log.length = s.leading? := by
    rw [funext sound.tracks.leading, sound.tracks.length]
  rw [changesOf_concat, contents, sound.tracks.length]
  obtain ⟨_, nothing, same⟩ | ⟨change, _, made, _, written⟩ := step.change?_eq_none_or k
  · simpa [nothing] using gapless.suffix k h (same ▸ filed)
  · rw [written] at filed
    obtain rfl := Option.some.inj filed
    have suffix := gapless.suffix_getD k
    have later : ∀ d ∈ ((s.histories.get? k).getD (.empty k)).changes,
        d.revision < change.revision := by
      intro d member
      have bound := revision_le_of_mem_changesOf (suffix.subset member)
      rw [sound.tracks.length] at bound
      rw [(Commit.of_change?_eq_some made).2.2.1]
      exact Nat.lt_succ_of_le bound
    rw [History.changes_insert later, made]
    obtain ⟨before, whole⟩ := suffix
    exact ⟨before, by simp [← whole]⟩

/-- The revision before the one that a commit makes is retained. -/
theorem spent_extended (filed : s'.histories.get? k = some h) (head : h.head? = some c)
    (tombstone : c.isTombstone = true) : ∃ r ∈ s'.retained, r < c.revision := by
  obtain ⟨_, nothing, same⟩ | ⟨change, _, made, _, written⟩ := step.change?_eq_none_or k
  · obtain ⟨r, retained, before⟩ := gapless.spent k h c (same ▸ filed) head tombstone
    exact ⟨r, step.retained ▸ List.mem_append_left _ retained, before⟩
  · rw [written] at filed
    obtain rfl := Option.some.inj filed
    obtain rfl := Option.some.inj (head.symm.trans (Extended.head?_insert sound.kept made))
    rw [(Commit.of_change?_eq_some made).2.2.1, step.retained]
    have retained := List.mem_append_left [s.revision + 1] sound.kept.revision_mem_retained
    exact ⟨s.revision, retained, Nat.lt_succ_self _⟩

/-- A commit keeps a store gapless. -/
theorem extended : s'.Gapless (log ++ [commit]) where
  latest := step.lookup.trans gapless.latest
  windowed := gapless.windowed.extended step
  suffix _ _ filed := gapless.suffix_extended sound step filed
  spent _ _ _ filed head tombstone := gapless.spent_extended sound step filed head tombstone

end Commits

/-! ## Reading -/

variable {recollect : Recollection K V} {v : V}

/-- A lookup that finds a change finds what the log has at its revision. -/
theorem value?_of_selected? (gapless : s.Gapless log) (sound : s.Sound log)
    (bounded : r ≤ s.revision) (selected : s.selected? r k = some c) :
    c.value? = contentsAt log r k := by
  rw [contentsAt_eq_lastChange? (sound.tracks.length ▸ bounded),
    gapless.lastChange?_of_selected? selected, Option.bind_some]

theorem visible_of_selected? (gapless : s.Gapless log) (sound : s.Sound log)
    (bounded : r ≤ s.revision) (selected : s.selected? r k = some c) :
    s.visible recollect r k = .ok ((contentsAt log r k).map .resident) := by
  have value := gapless.value?_of_selected? sound bounded selected
  have within : s.checkRange r = .ok () := if_neg (Nat.not_lt_of_le bounded)
  obtain ⟨h, filed, answer⟩ := Option.bind_eq_some_iff.1 selected
  cases there : contentsAt log r k with
  | some v =>
    have listed : ((s.roster? r).any fun roster => !roster.contains k) = false := by
      cases found : s.roster? r with
      | none => rfl
      | some roster => simp [sound.tracks.contains_roster found, there]
    simp [visible, within, listed, filed, History.readAt, answer, value, there]
  | none => simp [visible, within, filed, History.readAt, answer, value, there]

/-- A resident value that is visible at a revision is what the log has there. -/
theorem contentsAt_of_visible (gapless : s.Gapless log) (sound : s.Sound log)
    (bounded : r ≤ s.revision) (resident : s.visible recollect r k = .ok (some (.resident v))) :
    contentsAt log r k = some v := by
  cases selected : s.selected? r k with
  | some c =>
    rw [gapless.visible_of_selected? sound bounded selected] at resident
    simpa using Except.ok.inj resident
  | none =>
    by_cases retained : r ∈ s.retained
    · obtain ⟨roster, member, rfl⟩ := List.mem_map.1 retained
      have absent := sound.tracks.contentsAt_of_unselected (.inl ⟨roster, member, rfl⟩) selected
      have found := roster?_of_mem sound.kept.ascending member
      rw [sound.tracks.visible_of_not_contents found absent] at resident
      cases resident
    · -- what an archive recalls is not resident
      rw [sound.kept.visible_of_expired bounded retained selected] at resident
      obtain ⟨v', _, impossible⟩ := Option.map_eq_some_iff.1 (Except.ok.inj resident)
      cases impossible

end Gapless

end Store

end RevisionStore
