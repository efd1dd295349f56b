import RevisionStore.Proofs.History.Suffix
import RevisionStore.Proofs.Session.Commits
import RevisionStore.Proofs.Session.Violations

/-!
# What a commit publishes

A commit that succeeds makes one new revision. Every staged key gets exactly one change there,
at the end of what is filed under it, and nothing else of the store changes
(`Store.Publishes`). Of a session it changes nothing but that store
(`reachable_commit_publishes`).
-/

namespace RevisionStore

variable {K V : Type} [DecidableEq K]

namespace Draft

variable {d : Draft K V}

omit [DecidableEq K] in
theorem isClean_iff : d.isClean = true ↔ d.added = [] ∧ d.removed = [] ∧ d.touched = [] := by
  simp [isClean, and_assoc]

omit [DecidableEq K] in
theorem isClean_revert (d : Draft K V) : d.revert.isClean = true := rfl

end Draft

namespace Store

/-- The changes filed under a key, oldest first. -/
def changesUnder (s : Store K V) (k : K) : List (Change K V) :=
  ((s.histories.get? k).map (·.changes)).getD []

/-- What a successful commit of a draft at time `now` makes of a store, key by key. -/
structure Publishes (s : Store K V) (reconciler : Reconciler V) (now : Nat) (d : Draft K V)
    (s' : Store K V) : Prop where
  revision : s'.revision = s.revision + 1
  lookup : s'.lookup = s.lookup
  -- the register stays as it is
  active : s'.active = s.active
  nextCheckout : s'.nextCheckout = s.nextCheckout
  -- one roster is added: the current keys that are not removed, then the added ones
  rosters : ∃ before, s.roster? s.revision = some before ∧
    (before.keys.filter (· ∉ d.removed) ++ d.added).Nodup ∧
    s'.rosters =
      s.rosters ++ [⟨s.revision + 1, now, before.keys.filter (· ∉ d.removed) ++ d.added⟩]
  -- an added key ends in a clone of the held value
  added : ∀ k ∈ d.added, ∃ own v, d.local? k = some own ∧ reconciler.clone own = .ok v ∧
    s'.changesUnder k = s.changesUnder k ++ [.added k v (s.revision + 1)]
  -- a modified key ends in a clone of the merge of its current value with the held one
  modified : ∀ k ∈ d.touched, ∃ own repository merged v, d.local? k = some own ∧
    s.leading? k = some repository ∧ reconciler.merge repository own = .ok merged ∧
    reconciler.clone merged = .ok v ∧
    s'.changesUnder k = s.changesUnder k ++ [.modified k v (s.revision + 1)]
  removed : ∀ k ∈ d.removed,
    s'.changesUnder k = s.changesUnder k ++ [.deleted k (s.revision + 1)]
  others : ∀ k, k ∉ d.staged → s'.histories.get? k = s.histories.get? k

variable {s s' : Store K V} {reconciler : Reconciler V} {d : Draft K V} {k : K} {v : V}
  {now : Nat} {roster : Roster K} {change : Change K V} {h : History K V}

theorem changesUnder_of_filed (filed : s.histories.get? k = some h) :
    s.changesUnder k = h.changes := by
  simp [changesUnder, filed]

namespace WellKept

/-- A change at the next revision is recorded after those that are there. -/
theorem changes_insert_next (kept : s.WellKept) (filed : s.histories.get? k = some h)
    (next : change.revision = s.revision + 1) :
    (h.insert change).changes = s.changesUnder k ++ [change] := by
  rw [changesUnder_of_filed filed]
  refine History.changes_insert fun c member => ?_
  rw [next]
  exact Nat.lt_succ_of_le ((kept.filed k h filed).bounded c member)

/-- A successful commit publishes its draft. -/
theorem publishes (kept : s.WellKept) (staged : d.WellStaged)
    (committed : s.commit reconciler now d = .ok s') : s.Publishes reconciler now d s' := by
  obtain ⟨p, prepared, rfl⟩ := commit_eq_ok_iff.1 committed
  have ready := prepare_eq_ok_iff.1 prepared
  have extended := extended_of_commit kept staged committed
  have live (k : K) (changed : k ∈ d.touched ∨ k ∈ d.removed) :
      ∃ h, s.histories.get? k = some h ∧ h.key = k := by
    obtain ⟨h, _, filed, _⟩ := (isLive_iff kept).1 (ready.live k changed)
    exact ⟨h, filed, (kept.filed k h filed).key⟩
  refine ⟨rfl, rfl, rfl, rfl, ?_, ?_, ?_, ?_, ?_⟩
  · obtain ⟨before, current, keys⟩ := ready.keys
    have same : before.keys.filter (fun k => !d.isRemoved k) =
        before.keys.filter (· ∉ d.removed) := by simp [Draft.isRemoved]
    have distinct := extended.nodup_keys kept staged current
    rw [same] at keys distinct
    exact ⟨before, current, distinct, by rw [← keys]; rfl⟩
  · intro k added
    obtain ⟨_, made, filed'⟩ := (ready.get?_publish now staged k).2.1 added
    obtain ⟨own, v, held, cloned, rfl⟩ := addition_eq_ok_iff.1 made
    refine ⟨own, v, held, cloned, ?_⟩
    rw [changesUnder_of_filed filed']
    -- the key is new, or it was there before and has been removed since
    cases filed : s.histories.get? k with
    | none => simp [changesUnder, filed, History.recordAdded, History.insert, History.place,
        History.empty]
    | some h =>
      rw [Option.getD_some, History.recordAdded, (kept.filed k h filed).key]
      exact kept.changes_insert_next filed rfl
  · intro k touched
    obtain ⟨_, made, filed'⟩ := (ready.get?_publish now staged k).2.2.1 touched
    obtain ⟨own, repository, merged, v, held, leading, merges, cloned, rfl⟩ :=
      modification_eq_ok_iff.1 made
    obtain ⟨h, filed, key⟩ := live k (.inl touched)
    refine ⟨own, repository, merged, v, held, leading, merges, cloned, ?_⟩
    rw [filed, Option.map_some] at filed'
    rw [changesUnder_of_filed filed', History.recordModified, key]
    exact kept.changes_insert_next filed rfl
  · intro k removed
    have filed' := (ready.get?_publish now staged k).1 removed
    obtain ⟨h, filed, key⟩ := live k (.inr removed)
    rw [filed, Option.map_some] at filed'
    rw [changesUnder_of_filed filed', History.recordDeleted, key]
    exact kept.changes_insert_next filed rfl
  · intro k unstaged
    simp only [Draft.staged, List.mem_append, not_or] at unstaged
    exact (ready.get?_publish now staged k).2.2.2 unstaged.2 unstaged.1.1 unstaged.1.2

/-- A draft in which nothing is staged can always be committed. -/
theorem exists_commit_of_isClean (kept : s.WellKept) (clean : d.isClean = true) :
    ∃ s', s.commit reconciler now d = .ok s' := by
  obtain ⟨added, removed, touched⟩ := Draft.isClean_iff.1 clean
  obtain ⟨roster, current⟩ := kept.current
  have ready : s.Ready reconciler d
      ⟨[], [], d.removed, roster.keys.filter (fun k => !d.isRemoved k) ++ d.added⟩ := by
    refine ⟨?_, ?_, ?_, ?_, rfl, roster, current, rfl⟩
    · simp [added]
    · simp [touched, removed]
    · rw [added]
      exact .nil
    · rw [touched]
      exact .nil
  exact ⟨_, commit_eq_ok_iff.2 ⟨_, prepare_eq_ok_iff.2 ready, rfl⟩⟩

end WellKept

/-- A draft in which nothing is staged publishes the keys that are current. -/
theorem Publishes.of_isClean (publishes : s.Publishes reconciler now d s')
    (clean : d.isClean = true) :
    (∃ before, s.roster? s.revision = some before ∧
      s'.rosters = s.rosters ++ [⟨s.revision + 1, now, before.keys⟩]) ∧
      ∀ k, s'.histories.get? k = s.histories.get? k := by
  obtain ⟨added, removed, touched⟩ := Draft.isClean_iff.1 clean
  constructor
  · obtain ⟨before, current, _, rosters⟩ := publishes.rosters
    exact ⟨before, current, by simpa [added, removed] using rosters⟩
  · intro k
    exact publishes.others k (by simp [Draft.staged, added, removed, touched])

end Store

namespace Session

variable {s : Session K V} {name : String} {lent : Lent (WorkingCopy K V)} {site : Site K V}

/-- In a session that can be reached, a commit that succeeds answers the next revision and
changes one store, that of the copy, in which it publishes the draft of the copy. Nothing
staged, be it from the start or after everything was taken back, makes for a commit that
succeeds and adds the current keys once more. -/
theorem reachable_commit_publishes (reached : Reachable s) :
    (∀ name target answer, (s.perform (.commit name target)).1 = .ok answer →
      ∃ lent site store, s.copies.get? name = some lent ∧ s.sites[lent.home]? = some site ∧
        answer = .number (site.store.revision + 1) ∧
        (s.perform (.commit name target)).2 = s.putSite lent.home { site with store := store } ∧
        site.store.Publishes site.reconciler s.clock lent.item.draft store) ∧
      ∀ name lent site, s.copies.get? name = some lent → s.usable lent.home = .ok site →
        (lent.item.draft.isClean = true ∨ ∃ d : Draft K V, lent.item.draft = d.revert) →
          ∃ store before, site.store.roster? site.store.revision = some before ∧
            s.perform (.commit name none) =
              (.ok (.number (site.store.revision + 1)),
                s.putSite lent.home { site with store := store }) ∧
            site.store.Publishes site.reconciler s.clock lent.item.draft store ∧
            store.rosters =
              site.store.rosters ++ [⟨site.store.revision + 1, s.clock, before.keys⟩] ∧
            ∀ k, store.histories.get? k = site.store.histories.get? k := by
  obtain ⟨logs, sound⟩ := reached.sound
  have publishes {name : String} {lent : Lent (WorkingCopy K V)} {site : Site K V}
      {store : Store K V} (opened : s.copies.get? name = some lent)
      (usable : s.usable lent.home = .ok site)
      (taken : site.store.commit site.reconciler s.clock lent.item.draft = .ok store) :
      site.store.Publishes site.reconciler s.clock lent.item.draft store := by
    have there := (usable_eq_ok_iff.1 usable).1
    exact (sound.stores _ site there).kept.publishes (sound.registered opened there).staged taken
  constructor
  · intro name target answer succeeded
    obtain ⟨lent, site, store, opened, _, usable, taken, rfl, after⟩ :=
      perform_commit_eq_ok_iff.1 (Prod.ext succeeded rfl)
    have published := publishes opened usable taken
    exact ⟨lent, site, store, opened, (usable_eq_ok_iff.1 usable).1, by rw [published.revision],
      after, published⟩
  · intro name lent site opened usable quiet
    have clean : lent.item.draft.isClean = true := by
      obtain clean | ⟨d, same⟩ := quiet
      · exact clean
      · rw [same]
        exact d.isClean_revert
    have kept := (sound.stores _ site (usable_eq_ok_iff.1 usable).1).kept
    obtain ⟨store, taken⟩ := kept.exists_commit_of_isClean clean
    have published := publishes opened usable taken
    obtain ⟨⟨before, current, rosters⟩, histories⟩ := published.of_isClean clean
    refine ⟨store, before, current, ?_, published, rosters, histories⟩
    rw [← published.revision]
    exact perform_commit_eq_ok_iff.2 ⟨lent, site, store, opened, rfl, usable, taken, rfl, rfl⟩

/-- The copy that modifies one key and removes another adds a third one as well. -/
def pendingAddition : Session Nat Nat :=
  (start (trialSpecs .earliestPrior) 0).run (pendingActions ++ [.add "c" 3 9])

/-- Each of the three keys gets its one change. -/
theorem reachable_commit_publishes_addition :
    Reachable pendingAddition ∧
    ∃ site store, pendingAddition.sites[0]? = some site ∧
      pendingAddition.perform (.commit "c" none) =
        (.ok (.number 3), pendingAddition.putSite 0 { site with store := store }) ∧
      store.changesUnder 1 = site.store.changesUnder 1 ++ [.modified 1 8 3] ∧
      store.changesUnder 2 = site.store.changesUnder 2 ++ [.deleted 2 3] ∧
      store.changesUnder 3 = [.added 3 9 3] := by
  have reached : Reachable pendingAddition := .run (.start _ _) _
  obtain ⟨commits, _⟩ := reachable_commit_publishes reached
  obtain ⟨lent, site, store, opened, there, answer, after, publishes⟩ :=
    commits "c" none (.number 3) rfl
  have copy : (pendingAddition.copies.get? "c").map (fun lent =>
      (lent.home, lent.item.draft.added, lent.item.draft.touched, lent.item.draft.removed,
        lent.item.draft.local? 1, lent.item.draft.local? 3)) =
      some (0, [3], [1], [2], some 8, some 9) := rfl
  simp only [opened, Option.map_some, Option.some.injEq, Prod.mk.injEq] at copy
  obtain ⟨home, added, touched, removed, first, third⟩ := copy
  rw [home] at there after
  have plain : site.reconciler = .plain := by
    have plain : pendingAddition.sites[0]?.map (·.reconciler) = some .plain := rfl
    simpa [there] using plain
  have unfiled : pendingAddition.sites[0]?.map (·.store.changesUnder 3) = some [] := rfl
  simp only [there, Option.map_some, Option.some.injEq] at unfiled
  have next : site.store.revision + 1 = 3 := by simpa using answer.symm
  have addition := publishes.added 3 (by simp [added])
  have modification := publishes.modified 1 (by simp [touched])
  have removal := publishes.removed 2 (by simp [removed])
  simp only [plain, Reconciler.plain, first, third, next, unfiled, Option.some.injEq,
    Except.ok.injEq] at addition modification removal
  obtain ⟨_, _, rfl, rfl, addition⟩ := addition
  obtain ⟨_, _, _, _, rfl, _, rfl, rfl, modification⟩ := modification
  exact ⟨reached, site, store, there, Prod.ext rfl after, modification, removal, addition⟩

end Session

end RevisionStore
