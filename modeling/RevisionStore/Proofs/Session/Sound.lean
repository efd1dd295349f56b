import RevisionStore.Proofs.Session.Moves
import RevisionStore.Proofs.Store.Sound

/-!
# Sound sessions

`Session.Sound s logs` is the invariant of sessions: every store is well kept and tracks
the log of its site, and every open copy is well staged, registered under a number of its
own and checked out of a roster with the contents of the log. Every session that can be
reached is sound for the logs that its run has written (`sound_run`).
-/

namespace RevisionStore

/-- The stores of a session are in order and its copies are registered. -/
structure Session.Sound {K V : Type} [DecidableEq K] (s : Session K V)
    (logs : Nat → List (Commit K V)) : Prop where
  stores : ∀ i (site : Site K V), s.sites[i]? = some site → site.store.Sound (logs i)
  copies : ∀ name lent, s.copies.get? name = some lent →
    ∃ site, s.sites[lent.home]? = some site ∧ lent.item.Registered site.store (logs lent.home)
  -- copies of one store have different numbers
  apart : ∀ name name' lent lent', s.copies.get? name = some lent →
    s.copies.get? name' = some lent' → lent.home = lent'.home → lent.item.id = lent'.item.id →
      name = name'

variable {K V : Type} [DecidableEq K]

namespace Session

variable {s t : Session K V} {logs logs' : Nat → List (Commit K V)} {i : Nat}
  {site site' : Site K V} {name : String} {lent : Lent (WorkingCopy K V)}

namespace Sound

theorem start (specs : List (SiteSpec K V)) (clock : Nat) :
    (Session.start specs clock).Sound fun _ => [] where
  stores i site there := by
    simp only [Session.start, List.getElem?_map, Option.map_eq_some_iff] at there
    obtain ⟨⟨spec, j⟩, _, rfl⟩ := there
    exact .fresh spec.lookup clock
  copies _ _ opened := nomatch opened
  apart _ _ _ _ opened := nomatch opened

/-- The stores and the copies are all that counts. -/
theorem of_eq (sound : s.Sound logs) (sites : t.sites = s.sites) (copies : t.copies = s.copies) :
    t.Sound logs := by
  obtain ⟨stores, registered, apart⟩ := sound
  constructor
  · rwa [sites]
  · rwa [sites, copies]
  · rwa [copies]

/-- An open copy is registered with its site. -/
theorem registered (sound : s.Sound logs) (opened : s.copies.get? name = some lent)
    (there : s.sites[lent.home]? = some site) :
    lent.item.Registered site.store (logs lent.home) := by
  obtain ⟨home, found, registered⟩ := sound.copies name lent opened
  obtain rfl := Option.some.inj (there.symm.trans found)
  exact registered

/-- A site may be replaced if its store stays sound and its copies stay registered. -/
theorem putSite (sound : s.Sound logs) (there : s.sites[i]? = some site)
    (store : site'.store.Sound (logs' i)) (elsewhere : ∀ j, j ≠ i → logs' j = logs j)
    (registered : ∀ name lent, s.copies.get? name = some lent → lent.home = i →
      lent.item.Registered site.store (logs i) → lent.item.Registered site'.store (logs' i)) :
    (s.putSite i site').Sound logs' := by
  constructor
  · intro j found there'
    rw [getElem?_putSite there] at there'
    split at there'
    next same =>
      obtain rfl := Option.some.inj there'
      exact same ▸ store
    next other => exact elsewhere j other ▸ sound.stores j found there'
  · intro name lent opened
    obtain ⟨home, there', was⟩ := sound.copies name lent opened
    rw [getElem?_putSite there]
    by_cases same : lent.home = i
    · refine ⟨site', by simp [same], ?_⟩
      rw [same] at was there' ⊢
      obtain rfl := Option.some.inj (there.symm.trans there')
      exact registered name lent opened same was
    · refine ⟨home, by simp [same, there'], ?_⟩
      rwa [elsewhere _ same]
  · exact sound.apart

/-- What is put under a name has to be registered under a number that is not another name's. -/
theorem put (sound : s.Sound logs) (lent : Lent (WorkingCopy K V))
    (there : s.sites[lent.home]? = some site)
    (registered : lent.item.Registered site.store (logs lent.home))
    (alone : ∀ name' lent', s.copies.get? name' = some lent' → lent'.home = lent.home →
      lent'.item.id = lent.item.id → name' = name) :
    { s with copies := s.copies.put name lent }.Sound logs where
  stores := sound.stores
  copies name' lent' opened := by
    rw [Dict.get?_put] at opened
    split at opened
    next =>
      obtain rfl := Option.some.inj opened
      exact ⟨site, there, registered⟩
    next => exact sound.copies name' lent' opened
  apart name₁ name₂ lent₁ lent₂ opened₁ opened₂ home number := by
    rw [Dict.get?_put] at opened₁ opened₂
    split at opened₁ <;> split at opened₂
    next same₁ same₂ => exact same₁.trans same₂.symm
    next same₁ _ =>
      obtain rfl := Option.some.inj opened₁
      exact same₁.trans (alone name₂ lent₂ opened₂ home.symm number.symm).symm
    next _ same₂ =>
      obtain rfl := Option.some.inj opened₂
      exact (alone name₁ lent₁ opened₁ home number).trans same₂.symm
    next => exact sound.apart name₁ name₂ lent₁ lent₂ opened₁ opened₂ home number

theorem erase (sound : s.Sound logs) (name : String) :
    { s with copies := s.copies.erase name }.Sound logs where
  stores := sound.stores
  copies name' lent' opened := by
    rw [Dict.get?_erase] at opened
    split at opened
    next => cases opened
    next => exact sound.copies name' lent' opened
  apart name₁ name₂ lent₁ lent₂ opened₁ opened₂ := by
    rw [Dict.get?_erase] at opened₁ opened₂
    split at opened₁
    next => cases opened₁
    next =>
      split at opened₂
      next => cases opened₂
      next => exact sound.apart name₁ name₂ lent₁ lent₂ opened₁ opened₂

/-- A copy can be struck off the register once its name is gone. -/
theorem left (sound : s.Sound logs) (opened : s.copies.get? name = some lent) :
    ({ s with copies := s.copies.erase name }.release lent).Sound logs := by
  have erased := sound.erase name
  simp only [Session.release]
  split
  next => exact erased
  next site usable =>
    have there := (usable_eq_ok_iff.1 usable).1
    refine erased.putSite there ((erased.stores _ site there).release lent.item.id)
      (fun _ _ => rfl) fun name' lent' opened' home registered => ?_
    refine registered.of_active (List.mem_filter.2 ⟨registered.registered, ?_⟩) rfl
    have opened' : name' ≠ name ∧ s.copies.get? name' = some lent' := by
      rw [Dict.get?_erase] at opened'
      split at opened'
      next => cases opened'
      next other => exact ⟨other, opened'⟩
    simpa using fun same => opened'.1 (sound.apart _ _ _ _ opened'.2 opened home same)

/-- Every move keeps a session sound. -/
theorem move (sound : s.Sound logs) (move : Move s t) : t.Sound logs := by
  cases move with
  | aside sites copies => exact sound.of_eq sites copies
  | @handed _ i warden archive site there sites copies =>
    have handed : (s.putSite i { site with warden := warden, archive := archive }).Sound logs :=
      sound.putSite there (sound.stores i site there) (fun _ _ => rfl) fun _ _ _ _ => id
    exact handed.of_eq sites copies
  | @poisoned i site d fault there raised =>
    exact sound.putSite there (sound.stores i site there) (fun _ _ => rfl) fun _ _ _ _ => id
  | @opened i name site id base store there free made =>
    obtain ⟨store', registered, stays⟩ := (sound.stores i site there).checkout made
    have grown : (s.putSite i { site with store := store }).Sound logs :=
      sound.putSite there store' (fun _ _ => rfl) fun _ _ _ _ registered =>
        registered.of_active (stays _ registered.registered).1 rfl
    have there' : (s.putSite i { site with store := store }).sites[i]? =
        some { site with store := store } := by simp [getElem?_putSite there]
    refine grown.put ⟨i, ⟨id, .new base⟩⟩ there' registered
      fun name' lent' opened' home number => ?_
    subst home
    exact absurd number (stays _ (sound.registered opened' there).registered).2
  | @redrafted name lent d opened evolves =>
    obtain ⟨site, there, registered⟩ := sound.copies name lent opened
    refine sound.put { lent with item := { lent.item with draft := d } } there
      (registered.evolves evolves) fun name' lent' opened' home number => ?_
    exact sound.apart name' name lent' lent opened' opened home number
  | left opened => exact sound.left opened
  | @passed i site there =>
    obtain ⟨store, active⟩ := (sound.stores i site there).expire (s.keeperOf site) s.clock
    have swept : (s.putSite i
        { site with store := (site.store.expire (s.keeperOf site) s.clock).2.1 }).Sound logs :=
      sound.putSite there store (fun _ _ => rfl) fun _ _ _ _ registered =>
        registered.of_active (active ▸ registered.registered) rfl
    exact swept.of_eq rfl rfl

theorem moves (sound : s.Sound logs) (moves : Moves s t) : t.Sound logs := by
  induction moves with
  | refl => exact sound
  | tail _ step ih => exact ih.move step

/-- A commit keeps a session sound, on a longer log. -/
theorem commit {store : Store K V} (sound : s.Sound logs)
    (opened : s.copies.get? name = some lent) (there : s.sites[lent.home]? = some site)
    (succeeded : site.store.commit site.reconciler s.clock lent.item.draft = .ok store)
    (log : logs' lent.home = logs lent.home ++ [⟨site.reconciler, lent.item.draft⟩])
    (elsewhere : ∀ j, j ≠ lent.home → logs' j = logs j) :
    (s.putSite lent.home { site with store := store }).Sound logs' := by
  have before := sound.stores _ site there
  obtain ⟨after, active⟩ := before.commit (sound.registered opened there).staged succeeded
  refine sound.putSite there (log ▸ after) elsewhere fun name' lent' _ _ registered' => ?_
  refine registered'.of_active (active ▸ registered'.registered) ?_
  rw [log]
  refine contentsAt_append_of_le ?_
  rw [before.tracks.length]
  exact before.tracks.watched_le _ registered'.watched

/-- Every action keeps a session sound, for the logs with what it commits. -/
theorem perform (sound : s.Sound logs) (action : Action K V) :
    (s.perform action).2.Sound fun i => logs i ++ (s.committed? i action).toList := by
  have turn := s.perform_turn action
  generalize (s.perform action).2 = t at turn
  cases turn with
  | moved moves silent => simpa [silent] using sound.moves moves
  | @reconciled i site reconciler asked there =>
    subst asked
    simp only [committed?, Option.toList_none, List.append_nil]
    exact sound.putSite there (sound.stores i site there) (fun _ _ => rfl) fun _ _ _ _ => id
  | @committed name lent site store opened there succeeded logged =>
    refine sound.commit opened there succeeded ?_ fun j other => ?_
    · simp [logged]
    · simp [logged, Ne.symm other]

/-- Every run keeps a session sound, for the logs with what it commits. -/
theorem run (sound : s.Sound logs) (actions : List (Action K V)) :
    (s.run actions).Sound fun i => logs i ++ s.commits i actions := by
  induction actions generalizing s logs with
  | nil => simpa [commits, Session.run] using sound
  | cons action rest ih => simpa [commits, Session.run] using ih (sound.perform action)

end Sound

/-- After a run of a fresh session the logs are what the run has committed. -/
theorem sound_run (specs : List (SiteSpec K V)) (clock : Nat) (actions : List (Action K V)) :
    ((Session.start specs clock).run actions).Sound fun i =>
      (Session.start specs clock).commits i actions := by
  simpa using (Sound.start specs clock).run actions

theorem Reachable.sound (reached : Reachable s) : ∃ logs, s.Sound logs := by
  induction reached with
  | start specs clock => exact ⟨_, .start specs clock⟩
  | perform action _ ih =>
    obtain ⟨logs, sound⟩ := ih
    exact ⟨_, sound.perform action⟩

/-- Runs lead from reachable sessions to reachable sessions. -/
theorem Reachable.run (reached : Reachable s) (actions : List (Action K V)) :
    Reachable (s.run actions) := by
  induction actions generalizing s with
  | nil => exact reached
  | cons action rest ih => exact ih (reached.perform action)

/-! ## Reachable stores -/

/-- In a session that can be reached every store has its current roster; each of its rosters
and changes is filed under its own revision, which is not ahead of the store; rosters list
no key twice, histories are filled and hold changes of their own key, with a value unless
they are tombstones; and the current keys are those whose history ends in no tombstone. -/
theorem reachable_store (reached : Reachable s) (there : s.sites[i]? = some site) :
    (∃ roster, site.store.roster? site.store.revision = some roster) ∧
      (∀ roster ∈ site.store.rosters, site.store.roster? roster.revision = some roster ∧
        roster.revision ≤ site.store.revision ∧ roster.keys.Nodup) ∧
      (∀ k h, site.store.histories.get? k = some h → h.changes ≠ [] ∧ h.key = k ∧
        ∀ c ∈ h.changes, c.key = k ∧ c.revision ≤ site.store.revision ∧
          h.changeAt? c.revision = some c ∧ (c.value?.isSome = true ↔ c.kind ≠ .deleted)) ∧
      ∀ roster, site.store.roster? site.store.revision = some roster → ∀ k,
        k ∈ roster.keys ↔ ∃ h c, site.store.histories.get? k = some h ∧ h.head? = some c ∧
          c.kind ≠ .deleted := by
  obtain ⟨logs, sound⟩ := reached.sound
  have kept := (sound.stores i site there).kept
  refine ⟨kept.current, fun roster member => ?_, fun k h filed => ?_, fun roster current k => ?_⟩
  · exact ⟨Store.roster?_of_mem kept.ascending member, kept.bounded roster member,
      kept.distinct roster member⟩
  · obtain ⟨key, filled, belongs, bounded, coherent⟩ := kept.filed k h filed
    refine ⟨filled, key, fun c member => ⟨belongs c member, bounded c member, ?_, ?_⟩⟩
    · exact History.changeAt?_eq_some_iff.2 ⟨member, rfl⟩
    · rw [coherent c member]
      simp [Change.isTombstone]
  · rw [kept.live roster current k, Store.isLive_iff kept]
    simp [Change.isTombstone]

/-- One store under the standard plan. -/
def trialSpecs (lookup : Lookup) : List (SiteSpec Nat Nat) :=
  [⟨.plain, lookup, Retention.Plan.standard.policy, .discarding⟩]

/-- A key is added, removed and added again while copies are closed, and then comes a commit
that has nothing to do with it. The last copy stays open. -/
def trialActions : List (Action Nat Nat) :=
  [.checkout 0 "a", .add "a" 1 5, .commit "a" none,
    .checkout 0 "b", .remove "b" 1, .commit "b" none,
    .checkout 0 "c", .add "c" 1 7, .commit "c" none,
    .close "a" none, .close "b" none, .close "c" none,
    .checkout 0 "d", .commit "d" none]

/-- The session after these actions. -/
def trial (lookup : Lookup) : Session Nat Nat :=
  (start (trialSpecs lookup) 0).run trialActions

theorem reachable_trial (lookup : Lookup) : Reachable (trial lookup) :=
  .run (.start _ _) _

/-- A key that was removed and added again is live. -/
theorem reachable_store_trial : ∃ site, (trial .earliestPrior).sites[0]? = some site ∧
    ∃ h c, site.store.histories.get? 1 = some h ∧ h.head? = some c ∧ c.kind ≠ .deleted := by
  obtain ⟨site, there⟩ : ∃ site, (trial .earliestPrior).sites[0]? = some site := ⟨_, rfl⟩
  have current : ((trial .earliestPrior).sites[0]?.bind fun site =>
    site.store.roster? site.store.revision) = some ⟨4, 0, [1]⟩ := by decide
  rw [there] at current
  have live := (reachable_store (reachable_trial _) there).2.2.2 _ current 1
  exact ⟨site, there, live.1 List.mem_cons_self⟩

end Session

end RevisionStore
