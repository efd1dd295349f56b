import RevisionStore.Proofs.Session.Archives

/-!
# What a pass does, whatever the policy says

A policy may answer anything, and count or look at the clock to do so. `Store.Passed` says what a
pass does to a store when `run` and `expires` are the answers. Histories are pruned many times in
one pass and by keys that many rosters share, so what holds of them is shown for one pruning and
carried through the pass. A pass that is repeated finds nothing more to give up, if the answers
are the same again (`reachable_expire`). A close runs the same pass as soon as its copy is
released (`close_eq_or`).
-/

namespace RevisionStore

open Retention (Warden Keeper)

variable {K V : Type}

namespace History

variable {rule : Lookup} {guarded : List Revision} {before after : Option (History K V)}

/-- Pruning leaves the most recent change, or nothing at all where this is a tombstone. -/
theorem Pruned.head (pruned : Pruned rule guarded before after) :
    after.bind (·.head?) = before.bind (·.head?) ∨
      after = none ∧ ∃ c, before.bind (·.head?) = some c ∧ c.isTombstone = true := by
  cases pruned with
  | absent => exact .inl rfl
  | thinned key fewer head answers => exact .inl head
  | emptied head tombstone answers => exact .inr ⟨rfl, _, head, tombstone⟩

end History

namespace Store

variable [DecidableEq K]

/-- The most recent change of `k`. -/
def newest? (s : Store K V) (k : K) : Option (Change K V) :=
  (s.histories.get? k).bind (·.head?)

/-- What becomes of a store in a pass that answers `n`, if `run` is what the policy says to the
pass and `expires` what it says to each roster that there is before the pass. -/
structure Passed (s : Store K V) (run : Bool) (expires : Roster K → Bool) (n : Nat)
    (s' : Store K V) : Prop where
  -- a pass that is not to run gives up nothing
  idle : run = false → n = 0
  -- a pass that gives up nothing changes nothing
  void : n = 0 → s' = s
  -- a pass that runs gives up what it is told to, but not the current roster
  rosters : run = true → s'.rosters = s.rosters.filter fun roster =>
    !(roster.revision ≠ s.revision && expires roster)
  number : run = true → n = s.rosters.countP fun roster =>
    roster.revision ≠ s.revision && expires roster
  revision : s'.revision = s.revision
  active : s'.active = s.active
  nextCheckout : s'.nextCheckout = s.nextCheckout
  lookup : s'.lookup = s.lookup
  -- of a history with a tombstone on top nothing may be left
  heads : ∀ k, s'.newest? k = s.newest? k ∨
    s'.histories.get? k = none ∧ ∃ c, s.newest? k = some c ∧ c.isTombstone = true
  -- the history of a key that no roster given up lists stays as it is
  unlisted : ∀ k, (∀ roster ∈ s.rosters, roster ∉ s'.rosters → k ∉ roster.keys) →
    s'.histories.get? k = s.histories.get? k

variable {s : Store K V} {rule : Lookup} {guarded : List Revision} {cut : Revision} {k : K}

/-! ## Keys that a pass does not come across -/

theorem get?_pruneKeys_of_notMem {keys : List K} (unlisted : k ∉ keys)
    (histories : Dict K (History K V)) :
    (keys.foldl (pruneKey rule guarded cut) histories).get? k = histories.get? k := by
  induction keys generalizing histories with
  | nil => rfl
  | cons k' keys ih =>
    obtain ⟨other, unlisted⟩ := not_or.1 (mt List.mem_cons.2 unlisted)
    rw [List.foldl_cons, ih unlisted, get?_pruneKey, if_neg other]

theorem get?_pruneRosters_of_notMem {gone : List (Roster K)}
    (unlisted : ∀ roster ∈ gone, k ∉ roster.keys) (histories : Dict K (History K V)) :
    (gone.foldl (pruneRoster rule guarded) histories).get? k = histories.get? k := by
  induction gone generalizing histories with
  | nil => rfl
  | cons roster gone ih =>
    obtain ⟨first, rest⟩ := List.forall_mem_cons.1 unlisted
    rw [List.foldl_cons, ih rest, pruneRoster, get?_pruneKeys_of_notMem first]

/-! ## One pass -/

/-- To give up nothing changes nothing. -/
theorem sweep_nil (s : Store K V) : s.sweep [] = s := by
  simp [sweep, isAmong]

theorem WellKept.passed_sweep (kept : s.WellKept) (expires : Roster K → Bool) :
    s.Passed true expires (s.doomed expires).length (s.sweep (s.doomed expires)) where
  idle := nofun
  void nothing := by rw [List.length_eq_zero_iff.1 nothing, sweep_nil]
  rosters _ := kept.rosters_sweep_doomed expires
  number _ := List.countP_eq_length_filter.symm
  revision := rfl
  active := rfl
  nextCheckout := rfl
  lookup := rfl
  heads k := by
    have filled : Filled s.histories := fun k h filed => (kept.filed k h filed).filled
    exact (sweep_pruned filled (s.doomed expires) k).head
  unlisted k unlisted := by
    refine get?_pruneRosters_of_notMem (fun roster gone => unlisted roster ?_ ?_) _
    · exact (mem_doomed.1 gone).1
    · exact fun stays => (mem_rosters_sweep.1 stays).2 roster gone rfl

theorem passed_self (s : Store K V) (expires : Roster K → Bool) :
    s.Passed false expires 0 s where
  idle _ := rfl
  void _ := rfl
  rosters := nofun
  number := nofun
  revision := rfl
  active := rfl
  nextCheckout := rfl
  lookup := rfl
  heads _ := .inl rfl
  unlisted _ _ := rfl

/-- What a pass does under any keeper at any time. -/
theorem WellKept.passed (kept : s.WellKept) (keeper : Keeper K V) (now : Nat) :
    s.Passed (keeper.warden.ask s.view).1 ((keeper.warden.ask s.view).2.expires now s.view)
      (s.expire keeper now).1 (s.expire keeper now).2.1 := by
  unfold expire
  cases run : (keeper.warden.ask s.view).1 with
  | true => simpa [run] using kept.passed_sweep _
  | false => simpa [run] using s.passed_self _

/-- A pass that comes after another one and gets the same answers gives up nothing. -/
theorem Passed.again {run run' : Bool} {expires expires' : Roster K → Bool} {n n' : Nat}
    {s' s'' : Store K V} (passed : s.Passed run expires n s')
    (passed' : s'.Passed run' expires' n' s'') (same : run' = run)
    (agree : ∀ roster ∈ s'.rosters, expires' roster = expires roster) : n' = 0 := by
  subst same
  cases runs : run' with
  | false => exact passed'.idle runs
  | true =>
    rw [passed'.number runs, List.countP_eq_zero]
    intro roster stays
    have spared := passed.rosters runs ▸ stays
    rw [agree roster stays, passed.revision]
    simpa [imp_iff_not_or] using (List.mem_filter.1 spared).2

/-- A pass that gives up nothing has nothing to hand over. -/
theorem archive_expire_of_zero {keeper : Keeper K V} {now : Nat}
    (nothing : (s.expire keeper now).1 = 0) :
    (s.expire keeper now).2.2.archive = keeper.archive := by
  revert nothing
  unfold expire
  cases run : (keeper.warden.ask s.view).1 with
  | true =>
    intro nothing
    have nothing := List.length_eq_zero_iff.1 (by simpa only [run, if_true] using nothing)
    simp [run, nothing, Keeper.receive, Retention.Archive.receive]
  | false => simp [run]

end Store

namespace Session

variable {s : Session K V} {i : Nat} {site : Site K V}

/-- What the policy of a site would say if it were asked now: whether a pass is to run, and which
rosters it is to give up. -/
def verdict (s : Session K V) (site : Site K V) : Bool × (Roster K → Bool) :=
  let (run, warden) := (s.keeperOf site).warden.ask site.store.view
  (run, warden.expires s.clock site.store.view)

/-- Putting back the archive that a site has leaves the archives as they are. -/
theorem set_archives_self (s : Session K V) (site : Site K V) :
    s.archives.set site.archive (s.keeperOf site).archive = s.archives := by
  refine List.ext_getElem? fun j => ?_
  rw [List.getElem?_set]
  split
  next same =>
    subst same
    split
    next bound => simp [keeperOf, bound]
    next beyond => rw [List.getElem?_eq_none (Nat.le_of_not_lt beyond)]
  next => rfl

/-- A site that could be used before a pass can be used after it. -/
theorem usable_after_pass (usable : s.usable i = .ok site) (store : Store K V)
    (keeper : Keeper K V) :
    ((s.putSite i { site with store := store }).putKeeper site keeper).usable i =
      .ok { site with store := store } := by
  obtain ⟨there, sane⟩ := usable_eq_ok_iff.1 usable
  have placed : (s.putSite i { site with store := store }).sites[i]? =
      some { site with store := store } := by simp [getElem?_putSite there]
  exact usable_eq_ok_iff.2 ⟨placed, sane⟩

variable [DecidableEq K]

theorem perform_expire (usable : s.usable i = .ok site) :
    s.perform (.expire i) =
      (.ok (.number (site.store.expire (s.keeperOf site) s.clock).1),
        (s.putSite i { site with store := (site.store.expire (s.keeperOf site) s.clock).2.1
          }).putKeeper site (site.store.expire (s.keeperOf site) s.clock).2.2) := by
  simp [perform, answered, Session.expire, usable, Except.map]

/-- After a pass that gives up nothing the only trace of it is in the policy. -/
theorem perform_expire_of_zero (usable : s.usable i = .ok site)
    (nothing : (site.store.expire (s.keeperOf site) s.clock).1 = 0)
    (same : (site.store.expire (s.keeperOf site) s.clock).2.1 = site.store) :
    ∃ wardens, s.perform (.expire i) = (.ok (.number 0), { s with wardens := wardens }) := by
  have there := (usable_eq_ok_iff.1 usable).1
  obtain ⟨bound, found⟩ := List.getElem?_eq_some_iff.1 there
  have sites : s.sites.set i site = s.sites := found ▸ List.set_getElem_self bound
  have archives := set_archives_self s site
  rw [perform_expire usable]
  simp only [nothing, same, putKeeper, putSite, Store.archive_expire_of_zero nothing, sites,
    archives]
  exact ⟨_, rfl⟩

/-- In a session that can be reached a pass on a site that can be used does to its store what
`Store.Passed` says, and nothing to the rest of the session; the wardens count it, and the
archives receive what is given up. If the same pass is asked for again at once and the policy
gives the same answers, it gives up nothing and changes nothing. A pass on a poisoned site is
refused. -/
theorem reachable_expire (reached : Reachable s) (there : s.sites[i]? = some site) :
    (site.poisoned = true →
      s.perform (.expire i) = (.error (.failed (.refused .poisoned)), s)) ∧
    (site.poisoned = false → ∃ n t store, s.perform (.expire i) = (.ok (.number n), t) ∧
      site.store.Passed (s.verdict site).1 (s.verdict site).2 n store ∧
      (∃ wardens archives, t = { s with
        sites := s.sites.set i { site with store := store }
        wardens := wardens
        archives := archives }) ∧
      (n = 0 → ∃ wardens, t = { s with wardens := wardens }) ∧
      ((t.verdict { site with store := store }).1 = (s.verdict site).1 →
        (∀ roster ∈ store.rosters,
          (t.verdict { site with store := store }).2 roster = (s.verdict site).2 roster) →
        ∃ wardens, t.perform (.expire i) = (.ok (.number 0), { t with wardens := wardens }))) := by
  obtain ⟨logs, sound⟩ := reached.sound
  refine ⟨fun poisoned => ?_, fun sane => ?_⟩
  · have refused : s.usable i = .error (.failed (.refused .poisoned)) := by
      simp [usable, site_eq_ok_iff.2 there, poisoned]
    simp [perform, answered, Session.expire, refused, Except.map]
  have usable := usable_eq_ok_iff.2 ⟨there, sane⟩
  have passed := (sound.stores i site there).kept.passed (s.keeperOf site) s.clock
  refine ⟨_, _, _, perform_expire usable, passed, ⟨_, _, rfl⟩, fun nothing => ?_,
    fun run agree => ?_⟩
  · obtain ⟨wardens, idle⟩ := perform_expire_of_zero usable nothing (passed.void nothing)
    rw [perform_expire usable] at idle
    exact ⟨wardens, (Prod.mk.inj idle).2⟩
  · obtain ⟨logs', sound'⟩ := (reached.perform (.expire i)).sound
    rw [perform_expire usable] at sound'
    have usable' := usable_after_pass usable (site.store.expire (s.keeperOf site) s.clock).2.1
      (site.store.expire (s.keeperOf site) s.clock).2.2
    have passed' := (sound'.stores i _ (usable_eq_ok_iff.1 usable').1).kept.passed
    have nothing := passed.again (passed' _ _) run agree
    exact perform_expire_of_zero usable' nothing ((passed' _ _).void nothing)

omit [DecidableEq K] in
theorem verdict_of_select {run : Bool} {revisions : List Revision}
    (under : (s.keeperOf site).warden.policy = .select run revisions) :
    s.verdict site = (run, fun roster => revisions.contains roster.revision) := by
  refine Prod.ext ?_ (funext fun roster => ?_)
  · simp [verdict, Warden.ask, under, Retention.Policy.select]
  · simp [verdict, Warden.ask, Warden.expires, under, Retention.Policy.select]

/-- One key is removed and another one replaced. The policy of the site wants to keep none of the
four revisions. -/
def spent : Session Nat Nat :=
  (start [⟨.plain, .latestPrior, .select true [0, 1, 2, 3], .discarding⟩] 0).run
    [.checkout 0 "a", .add "a" 1 5, .add "a" 2 6, .commit "a" none, .drop "a",
      .checkout 0 "b", .remove "b" 1, .commit "b" none, .drop "b",
      .checkout 0 "c", .replace "c" 2 7, .add "c" 3 8, .commit "c" none, .drop "c"]

/-- Three revisions are given up, and with them the history of the removed key. The replaced one
keeps its value, and a key that entered in the current revision its whole history. -/
theorem reachable_expire_spent :
    ∃ site t store, spent.sites[0]? = some site ∧
      spent.perform (.expire 0) = (.ok (.number 3), t) ∧
      t.sites[0]? = some { site with store := store } ∧
      store.retained = [3] ∧
      store.histories.get? 1 = none ∧ (site.store.newest? 1).map (·.isTombstone) = some true ∧
      (store.newest? 2).map (·.value?) = some (some 7) ∧
      store.histories.get? 3 = site.store.histories.get? 3 ∧
      ∃ wardens, t.perform (.expire 0) = (.ok (.number 0), { t with wardens := wardens }) := by
  have reached : Reachable spent := .run (.start _ _) _
  obtain ⟨site, there⟩ : ∃ site, spent.sites[0]? = some site := ⟨_, rfl⟩
  have before : spent.sites[0]?.map (fun site => (site.poisoned, site.warden, site.store.rosters,
      (site.store.newest? 1).map (·.isTombstone))) =
    some (false, 0, [⟨0, 0, []⟩, ⟨1, 0, [1, 2]⟩, ⟨2, 0, [2]⟩, ⟨3, 0, [2, 3]⟩], some true) := by
    decide
  simp only [there, Option.map_some, Option.some.injEq, Prod.mk.injEq] at before
  obtain ⟨sane, warden, rosters, removed⟩ := before
  obtain ⟨n, t, store, done, passed, ⟨wardens, archives, rest⟩, -, again⟩ :=
    (reachable_expire reached there).2 sane
  obtain rfl : (spent.perform (.expire 0)).2 = t := by rw [done]
  have three : (.ok (.number 3) : Except Refusal (Answer Nat Nat)) = .ok (.number n) :=
    (congrArg Prod.fst done : (spent.perform (.expire 0)).1 = _)
  obtain rfl : 3 = n := by injection three with three; injection three
  have placed : (spent.perform (.expire 0)).2.sites[0]? = some { site with store := store } := by
    rw [rest]
    exact (List.getElem?_set_self (List.getElem?_eq_some_iff.1 there).1)
  have after : (spent.perform (.expire 0)).2.sites[0]?.map (fun site => (site.store.rosters,
      site.store.histories.get? 1 |>.isNone, (site.store.newest? 2).map (·.value?))) =
    some ([⟨3, 0, [2, 3]⟩], true, some (some 7)) := by decide
  simp only [placed, Option.map_some, Option.some.injEq, Prod.mk.injEq] at after
  obtain ⟨rosters', emptied, replaced⟩ := after
  have under (t : Session Nat Nat) (site : Site Nat Nat) (first : site.warden = 0)
      (chosen : (t.wardens.getD 0 default).policy = .select true [0, 1, 2, 3]) :
      t.verdict site = (true, fun roster => [0, 1, 2, 3].contains roster.revision) :=
    verdict_of_select (by simp only [keeperOf, first, chosen])
  have asked := under spent site warden rfl
  have asked' := under (spent.perform (.expire 0)).2 { site with store := store } warden rfl
  refine ⟨site, _, store, there, done, placed, by simp [Store.retained, rosters'],
    by simpa using emptied, removed, replaced, passed.unlisted 3 ?_,
    again (by rw [asked, asked']) fun _ _ => by rw [asked, asked']⟩
  simp [rosters, rosters']

end Session

end RevisionStore
