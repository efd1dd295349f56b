import Mathlib.Data.List.Induction
import RevisionStore.Proofs.Session.Sound
import RevisionStore.Proofs.Store.Window

/-!
# What becomes of rosters

A commit draws up a roster, and a pass gives some up and hands them to the archive of the site.
`Store.Turnover` is the account of one action: nothing is lost and nothing is handed over twice,
whatever the policy answers. If a site has a recording archive to itself (`Session.Records`),
the accounts of a run add up (`Records.run`): the rosters that were ever handed over and those
that are retained are together the rosters that were ever drawn up, one for each revision
(`run_hands_over_once`).
-/

namespace RevisionStore

open Retention (Archive Keeper)

variable {K V : Type}

/-- An action leaves the site at `i` the archive that it has, and leaves it to that site. -/
def Action.LeavesArchive (i : Nat) : Action K V → Prop
  | .setKeeper j _ _ => j ≠ i
  | .shareKeeper j source => j = i ↔ source = i
  | _ => True

namespace Store

/-! ## The account of a store -/

/-- The rosters that are drawn up and given up when `s` becomes `s'`. -/
structure Turnover (s s' : Store K V) (drawn gone : List (Roster K)) : Prop where
  -- what is given up and what is retained is what was retained and what is drawn up
  balance : (gone ++ s'.rosters).Perm (s.rosters ++ drawn)
  ascending : gone.Pairwise fun a b => a.revision < b.revision
  -- one roster is drawn up for each new revision
  numbered : drawn.map (·.revision) = List.range' (s.revision + 1) drawn.length
  revision : s'.revision = s.revision + drawn.length

/-- Two stores that differ in nothing but the register. -/
structure Reregistered (s s' : Store K V) : Prop where
  revision : s'.revision = s.revision
  histories : s'.histories = s.histories
  rosters : s'.rosters = s.rosters

variable {s s' : Store K V}

theorem Turnover.still (revision : s'.revision = s.revision) (rosters : s'.rosters = s.rosters) :
    s.Turnover s' [] [] :=
  ⟨by simp [rosters], .nil, rfl, revision⟩

theorem Turnover.of_reregistered {s'' : Store K V} {drawn gone : List (Roster K)}
    (turnover : s'.Turnover s'' drawn gone) (same : s.Reregistered s') :
    s.Turnover s'' drawn gone where
  balance := same.rosters ▸ turnover.balance
  ascending := turnover.ascending
  numbered := same.revision ▸ turnover.numbered
  revision := same.revision ▸ turnover.revision

variable [DecidableEq K]

/-- A pass that gives up the doomed keeps the others. -/
theorem WellKept.rosters_sweep_doomed (kept : s.WellKept) (expires : Roster K → Bool) :
    (s.sweep (s.doomed expires)).rosters =
      s.rosters.filter fun roster => !(roster.revision ≠ s.revision && expires roster) := by
  refine List.filter_congr fun roster member => congrArg (!·) ?_
  rw [Bool.eq_iff_iff]
  constructor
  · intro among
    obtain ⟨other, gone, same⟩ := List.any_eq_true.1 among
    obtain ⟨found, doomed⟩ := List.mem_filter.1 gone
    -- no two rosters have one revision in common
    have same : other = roster :=
      History.eq_of_pairwise_lt kept.ascending found member (by simpa using same)
    exact same ▸ doomed
  · intro doomed
    exact List.any_eq_true.2 ⟨roster, List.mem_filter.2 ⟨member, doomed⟩, by simp⟩

/-- A pass hands over what it gives up, in ascending order, and keeps the rest. -/
theorem WellKept.expire_turnover (kept : s.WellKept) (keeper : Keeper K V) (now : Nat) :
    ∃ gone, s.Turnover (s.expire keeper now).2.1 [] gone ∧
      (s.expire keeper now).2.2.archive = keeper.archive.receive gone := by
  simp only [expire]
  split
  next run =>
    refine ⟨_, ⟨?_, kept.ascending.filter _, rfl, rfl⟩, rfl⟩
    rw [kept.rosters_sweep_doomed, List.append_nil]
    exact List.filter_append_perm _ _
  next => exact ⟨[], .still rfl rfl, by simp [Archive.receive]⟩

/-- A commit draws up the roster of the new revision and gives up none. -/
theorem WellKept.commit_turnover {reconciler : Reconciler V} {now : Nat} {d : Draft K V}
    (kept : s.WellKept) (committed : s.commit reconciler now d = .ok s') :
    ∃ roster, s'.roster? s'.revision = some roster ∧ s.Turnover s' [roster] [] := by
  obtain ⟨p, _, rfl⟩ := commit_eq_ok_iff.1 committed
  refine ⟨⟨s.revision + 1, now, p.keys⟩, ?_, .refl _, .nil, rfl, rfl⟩
  have behind : s.rosters.find? (fun roster => roster.revision == s.revision + 1) = none := by
    refine List.find?_eq_none.2 fun roster member => ?_
    have bounded := kept.bounded roster member
    simpa using Nat.ne_of_lt (Nat.lt_succ_of_le bounded)
  simp [publish, roster?, List.find?_append, behind]

end Store

namespace Session

/-! ## The account of a session -/

/-- The site at `i` has a recording archive, and no other site has a part in it. -/
structure Records (s : Session K V) (i : Nat) (site : Site K V) (archive : Archive K V) :
    Prop where
  there : s.sites[i]? = some site
  placed : s.archives[site.archive]? = some archive
  recording : archive.role = .recording
  alone : ∀ j other, s.sites[j]? = some other → other.archive = site.archive → j = i

namespace Records

variable {s t : Session K V} {i j : Nat} {site other site' : Site K V} {archive : Archive K V}

/-- The archive that a site has is the one of its keeper. -/
theorem keeperOf (records : s.Records i site archive) : (s.keeperOf site).archive = archive := by
  simp [Session.keeperOf, records.placed]

theorem of_eq (records : s.Records i site archive) (sites : t.sites = s.sites)
    (archives : s.archives <+: t.archives) : t.Records i site archive where
  there := sites ▸ records.there
  placed := by
    obtain ⟨more, archives⟩ := archives
    rw [← archives, List.getElem?_append_left (List.getElem?_eq_some_iff.1 records.placed).1]
    exact records.placed
  recording := records.recording
  alone := sites ▸ records.alone

/-- The site may be replaced by one with its archive. -/
theorem putOwn (records : s.Records i site archive) (same : site'.archive = site.archive) :
    (s.putSite i site').Records i site' archive where
  there := by simp [getElem?_putSite records.there]
  placed := same ▸ records.placed
  recording := records.recording
  alone j found there' shared := by
    rw [getElem?_putSite records.there] at there'
    split at there'
    next here => exact here
    next => exact records.alone j found there' (shared.trans same)

/-- Another site may be replaced by one with another archive. -/
theorem putOther (records : s.Records i site archive) (there : s.sites[j]? = some other)
    (elsewhere : j ≠ i) (apart : site'.archive ≠ site.archive) :
    (s.putSite j site').Records i site archive where
  there := by simp [getElem?_putSite there, Ne.symm elsewhere, records.there]
  placed := records.placed
  recording := records.recording
  alone j' found there' shared := by
    rw [getElem?_putSite there] at there'
    split at there'
    next =>
      obtain rfl := Option.some.inj there'
      exact absurd shared apart
    next => exact records.alone j' found there' shared

/-- The store of any site may be replaced. -/
theorem withStore (records : s.Records i site archive) (there : s.sites[j]? = some other)
    (store : Store K V) :
    (s.putSite j { other with store := store }).Records i
      (if j = i then { other with store := store } else site) archive := by
  split
  next here =>
    subst here
    obtain rfl := Option.some.inj (there.symm.trans records.there)
    exact records.putOwn rfl
  next elsewhere =>
    exact records.putOther there elsewhere fun same => elsewhere (records.alone j other there same)

/-- The archive may be replaced by a recording one. -/
theorem putKeeper (records : s.Records i site archive) {keeper : Keeper K V}
    (same : other.archive = site.archive) (recording : keeper.archive.role = .recording) :
    (s.putKeeper other keeper).Records i site keeper.archive where
  there := records.there
  placed := by
    have bound := (List.getElem?_eq_some_iff.1 records.placed).1
    simp [Session.putKeeper, same, List.getElem?_set_self bound]
  recording := recording
  alone := records.alone

/-- Any other archive may be replaced. -/
theorem putKeeper_other (records : s.Records i site archive) (keeper : Keeper K V)
    (apart : other.archive ≠ site.archive) :
    (s.putKeeper other keeper).Records i site archive where
  there := records.there
  placed := by
    simpa [Session.putKeeper, List.getElem?_set_ne apart] using records.placed
  recording := records.recording
  alone := records.alone

end Records

/-- The roster that an action draws up: the one that is current when it has made a commit to
the site at `i`. -/
def drawn? [DecidableEq K] (s : Session K V) (i : Nat) (action : Action K V) :
    Option (Roster K) :=
  match s.committed? i action, (s.perform action).2.sites[i]? with
  | some _, some site => site.store.roster? site.store.revision
  | _, _ => none

/-- What becomes of the rosters of a site on the way to `t`: those that it gives up come to its
archive, from which `drained` are drained, and `drawn` are drawn up. -/
def Settles (t : Session K V) (i : Nat) (site : Site K V) (archive : Archive K V)
    (drained drawn : List (Roster K)) : Prop :=
  ∃ site' archive' gone, t.Records i site' archive' ∧
    drained ++ archive'.received = archive.received ++ gone ∧
    site.store.Turnover site'.store drawn gone

theorem Settles.of_reregistered {t : Session K V} {i : Nat} {site site' : Site K V}
    {archive : Archive K V} {drained drawn : List (Roster K)}
    (settles : t.Settles i site' archive drained drawn)
    (same : site.store.Reregistered site'.store) : t.Settles i site archive drained drawn := by
  obtain ⟨site'', archive', gone, records, received, turnover⟩ := settles
  exact ⟨site'', archive', gone, records, received, turnover.of_reregistered same⟩

namespace Records

variable {s t : Session K V} {i j : Nat} {site other site' : Site K V} {archive : Archive K V}
  {name : String} {lent : Lent (WorkingCopy K V)} {action : Action K V}

theorem settles (records : t.Records i site' archive)
    (revision : site'.store.revision = site.store.revision)
    (rosters : site'.store.rosters = site.store.rosters) : t.Settles i site archive [] [] :=
  ⟨site', archive, [], records, by simp, .still revision rosters⟩

/-- A site may be replaced by one with its store, if the site at `i` then keeps its archive to
itself. -/
theorem refit (records : s.Records i site archive) (there : s.sites[j]? = some other)
    (sites : t.sites = (s.putSite j site').sites) (archives : s.archives <+: t.archives)
    (store : site'.store = other.store)
    (apart : (j = i → site'.archive = site.archive) ∧ (j ≠ i → site'.archive ≠ site.archive)) :
    t.Settles i site archive [] [] := by
  by_cases here : j = i
  · subst here
    obtain rfl := Option.some.inj (there.symm.trans records.there)
    have refit := (records.putOwn (apart.1 rfl)).of_eq sites archives
    exact refit.settles (by rw [store]) (by rw [store])
  · exact ((records.putOther there here (apart.2 here)).of_eq sites archives).settles rfl rfl

/-- What the site at `i` makes of a store that replaces the one of any site. -/
theorem settles_withStore (records : s.Records i site archive)
    (there : s.sites[j]? = some other) {store : Store K V} {drawn : List (Roster K)}
    (sites : t.sites = (s.putSite j { other with store := store }).sites)
    (archives : t.archives = s.archives) (here : j = i → other.store.Turnover store drawn [])
    (elsewhere : j ≠ i → drawn = []) : t.Settles i site archive [] drawn := by
  have stored : t.Records i _ archive :=
    (records.withStore there store).of_eq sites ⟨[], by simp [archives, Session.putSite]⟩
  split at stored
  next same =>
    have turnover := here same
    subst same
    obtain rfl := Option.some.inj (there.symm.trans records.there)
    exact ⟨_, archive, [], stored, by simp, turnover⟩
  next other => exact elsewhere other ▸ stored.settles rfl rfl

/-- Letting go of a copy changes no roster. -/
theorem without (records : s.Records i site archive) (name : String)
    (lent : Lent (WorkingCopy K V)) : ∃ site', (s.without name lent).Records i site' archive ∧
      site.store.Reregistered site'.store := by
  have erased : { s with copies := s.copies.erase name }.Records i site archive :=
    records.of_eq rfl (List.prefix_refl _)
  obtain ⟨home, usable, left⟩ | ⟨_, left⟩ := s.without_eq_or name lent
  · have there := (usable_eq_ok_iff.1 usable).1
    rw [left]
    refine ⟨_, erased.withStore there (home.store.release lent.item.id), ?_⟩
    split
    next here =>
      obtain rfl := Option.some.inj ((here ▸ there).symm.trans records.there)
      exact ⟨rfl, rfl, rfl⟩
    next => exact ⟨rfl, rfl, rfl⟩
  · rw [left]
    exact ⟨site, erased, rfl, rfl, rfl⟩

variable [DecidableEq K]

/-- A site under new collaborators keeps its archive, or keeps to another one. -/
theorem refitted (records : s.Records i site archive) (leaves : action.LeavesArchive i)
    (there : s.sites[j]? = some other) (refitted : s.Refitted action j other site') :
    (j = i → site'.archive = site.archive) ∧ (j ≠ i → site'.archive ≠ site.archive) := by
  have placed := (List.getElem?_eq_some_iff.1 records.placed).1
  obtain same | ⟨policy, new, rfl, added⟩ | ⟨source, giver, rfl, giving, given⟩ := refitted.archive
  · refine ⟨?_, fun elsewhere shared => elsewhere ?_⟩
    · rintro rfl
      obtain rfl := Option.some.inj (there.symm.trans records.there)
      exact same
    · exact records.alone j other there (same.symm.trans shared)
  · refine ⟨fun here => absurd here leaves, fun _ => ?_⟩
    rw [added]
    exact Nat.ne_of_gt placed
  · refine ⟨fun here => ?_, fun elsewhere shared => ?_⟩
    · obtain rfl := leaves.1 here
      obtain rfl := Option.some.inj (giving.symm.trans records.there)
      exact given
    · exact elsewhere (leaves.2 (records.alone source giver giving (given.symm.trans shared)))

/-- A pass of any site hands over what the site at `i` gives up. -/
theorem expire (records : s.Records i site archive) (kept : site.store.WellKept) (j : Nat) :
    (s.expire j).2.Settles i site archive [] [] := by
  obtain ⟨other, usable, passed⟩ | same := s.expire_eq_or j
  · have there := (usable_eq_ok_iff.1 usable).1
    have stored := records.withStore there (other.store.expire (s.keeperOf other) s.clock).2.1
    rw [passed]
    split at stored
    next here =>
      subst here
      obtain rfl := Option.some.inj (there.symm.trans records.there)
      obtain ⟨gone, turnover, handed⟩ := kept.expire_turnover (s.keeperOf other) s.clock
      rw [records.keeperOf] at handed
      have recording : (archive.receive gone).role = .recording := records.recording
      refine ⟨_, _, gone, stored.putKeeper rfl (handed ▸ recording), ?_, turnover⟩
      simp [handed, Archive.receive]
    next elsewhere =>
      have apart : other.archive ≠ site.archive :=
        fun same => elsewhere (records.alone j other there same)
      exact (stored.putKeeper_other _ apart).settles rfl rfl
  · rw [same]
    exact records.settles rfl rfl

/-- An action that draws up and drains nothing. -/
theorem settles_silent (settles : t.Settles i site archive [] [])
    (undrained : s.drained i action = []) (undrawn : s.drawn? i action = none) :
    t.Settles i site archive (s.drained i action) (s.drawn? i action).toList := by
  rwa [undrained, undrawn]

theorem drawn?_of_uncommitted (uncommitted : s.committed? i action = none) :
    s.drawn? i action = none := by
  simp [drawn?, uncommitted]

/-- The account of an action that leaves the site its archive. -/
theorem perform (records : s.Records i site archive) (kept : site.store.WellKept)
    (leaves : action.LeavesArchive i) :
    (s.perform action).2.Settles i site archive (s.drained i action)
      (s.drawn? i action).toList := by
  have silent {t : Session K V} (calm : s.Uneventful action)
      (settles : t.Settles i site archive [] []) :
      t.Settles i site archive (s.drained i action) (s.drawn? i action).toList :=
    settles_silent settles (calm.undrained i) (drawn?_of_uncommitted (calm.uncommitted i))
  have effect := s.perform_effect action
  generalize after : (s.perform action).2 = t at effect ⊢
  cases effect with
  | aside calm sites archives copies =>
    exact silent calm ((records.of_eq sites ⟨[], by simp [archives]⟩).settles rfl rfl)
  | redrafted calm opened asks sites archives copies =>
    exact silent calm ((records.of_eq sites ⟨[], by simp [archives]⟩).settles rfl rfl)
  | @refitted _ _ j other other' calm there refitted sites archives copies =>
    exact silent calm (records.refit there sites archives refitted.store
      (records.refitted leaves there refitted))
  | reconciled there =>
    refine silent {} (records.refit there rfl (List.prefix_refl _) rfl ⟨?_, ?_⟩)
    · rintro rfl
      exact congrArg (·.archive) (Option.some.inj (there.symm.trans records.there))
    · exact fun elsewhere shared => elsewhere (records.alone _ _ there shared)
  | opened there free made announced =>
    obtain ⟨_, rfl, rfl⟩ := Store.checkout_eq_ok_iff.1 made
    refine settles_silent ?_ rfl rfl
    exact records.settles_withStore there rfl rfl (fun _ => .still rfl rfl) fun _ => rfl
  | @committed name target lent other store opened there succeeded logged =>
    refine records.settles_withStore there rfl rfl (fun here => ?_) fun elsewhere => ?_
    · subst here
      obtain rfl := Option.some.inj (there.symm.trans records.there)
      obtain ⟨roster, current, turnover⟩ := kept.commit_turnover succeeded
      have drawn : s.drawn? lent.home (.commit name target) = some roster := by
        simp [drawn?, after, logged, getElem?_putSite there, current]
      rwa [drawn]
    · rw [drawn?_of_uncommitted (by rw [logged, if_neg elsewhere]), Option.toList_none]
  | left calm opened =>
    obtain ⟨site', records', same⟩ := records.without _ _
    exact silent calm (records'.settles same.revision same.rosters)
  | closed calm opened =>
    obtain ⟨site', records', same⟩ := records.without _ _
    have kept' := kept.of_register same.revision same.histories same.rosters
    exact silent calm ((records'.expire kept' _).of_reregistered same)
  | passed j =>
    exact settles_silent (records.expire kept j) rfl rfl
  | @drained j other there recording =>
    have undrawn : s.drawn? i (.drainArchive j) = none := rfl
    rw [undrawn]
    by_cases here : j = i
    · subst here
      obtain rfl := Option.some.inj (there.symm.trans records.there)
      rw [records.keeperOf] at recording ⊢
      have drained : s.drained j (.drainArchive j) = archive.received := by
        simp [drained, drainArchive, site_eq_ok_iff.2 there, records.keeperOf, recording,
          Archive.drain, Except.toOption]
      rw [drained]
      exact ⟨other, _, [], records.putKeeper rfl recording, rfl, .still rfl rfl⟩
    · have elsewhere : s.drained i (.drainArchive j) = [] := if_neg here
      have apart : other.archive ≠ site.archive :=
        fun same => here (records.alone j other there same)
      rw [elsewhere]
      exact (records.putKeeper_other _ apart).settles rfl rfl

end Records

/-! ## Runs -/

variable [DecidableEq K] {i : Nat}

/-- The rosters that a run draws up at the site at `i`, one with each commit. -/
def drawn (i : Nat) : Session K V → List (Action K V) → List (Roster K) :=
  gather fun s action => (s.drawn? i action).toList

/-- The rosters that the archive of the site at `i` was ever handed in a run: those that were
drained from it, and those that it holds in the end. -/
def handed (i : Nat) (s : Session K V) (actions : List (Action K V)) : List (Roster K) :=
  gather (fun s action => s.drained i action) s actions ++
    ((s.run actions).archive i).toOption.elim [] (·.received)

theorem Records.handed {s : Session K V} {site : Site K V} {archive : Archive K V}
    {actions : List (Action K V)} (records : (s.run actions).Records i site archive) :
    handed i s actions =
      gather (fun s action => s.drained i action) s actions ++ archive.received := by
  simp [Session.handed, Session.archive, site_eq_ok_iff.2 records.there, records.keeperOf,
    Except.map, Except.toOption]

/-- With one more action the archive is handed what the action gives up. -/
theorem Records.concat {s : Session K V} {site : Site K V} {archive : Archive K V}
    {actions : List (Action K V)} {action : Action K V}
    (records : (s.run actions).Records i site archive) (kept : site.store.WellKept)
    (leaves : action.LeavesArchive i) :
    ∃ site' archive' gone, (s.run (actions ++ [action])).Records i site' archive' ∧
      Session.handed i s (actions ++ [action]) = Session.handed i s actions ++ gone ∧
      site.store.Turnover site'.store ((s.run actions).drawn? i action).toList gone := by
  obtain ⟨site', archive', gone, records', received, turnover⟩ := records.perform kept leaves
  rw [← run_concat] at records'
  refine ⟨site', archive', gone, records', ?_, turnover⟩
  rw [records.handed, records'.handed, gather_concat, List.append_assoc, received,
    List.append_assoc]

omit [DecidableEq K] in
theorem Records.start {specs : List (SiteSpec K V)} {spec : SiteSpec K V} (clock : Nat)
    (specified : specs[i]? = some spec) (recording : spec.archive.role = .recording) :
    (Session.start specs clock).Records i
      ⟨.fresh spec.lookup clock, spec.reconciler, i, i, false⟩ spec.archive where
  there := by simp [Session.start, specified]
  placed := by simp [Session.start, specified]
  recording := recording
  alone j other there shared := by
    simp only [Session.start, List.getElem?_map, Option.map_eq_some_iff] at there
    obtain ⟨⟨spec', j'⟩, place, rfl⟩ := there
    simp only [List.getElem?_zipIdx, Option.map_eq_some_iff] at place
    obtain ⟨_, _, place⟩ := place
    simp at place shared
    omega

/-- The rosters that a site has in a run of a fresh session are drawn up in order of revision,
and each of them is retained or handed over. -/
theorem records_run {specs : List (SiteSpec K V)} {spec : SiteSpec K V} (clock : Nat)
    {actions : List (Action K V)} (specified : specs[i]? = some spec)
    (recording : spec.archive = .recording)
    (leaves : ∀ action ∈ actions, action.LeavesArchive i) :
    ∃ site archive, ((start specs clock).run actions).Records i site archive ∧
      (handed i (start specs clock) actions ++ site.store.rosters).Perm
        (⟨0, clock, []⟩ :: drawn i (start specs clock) actions) ∧
      (⟨0, clock, []⟩ :: drawn i (start specs clock) actions).map (·.revision) =
        List.range (site.store.revision + 1) := by
  induction actions using List.reverseRecOn with
  | nil =>
    have records : ((start specs clock).run []).Records i _ spec.archive :=
      .start clock specified (by rw [recording]; rfl)
    refine ⟨_, _, records, ?_, rfl⟩
    rw [records.handed, recording]
    exact .refl _
  | append_singleton before action ih =>
    obtain ⟨earlier, last⟩ := List.forall_mem_append.1 leaves
    obtain ⟨site, archive, records, balance, numbered⟩ := ih earlier
    have kept := ((sound_run specs clock before).stores i site records.there).kept
    obtain ⟨site', archive', gone, records', handed', turnover⟩ :=
      records.concat kept (last action List.mem_cons_self)
    refine ⟨site', archive', records', ?_, ?_⟩
    · rw [handed', drawn, gather_concat, ← List.cons_append, List.append_assoc]
      refine (turnover.balance.append_left _).trans ?_
      rw [← List.append_assoc]
      exact balance.append_right _
    · rw [drawn, gather_concat, ← List.cons_append, List.map_append, ← drawn, numbered,
        turnover.numbered, turnover.revision, List.range_eq_range', List.range_eq_range',
        Nat.add_right_comm]
      have joined := List.range'_append_1 (s := 0) (m := site.store.revision + 1)
        (n := ((start specs clock).run before |>.drawn? i action).toList.length)
      rwa [Nat.zero_add] at joined

/-- After a run of a fresh session whose site at `i` has had the same recording archive to itself
throughout: the revisions that are retained and those of the rosters that the archive was ever
handed, drained since or not, are together all up to the current one, each once. They are the
very rosters that were current when their commits had succeeded. The current one was not handed
over; and what an action hands over comes in ascending order. Policies may answer what they
like. -/
theorem run_hands_over_once (specs : List (SiteSpec K V)) (clock : Nat)
    (actions : List (Action K V)) {spec : SiteSpec K V} (specified : specs[i]? = some spec)
    (recording : spec.archive = .recording)
    (leaves : ∀ action ∈ actions, action.LeavesArchive i) :
    let handed := handed i (start specs clock)
    ∃ site, ((start specs clock).run actions).sites[i]? = some site ∧
      ((handed actions).map (·.revision) ++ site.store.retained).Perm
        (List.range (site.store.revision + 1)) ∧
      (handed actions ++ site.store.rosters).Perm
        (⟨0, clock, []⟩ :: drawn i (start specs clock) actions) ∧
      (∀ roster ∈ handed actions, roster.revision ≠ site.store.revision) ∧
      ∀ before action after, actions = before ++ action :: after →
        ∃ gone, handed (before ++ [action]) = handed before ++ gone ∧
          gone.Pairwise fun a b => a.revision < b.revision := by
  intro handed
  obtain ⟨site, archive, records, balance, numbered⟩ :=
    records_run clock specified recording leaves
  have kept := ((sound_run specs clock actions).stores i site records.there).kept
  have revisions : ((handed actions).map (·.revision) ++ site.store.retained).Perm
      (List.range (site.store.revision + 1)) := by
    rw [← numbered, Store.retained, ← List.map_append]
    exact balance.map _
  refine ⟨site, records.there, revisions, balance, fun roster gone current => ?_,
    fun before action after split => ?_⟩
  · -- the current roster is retained, and no revision is there twice
    have distinct := revisions.nodup_iff.2 List.nodup_range
    have twice := List.mem_map_of_mem (f := (·.revision)) gone
    exact (List.nodup_append.1 distinct).2.2 _ twice _ kept.revision_mem_retained current
  · subst split
    obtain ⟨earlier, later⟩ := List.forall_mem_append.1 leaves
    obtain ⟨site', archive', records', _⟩ :=
      records_run clock specified recording earlier
    have kept' := ((sound_run specs clock before).stores i site' records'.there).kept
    obtain ⟨_, _, gone, _, handed', turnover⟩ :=
      records'.concat kept' (later action List.mem_cons_self)
    exact ⟨gone, handed', turnover.ascending⟩

/-- Revision 0 is given up under the standard policy, and drained; revision 1 is given up under
one that says yes to everything. Another site gets an archive of its own. -/
def emptiedActions : List (Action Nat Nat) :=
  [.checkout 0 "a", .add "a" 1 5, .commit "a" none, .close "a" none, .drainArchive 0,
    .setPolicy 0 (.crowd 5), .setKeeper 1 .never .recording,
    .checkout 0 "b", .remove "b" 1, .commit "b" none, .expire 0]

def emptiedSpecs : List (SiteSpec Nat Nat) :=
  ⟨.plain, .latestPrior, Retention.Plan.standard.policy, .recording⟩ ::
    trialSpecs .latestPrior

/-- All that is left is the current revision. -/
theorem run_hands_over_once_emptied :
    handed 0 (start emptiedSpecs 0) emptiedActions = [⟨0, 0, []⟩, ⟨1, 0, [1]⟩] ∧
      ∃ site, ((start emptiedSpecs 0).run emptiedActions).sites[0]? = some site ∧
        ([0, 1] ++ site.store.retained).Perm [0, 1, 2] := by
  have leaves : ∀ action ∈ emptiedActions, action.LeavesArchive 0 := by
    simp [emptiedActions, Action.LeavesArchive]
  have gone : handed 0 (start emptiedSpecs 0) emptiedActions = [⟨0, 0, []⟩, ⟨1, 0, [1]⟩] := by
    decide
  obtain ⟨site, there, revisions, _⟩ :=
    run_hands_over_once emptiedSpecs 0 emptiedActions rfl rfl leaves
  have current : ((start emptiedSpecs 0).run emptiedActions).sites[0]?.map (·.store.revision) =
      some 2 := by decide
  simp only [there, Option.map_some, Option.some.injEq] at current
  rw [gone, current] at revisions
  exact ⟨gone, site, there, revisions⟩

end Session

end RevisionStore
