import RevisionStore.Proofs.Session.Drafts
import RevisionStore.Proofs.Session.Reads
import RevisionStore.Proofs.Session.Register
import RevisionStore.Proofs.Session.Upkeep

/-!
# What open copies hold back

A copy is checked out of the current roster and keeps it as its base. As long as the site of the
copy retains a roster of that revision, it is this one (`Session.Based`).

Under sparing policies the base of an open copy is always retained, and what is retained is an
interval that ends in the current revision (`Store.Windowed`). After a pass it does not begin
earlier than it has to (`Store.Trimmed`): it begins with the base of the oldest copy that is
open, or with the current revision if there is none (`run_retains_window`).
-/

namespace RevisionStore

variable {K V : Type} [DecidableEq K]

namespace Store

variable {s s' : Store K V} {roster : Roster K}

/-! ## Rosters in the course of a store -/

/-- A step draws up no roster of an earlier revision. -/
theorem Step.mem_rosters (step : Step s s') (member : roster ∈ s'.rosters)
    (earlier : roster.revision ≤ s.revision) : roster ∈ s.rosters := by
  cases step with
  | opened made =>
    obtain ⟨_, _, rfl⟩ := checkout_eq_ok_iff.1 made
    exact member
  | released id => exact member
  | swept expires => exact (mem_rosters_sweep.1 member).1
  | committed staged succeeded =>
    obtain ⟨p, _, rfl⟩ := commit_eq_ok_iff.1 succeeded
    obtain old | new := List.mem_append.1 member
    · exact old
    · rw [List.mem_singleton.1 new] at earlier
      exact absurd earlier (Nat.not_succ_le_self _)

theorem Course.mem_rosters (course : Course s s') (member : roster ∈ s'.rosters)
    (earlier : roster.revision ≤ s.revision) : roster ∈ s.rosters := by
  induction course with
  | refl => exact member
  | tail course step ih =>
    exact ih (step.mem_rosters member (Nat.le_trans earlier (Course.grows course).1))

omit [DecidableEq K] in
theorem keysAt_of_roster? {r : Revision} (within : r ≤ s.revision)
    (found : s.roster? r = some roster) : s.keysAt r = .ok roster.keys := by
  have within : s.checkRange r = .ok () := if_neg (Nat.not_lt_of_le within)
  simp [keysAt, rosterAt, within, found, Except.map]

/-! ## Windows -/

/-- What is retained is not older than it has to be. -/
def Trimmed (s : Store K V) : Prop :=
  ∀ r ∈ s.retained, r = s.revision ∨ ∃ registration ∈ s.active, registration.revision ≤ r

/-- A pass that runs under a sparing policy trims what is retained. -/
theorem trimmed_expire {keeper : Retention.Keeper K V} (sparing : keeper.warden.policy.Sparing)
    (runs : (keeper.warden.ask s.view).1 = true) (now : Nat) :
    (s.expire keeper now).2.1.Trimmed := by
  rw [expire_store_eq, if_pos runs, expires_of_sparing sparing runs]
  exact fun r left => (mem_retained_sweep_unused.1 left).2

theorem windowed_invariant :
    Invariant Retention.Policy.Sparing fun (s : Store K V) _ => s.Windowed where
  upkeep sparing _ _ step windowed := windowed.upkeep sparing step
  extended _ _ _ extended windowed := windowed.extended extended

/-- A window is an interval that ends in the current revision. -/
theorem Windowed.exists_oldest (windowed : s.Windowed) (kept : s.WellKept) :
    ∃ oldest ∈ s.retained, ∀ r, r ∈ s.retained ↔ oldest ≤ r ∧ r ≤ s.revision := by
  cases least : s.retained.min? with
  | none =>
    have current := kept.revision_mem_retained
    rw [List.min?_eq_none_iff.1 least] at current
    cases current
  | some oldest =>
    obtain ⟨member, lowest⟩ := List.min?_eq_some_iff.1 least
    refine ⟨oldest, member, fun r => ⟨fun retained => ⟨lowest r retained, ?_⟩, ?_⟩⟩
    · obtain ⟨roster, there, rfl⟩ := List.mem_map.1 retained
      exact kept.bounded roster there
    · rintro ⟨le, bounded⟩
      exact windowed.contiguous oldest member r le bounded

omit [DecidableEq K] in
/-- If nothing is retained for nothing, what is retained begins with the base of an open copy,
or with the current revision if no copy is open. -/
theorem Windowed.oldest_of_trimmed {oldest : Revision} (windowed : s.Windowed)
    (trimmed : s.Trimmed) (member : oldest ∈ s.retained)
    (interval : ∀ r, r ∈ s.retained ↔ oldest ≤ r ∧ r ≤ s.revision) :
    (∃ registration ∈ s.active, registration.revision = oldest) ∨
      s.active = [] ∧ oldest = s.revision := by
  have within (registration : Registration) (registered : registration ∈ s.active) :
      oldest ≤ registration.revision ∧ registration.revision ≤ s.revision :=
    (interval _).1 (windowed.based registration registered)
  obtain current | ⟨registration, registered, le⟩ := trimmed oldest member
  · cases active : s.active with
    | nil => exact .inr ⟨rfl, current⟩
    | cons registration rest =>
      have registered : registration ∈ s.active := active ▸ List.mem_cons_self
      have between := within registration registered
      exact .inl ⟨registration, List.mem_cons_self,
        Nat.le_antisymm (current ▸ between.2) between.1⟩
  · exact .inl ⟨registration, registered, Nat.le_antisymm le (within _ registered).1⟩

end Store

namespace Session

variable {s t : Session K V} {logs : Nat → List (Commit K V)} {i : Nat} {action : Action K V}
  {name : String} {lent lent' : Lent (WorkingCopy K V)}

/-! ## Bases -/

/-- What a site retains of the revision of an open copy is the base of the copy. -/
def Based (s : Session K V) : Prop :=
  ∀ name lent site, s.copies.get? name = some lent → s.sites[lent.home]? = some site →
    ∀ roster ∈ site.store.rosters, roster.revision = lent.item.draft.revision →
      roster = lent.item.draft.base

omit [DecidableEq K] in
theorem Based.start (specs : List (SiteSpec K V)) (clock : Nat) : (start specs clock).Based :=
  fun _ _ _ opened => nomatch opened

theorem Based.perform (based : s.Based) (sound : s.Sound logs) (action : Action K V) :
    (s.perform action).2.Based := by
  intro name lent' site' opened' there' roster' member' same
  have sound' := sound.perform action
  obtain ⟨lent, opened, under⟩ | ⟨_, found, there, current⟩ :=
    (s.perform_effect action).copies opened'
  · have continues := under.continues
    -- a roster of an earlier revision was there before
    obtain ⟨site, there, registered⟩ := sound.copies name lent opened
    obtain ⟨found, there'', course, _⟩ := (sound.follows_perform action).sites _ site there
    rw [continues.home, there''] at there'
    obtain rfl := Option.some.inj there'
    have base := continues.evolves.base
    have earlier := (sound.stores _ site there).tracks.watched_le _ registered.watched
    rw [Draft.revision, base] at same
    rw [base]
    refine based name lent site opened there roster' ?_ same
    exact course.mem_rosters member' (same ▸ earlier)
  · obtain rfl := Option.some.inj (there.symm.trans there')
    have ascending := (sound'.stores _ found there').kept.ascending
    exact History.eq_of_pairwise_lt ascending member' (Store.mem_of_roster? current).1 same

theorem Based.run (based : s.Based) (sound : s.Sound logs) (actions : List (Action K V)) :
    (s.run actions).Based := by
  induction actions generalizing s logs with
  | nil => exact based
  | cons action rest ih => exact ih (based.perform sound action) (sound.perform action)

/-! ## Passes -/

/-- The site at `i` runs a pass if it is asked to. -/
def Willing (s : Session K V) (i : Nat) : Prop :=
  ∃ site, s.usable i = .ok site ∧ ((s.keeperOf site).warden.ask site.store.view).1 = true

/-- An action makes a site run a pass. -/
inductive Passes (s : Session K V) : Nat → Action K V → Prop
  | expire {i : Nat} (willing : s.Willing i) : Passes s i (.expire i)
  | close {name : String} {target : Option Nat} {lent : Lent (WorkingCopy K V)}
      (opened : s.copies.get? name = some lent) (own : target.getD lent.home = lent.home)
      (willing : (s.without name lent).Willing lent.home) :
      Passes s lent.home (.close name target)

/-- A close through the site of the copy lets go of the copy and asks the site for a pass. -/
theorem close_own {target : Option Nat} {site : Site K V}
    (opened : s.copies.get? name = some lent) (own : target.getD lent.home = lent.home)
    (there : s.sites[lent.home]? = some site) :
    (s.close name target).2 = ((s.without name lent).expire lent.home).2 := by
  simp only [Session.close, named_eq_ok_iff.2 opened, own, site_eq_ok_iff.2 there, without,
    ne_eq, not_true_eq_false, if_false]
  split
  next failed => rw [failed]
  next answered => rw [answered]

omit [DecidableEq K] in
/-- Letting go of a copy makes no site. -/
theorem exists_of_without {site' : Site K V}
    (there' : (s.without name lent).sites[i]? = some site') : ∃ site, s.sites[i]? = some site := by
  have bound := (List.getElem?_eq_some_iff.1 there').1
  have length : (s.without name lent).sites.length = s.sites.length := by
    obtain ⟨home, _, left⟩ | ⟨_, left⟩ := s.without_eq_or name lent
    · simp [left, Session.putSite]
    · rw [left]
  exact ⟨_, List.getElem?_eq_getElem (length ▸ bound)⟩

/-- Letting go of a copy leaves the policies of the sites alone. -/
theorem policy_without {site site' : Site K V} (there : s.sites[i]? = some site)
    (there' : (s.without name lent).sites[i]? = some site') :
    ((s.without name lent).keeperOf site').warden.policy = (s.keeperOf site).warden.policy :=
  congrArg (·.warden.policy) ((s.tends_without name lent).2.keepers i site site' there there')

theorem Willing.trimmed (willing : s.Willing i)
    (sparing : ∀ site, s.sites[i]? = some site → (s.keeperOf site).warden.policy.Sparing) :
    ∃ site, (s.expire i).2.sites[i]? = some site ∧ site.poisoned = false ∧ site.store.Trimmed := by
  obtain ⟨site, usable, runs⟩ := willing
  obtain ⟨there, sane⟩ := usable_eq_ok_iff.1 usable
  have trimmed := Store.trimmed_expire (sparing site there) runs s.clock
  refine ⟨{ site with store := (site.store.expire (s.keeperOf site) s.clock).2.1 }, ?_, sane,
    trimmed⟩
  simp only [Session.expire, usable, Session.putKeeper]
  rw [getElem?_putSite there, if_pos rfl]

/-- An action that makes a site run a pass under a sparing policy leaves its store trimmed. -/
theorem Passes.trimmed (passes : s.Passes i action)
    (sparing : ∀ site, s.sites[i]? = some site → (s.keeperOf site).warden.policy.Sparing) :
    ∃ site, (s.perform action).2.sites[i]? = some site ∧ site.poisoned = false ∧
      site.store.Trimmed := by
  cases passes with
  | expire willing => exact willing.trimmed sparing
  | @close name target lent opened own willing =>
    obtain ⟨site, there⟩ : ∃ site, s.sites[lent.home]? = some site := by
      obtain ⟨site', usable, _⟩ := willing
      exact exists_of_without (usable_eq_ok_iff.1 usable).1
    have closed : (s.perform (.close name target)).2 =
        ((s.without name lent).expire lent.home).2 := close_own opened own there
    rw [closed]
    exact willing.trimmed fun site' there' => policy_without there there' ▸ sparing site there

theorem Under.last {P : Retention.Policy K → Prop} {before : List (Action K V)} {site : Site K V}
    (under : Under P i s (before ++ [action])) (there : (s.run before).sites[i]? = some site) :
    P ((s.run before).keeperOf site).warden.policy := by
  induction before generalizing s with
  | nil => exact under.1 site there
  | cons first rest ih => exact ih under.2 there

/-- After a run of a fresh session in which the site at `i` was only ever under sparing policies:
the revisions that are retained are those from some revision on, up to the current one. Every
open copy of the site has its base among them, and the site answers with its keys. If the last
action made the site run a pass, the oldest one is the oldest base of an open copy of the site,
or the current one if no copy is open. -/
theorem run_retains_window (specs : List (SiteSpec K V)) (clock : Nat)
    (actions : List (Action K V)) {spec : SiteSpec K V} (specified : specs[i]? = some spec)
    (sparing : Under Retention.Policy.Sparing i (start specs clock) actions) :
    let s := (start specs clock).run actions
    ∃ site oldest, s.sites[i]? = some site ∧
      (∀ r, r ∈ site.store.retained ↔ oldest ≤ r ∧ r ≤ site.store.revision) ∧
      (∀ name lent, s.copies.get? name = some lent → lent.home = i →
        lent.item.draft.revision ∈ site.store.retained ∧
        site.store.keysAt lent.item.draft.revision = .ok lent.item.draft.base.keys ∧
        (site.poisoned = false → (s.perform (.keysAt i lent.item.draft.revision)).1 =
          .ok (.keys lent.item.draft.base.keys))) ∧
      ∀ before action, actions = before ++ [action] →
        ((start specs clock).run before).Passes i action →
          (∃ name lent, s.copies.get? name = some lent ∧ lent.home = i ∧
            lent.item.draft.revision = oldest) ∨
          (∀ name lent, s.copies.get? name = some lent → lent.home ≠ i) ∧
            oldest = site.store.revision := by
  intro s
  obtain ⟨site, there, windowed⟩ :=
    sparing.holds_of_fresh Store.windowed_invariant specified (.fresh spec.lookup clock)
  have sound : s.Sound _ := sound_run specs clock actions
  have kept := (sound.stores i site there).kept
  have based : s.Based := (Based.start specs clock).run (.start specs clock) actions
  have registers : s.Registers i _ := (Registers.start specs clock).run actions
  obtain ⟨oldest, member, interval⟩ := windowed.exists_oldest kept
  refine ⟨site, oldest, there, interval, fun name lent opened home => ?_,
    fun before action split passes => ?_⟩
  · subst home
    have retained := windowed.based _ (sound.registered opened there).registered
    obtain ⟨roster, filed, same⟩ := List.mem_map.1 retained
    obtain rfl := based name lent site opened there roster filed same
    have found := Store.roster?_of_mem kept.ascending filed
    have within := kept.bounded _ filed
    exact ⟨retained, Store.keysAt_of_roster? within found, fun sane =>
      perform_keysAt (usable_eq_ok_iff.2 ⟨there, sane⟩) within found⟩
  · subst split
    obtain ⟨found, there', sane, trimmed⟩ :=
      passes.trimmed fun site' there' => sparing.last there'
    rw [← run_concat] at there'
    obtain rfl := Option.some.inj (there.symm.trans there')
    obtain ⟨registration, registered, oldest⟩ | ⟨none, oldest⟩ :=
      windowed.oldest_of_trimmed trimmed member interval
    · obtain ⟨name, lent, opened, home, same⟩ :=
        (registers site there).opened sane registration registered
      exact .inl ⟨name, lent, opened, home, by rw [← oldest, ← same]; rfl⟩
    · refine .inr ⟨?_, oldest⟩
      rintro name lent opened rfl
      have registered := (sound.registered opened there).registered
      rw [none] at registered
      cases registered

/-- Copies of three revisions, of which the first is closed. -/
def heldActions : List (Action Nat Nat) :=
  [.checkout 0 "a", .add "a" 1 5, .commit "a" none, .checkout 0 "b", .add "b" 2 6,
    .commit "b" none, .checkout 0 "c"]

def held : Session Nat Nat :=
  (start (trialSpecs .earliestPrior) 0).run heldActions

theorem under_held : Under Retention.Policy.Sparing 0 (start (trialSpecs .earliestPrior) 0)
    (heldActions ++ [.close "a" none]) := by
  refine under_of_installs 0 0 (.noLongerUsed 1) (fun spec member => ?_)
    fun action member policy installs => ?_
  · obtain rfl := List.mem_singleton.1 member
    exact .noLongerUsed 1
  · cases installs <;> simp [heldActions] at member

theorem passes_held : held.Passes 0 (.close "a" none) := by
  have opened : held.copies.get? "a" = some ((held.copies.get? "a").get (by decide)) := by simp
  have passes : held.Passes _ (.close "a" none) := .close opened rfl ⟨_, rfl, by decide⟩
  exact passes

/-- What is retained begins with the base of the next copy, at which the site can be read. -/
theorem run_retains_window_held :
    Under Retention.Policy.Sparing 0 (start (trialSpecs .earliestPrior) 0)
        (heldActions ++ [.close "a" none]) ∧
      held.Passes 0 (.close "a" none) ∧
      ∃ site, (held.perform (.close "a" none)).2.sites[0]? = some site ∧
        site.store.retained = [1, 2] ∧ site.store.keysAt 1 = .ok [1] ∧
        ∃ name lent, (held.perform (.close "a" none)).2.copies.get? name = some lent ∧
          lent.item.draft.revision = 1 := by
  refine ⟨under_held, passes_held, ?_⟩
  obtain ⟨site, oldest, there, interval, bases, trimmed⟩ := run_retains_window
    (trialSpecs .earliestPrior) 0 (heldActions ++ [.close "a" none]) rfl under_held
  rw [run_concat, ← held] at there bases trimmed
  have shape : (held.perform (.close "a" none)).2.sites[0]?.map (fun site =>
      (site.store.retained, site.store.revision)) = some ([1, 2], 2) := by decide
  have copy : ((held.perform (.close "a" none)).2.copies.get? "b").map (fun lent =>
      (lent.home, lent.item.draft.revision, lent.item.draft.base.keys)) = some (0, 1, [1]) := by
    decide
  obtain ⟨lent, opened, copy⟩ := Option.map_eq_some_iff.1 copy
  simp only [there, Option.map_some, Option.some.injEq, Prod.mk.injEq] at shape copy
  obtain ⟨_, keys, _⟩ := bases "b" lent opened copy.1
  rw [copy.2.1, copy.2.2] at keys
  have one : oldest ≤ 1 ∧ 1 ≤ site.store.revision := (interval 1).1 (by simp [shape])
  have first : oldest = 1 := by
    have member := (interval oldest).2 ⟨Nat.le_refl _, Nat.le_trans one.1 one.2⟩
    simp only [shape, List.mem_cons, List.not_mem_nil, or_false] at member
    obtain rfl | rfl := member
    · rfl
    · exact absurd one.1 (by decide)
  refine ⟨site, there, shape.1, keys, ?_⟩
  obtain ⟨name, lent, opened, _, base⟩ | ⟨_, current⟩ := trimmed heldActions _ rfl passes_held
  · exact ⟨name, lent, opened, base.trans first⟩
  · rw [first, shape.2] at current
    cases current

end Session

end RevisionStore
