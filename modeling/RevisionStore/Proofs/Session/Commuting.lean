import RevisionStore.Proofs.Session.Agreement
import RevisionStore.Proofs.Store.Commuting

/-!
# The order of independent commits

Two open copies of a site that stage different keys can be committed in any order: neither
commit decides whether the other one succeeds, and what is current afterwards is the same
(`reachable_commits_commute`).
-/

namespace RevisionStore

variable {K V : Type} [DecidableEq K]

namespace Session

/-- The copy under a name can be committed to its own site now. -/
def Accepts (s : Session K V) (name : String) : Prop :=
  ∃ n, (s.perform (.commit name none)).1 = .ok (.number n)

/-- The session after a commit of the copy under a name, whether it succeeds or not. -/
def committing (s : Session K V) (name : String) : Session K V :=
  (s.perform (.commit name none)).2

variable {s : Session K V} {logs : Nat → List (Commit K V)} {i : Nat} {site : Site K V}
  {name name' : String} {lent lent' : Lent (WorkingCopy K V)}

/-! ## One attempt -/

/-- What a commit of `c` that succeeds or is refused makes of the session: at most the store of
the site changes. -/
structure Attempted (s t : Session K V) (i : Nat) (site : Site K V) (c : Commit K V)
    (store : Store K V) : Prop where
  copies : t.copies = s.copies
  usable : t.usable i = .ok { site with store := store }
  outcome : store = site.store ∨ site.store.Extended c store

namespace Attempted

variable {t : Session K V} {c : Commit K V} {store : Store K V} {k : K}

theorem tip_of_not_staged (attempted : s.Attempted t i site c store) (kept : site.store.WellKept)
    (unstaged : k ∉ c.draft.staged) : store.tip k = site.store.tip k := by
  obtain rfl | extended := attempted.outcome
  · rfl
  · exact extended.tip_of_not_staged kept unstaged

theorem wellKept (attempted : s.Attempted t i site c store) (kept : site.store.WellKept)
    (staged : c.draft.WellStaged) : store.WellKept := by
  obtain rfl | extended := attempted.outcome
  · exact kept
  · exact extended.wellKept kept staged

end Attempted

section Attempt

variable (usable : s.usable i = .ok site) (total : site.reconciler.Total)
  (opened : s.copies.get? name = some lent) (home : lent.home = i)
include usable total opened home

/-- A copy can be committed if its store takes the draft. -/
theorem accepts_iff : s.Accepts name ↔
    ∃ store, site.store.commit site.reconciler s.clock lent.item.draft = .ok store := by
  have usable' : s.usable ((none : Option Nat).getD lent.home) = .ok site := by simp [home, usable]
  simp only [Accepts]
  cases outcome : site.store.commit site.reconciler s.clock lent.item.draft with
  | ok store => simp [perform_commit_of_ok opened usable' rfl outcome]
  | error failure =>
    cases failure with
    | refused cause => simp [perform_commit_of_refused opened usable' rfl outcome]
    | fault cause => exact absurd outcome (Store.commit_ne_fault total)

omit total in
/-- A commit that the store takes puts the new store in its place. -/
theorem committing_of_ok {store : Store K V}
    (taken : site.store.commit site.reconciler s.clock lent.item.draft = .ok store) :
    s.committing name = s.putSite i { site with store := store } := by
  subst home
  rw [committing,
    perform_commit_eq_ok_iff.2 ⟨lent, site, store, opened, rfl, usable, taken, rfl, rfl⟩]

/-- A commit that the store does not take leaves everything as it is. -/
theorem committing_of_error {failure : Failure}
    (refused : site.store.commit site.reconciler s.clock lent.item.draft = .error failure) :
    s.committing name = s := by
  cases failure with
  | refused cause =>
    rw [committing, perform_commit_of_refused opened (by simp [home, usable]) rfl refused]
  | fault cause => exact absurd refused (Store.commit_ne_fault total)

theorem attempted (sound : s.Sound logs) :
    ∃ store, s.Attempted (s.committing name) i site ⟨site.reconciler, lent.item.draft⟩ store ∧
      (s.Accepts name → site.store.Extended ⟨site.reconciler, lent.item.draft⟩ store) := by
  obtain ⟨there, sane⟩ := usable_eq_ok_iff.1 usable
  have kept := (sound.stores i site there).kept
  have staged := (sound.registered opened (home ▸ there)).staged
  cases outcome : site.store.commit site.reconciler s.clock lent.item.draft with
  | ok store =>
    have extended := Store.extended_of_commit kept staged outcome
    have usable' : (s.putSite i { site with store := store }).usable i =
        .ok { site with store := store } :=
      usable_eq_ok_iff.2 ⟨by simp [getElem?_putSite there], sane⟩
    rw [committing_of_ok usable opened home outcome]
    exact ⟨store, ⟨rfl, usable', .inr extended⟩, fun _ => extended⟩
  | error failure =>
    have refused : ¬ s.Accepts name := by simp [accepts_iff usable total opened home, outcome]
    rw [committing_of_error usable total opened home outcome]
    exact ⟨site.store, ⟨rfl, usable, .inl rfl⟩, fun accepted => absurd accepted refused⟩

end Attempt

/-! ## Two attempts -/

section Independent

variable (sound : s.Sound logs) (usable : s.usable i = .ok site)
  (total : site.reconciler.Total) (opened : s.copies.get? name = some lent)
  (home : lent.home = i) (opened' : s.copies.get? name' = some lent') (home' : lent'.home = i)
include sound usable total opened home opened' home'

/-- A commit does not decide whether another one that stages different keys succeeds. -/
theorem accepts_committing_iff
    (apart : ∀ k ∈ lent.item.draft.staged, k ∉ lent'.item.draft.staged) :
    (s.committing name).Accepts name' ↔ s.Accepts name' := by
  have there := (usable_eq_ok_iff.1 usable).1
  have kept := (sound.stores i site there).kept
  have staged := (sound.registered opened (home ▸ there)).staged
  have staged' := (sound.registered opened' (home' ▸ there)).staged
  obtain ⟨store, attempt, _⟩ := attempted usable total opened home sound
  have same (k : K) (member : k ∈ lent'.item.draft.staged) : store.tip k = site.store.tip k :=
    attempt.tip_of_not_staged kept fun member' => apart k member' member
  rw [accepts_iff attempt.usable total (attempt.copies ▸ opened') home',
    accepts_iff usable total opened' home']
  exact Store.exists_commit_congr (attempt.wellKept kept staged) kept staged' total same

/-- What two commits that both succeed make of the store. -/
theorem committing_extended (accepted : s.Accepts name)
    (accepted' : (s.committing name).Accepts name') :
    ∃ between after, site.store.Extended ⟨site.reconciler, lent.item.draft⟩ between ∧
      between.Extended ⟨site.reconciler, lent'.item.draft⟩ after ∧
        ((s.committing name).committing name').usable i = .ok { site with store := after } := by
  obtain ⟨between, attempt, extended⟩ := attempted usable total opened home sound
  have sound' : (s.committing name).Sound _ := sound.perform (.commit name none)
  obtain ⟨after, attempt', extended'⟩ :=
    attempted attempt.usable total (attempt.copies ▸ opened') home' sound'
  exact ⟨between, after, extended accepted, extended' accepted', attempt'.usable⟩

end Independent

/-- In a session that can be reached let two open copies of a site that can be used, with a
reconciler that never gives up, stage different keys. Whether one of them can be committed does
not depend on a commit of the other before, so that both commits succeed in one order if and
only if they do in the other. If they do, both orders lead to stores that agree in what is
current, and under `latestPrior` to the same answer to every lookup of a current value. -/
theorem reachable_commits_commute (reached : Reachable s) (usable : s.usable i = .ok site)
    (total : site.reconciler.Total) (opened : s.copies.get? name = some lent)
    (home : lent.home = i) (opened' : s.copies.get? name' = some lent') (home' : lent'.home = i)
    (apart : ∀ k ∈ lent.item.draft.staged, k ∉ lent'.item.draft.staged) :
    ((s.committing name).Accepts name' ↔ s.Accepts name') ∧
    ((s.committing name').Accepts name ↔ s.Accepts name) ∧
    (s.Accepts name ∧ (s.committing name).Accepts name' ↔
      s.Accepts name' ∧ (s.committing name').Accepts name) ∧
    (s.Accepts name → (s.committing name).Accepts name' →
      ∃ after after',
        ((s.committing name).committing name').usable i = .ok { site with store := after } ∧
        ((s.committing name').committing name).usable i = .ok { site with store := after' } ∧
        after.Concurs after' ∧
        (site.store.lookup = .latestPrior → ∀ k, ∃ v?,
          (((s.committing name).committing name').perform (.get i k)).1 = .ok (.value v?) ∧
            (((s.committing name').committing name).perform (.get i k)).1 = .ok (.value v?))) := by
  obtain ⟨logs, sound⟩ := reached.sound
  have second := accepts_committing_iff sound usable total opened home opened' home' apart
  have first := accepts_committing_iff sound usable total opened' home' opened home
    fun k member' member => apart k member member'
  refine ⟨second, first, by rw [first, second, and_comm], fun accepted accepted' => ?_⟩
  obtain ⟨there, sane⟩ := usable_eq_ok_iff.1 usable
  have kept := (sound.stores i site there).kept
  have staged := (sound.registered opened (home ▸ there)).staged
  have staged' := (sound.registered opened' (home' ▸ there)).staged
  obtain ⟨between, after, extended₁, extended₂, usable₂⟩ :=
    committing_extended sound usable total opened home opened' home' accepted accepted'
  obtain ⟨between', after', extended₁', extended₂', usable₂'⟩ :=
    committing_extended sound usable total opened' home' opened home (second.1 accepted')
      (first.2 accepted)
  have concurs : after.Concurs after' :=
    Store.Extended.concurs apart kept staged staged' extended₁ extended₂ extended₁' extended₂'
  refine ⟨after, after', usable₂, usable₂', concurs, fun latest k => ?_⟩
  -- both sessions are sound for the logs that their commits have written
  have sound₂ : ((s.committing name).committing name').Sound _ :=
    (sound.perform (.commit name none)).perform (.commit name' none)
  have sound₂' : ((s.committing name').committing name).Sound _ :=
    (sound.perform (.commit name' none)).perform (.commit name none)
  have service : Site.InService { site with store := after } .latestPrior :=
    ⟨sane, total, extended₂.lookup.trans (extended₁.lookup.trans latest)⟩
  have service' : Site.InService { site with store := after' } .latestPrior :=
    ⟨sane, total, extended₂'.lookup.trans (extended₁'.lookup.trans latest)⟩
  obtain ⟨roster, roster', current, current', _⟩ := concurs.keys
  have shown : after'.shown site.reconciler k = after.shown site.reconciler k := by
    rw [Store.shown, ← Store.leading?_congr (concurs.tip k), ← Store.shown]
  refine ⟨after.shown site.reconciler k, (agrees usable₂ service sound₂ current).get k, ?_⟩
  rw [(agrees usable₂' service' sound₂' current').get k, shown]

/-- Of two copies one removes a key and adds another, and the other one modifies a third. -/
def diverged : Session Nat Nat :=
  (start (trialSpecs .latestPrior) 0).run
    [.checkout 0 "z", .add "z" 1 5, .add "z" 2 6, .commit "z" none,
      .checkout 0 "a", .checkout 0 "b", .remove "a" 1, .add "a" 3 7, .replace "b" 2 8]

/-- Both commits succeed in both orders, and then the modified key has the same value. -/
theorem reachable_commits_commute_diverged :
    (diverged.committing "a").Accepts "b" ∧ (diverged.committing "b").Accepts "a" ∧
      (((diverged.committing "b").committing "a").perform (.get 0 2)).1 =
        .ok (.value (some 8)) := by
  obtain ⟨a, opened⟩ : ∃ lent, diverged.copies.get? "a" = some lent := ⟨_, rfl⟩
  obtain ⟨b, opened'⟩ : ∃ lent, diverged.copies.get? "b" = some lent := ⟨_, rfl⟩
  have copy : (diverged.copies.get? "a").map (fun lent => (lent.home, lent.item.draft.staged)) =
    some (0, [3, 1]) := by decide
  have copy' : (diverged.copies.get? "b").map (fun lent => (lent.home, lent.item.draft.staged)) =
    some (0, [2]) := by decide
  simp only [opened, opened', Option.map_some, Option.some.injEq, Prod.mk.injEq] at copy copy'
  obtain ⟨site, usable⟩ : ∃ site, diverged.usable 0 = .ok site := ⟨_, rfl⟩
  have there := (usable_eq_ok_iff.1 usable).1
  have setup : diverged.sites[0]?.map (fun site => (site.reconciler, site.store.lookup)) =
    some (.plain, .latestPrior) := rfl
  simp only [there, Option.map_some, Option.some.injEq, Prod.mk.injEq] at setup
  have accepted : diverged.Accepts "a" := ⟨2, rfl⟩
  have accepted' : diverged.Accepts "b" := ⟨2, rfl⟩
  obtain ⟨second, first, _, both⟩ := reachable_commits_commute (.run (.start _ _) _) usable
    (setup.1 ▸ Reconciler.total_plain) opened copy.1 opened' copy'.1
    (by simp [copy.2, copy'.2])
  refine ⟨second.2 accepted', first.2 accepted, ?_⟩
  obtain ⟨_, _, _, _, _, gets⟩ := both accepted (second.2 accepted')
  obtain ⟨v?, get, get'⟩ := gets setup.2 2
  have value : (((diverged.committing "a").committing "b").perform (.get 0 2)).1 =
    .ok (.value (some 8)) := rfl
  exact get'.trans (get.symm.trans value)

end Session

end RevisionStore
