import RevisionStore.Proofs.Session.Reads
import RevisionStore.Proofs.Session.Upkeep
import RevisionStore.Proofs.Store.Gapless

/-!
# Reading the past under sparing policies

In a run in which a site with the rule `latestPrior` is only ever under policies that give up
what lies below every open copy, as it is if no others are installed (`under_of_installs`), its
store stays `Gapless`. A lookup at any revision, given up or not, that finds a change then finds
the last one the log has there, so that no resident value is out of date and none shows where a
key was not there (`run_reads_last_change`). And a key has a history only as long as some
retained revision lists it (`run_histories_listed`).

A lookup that finds no change is up to the archive if its revision has been given up. At a
retained revision the archive is not asked: the key set has the last word
(`laden_does_not_recall`).
-/

namespace RevisionStore

variable {K V : Type} [DecidableEq K]

theorem Store.gapless_invariant :
    Store.Invariant Retention.Policy.Sparing (Store.Gapless (K := K) (V := V)) where
  upkeep sparing sound orderly step gapless := gapless.upkeep sound orderly sparing step
  extended sound _ _ extended gapless := gapless.extended sound extended

namespace Session

variable {i : Nat}

theorem perform_getAt_eq {s : Session K V} {site : Site K V} {r : Revision} {k : K}
    (usable : s.usable i = .ok site) :
    (s.perform (.getAt i r k)).1 =
      ((site.store.getAt site.reconciler (s.recallOf site) r k).map .value).mapError .failed := by
  simp only [perform, told, valueAt, ask_of_usable usable]
  cases site.store.getAt site.reconciler (s.recallOf site) r k <;> rfl

/-- After a run of a fresh session in which the site at `i`, which has the rule `latestPrior`,
was only ever under sparing policies: a lookup at any revision up to the current one that
finds a change finds the last one that a commit made to the key at or before the revision,
and no other resident value is ever visible. So a read gives a clone of what the key had at
the revision, or nothing if it was not there. A read that finds no change gives nothing if
the revision is retained, and then the key was not there; if it has been given up, the read
gives what the archive recalls. -/
theorem run_reads_last_change (specs : List (SiteSpec K V)) (clock : Nat)
    (actions : List (Action K V)) {spec : SiteSpec K V} (specified : specs[i]? = some spec)
    (latest : spec.lookup = .latestPrior)
    (sparing : Under Retention.Policy.Sparing i (start specs clock) actions) :
    let s := (start specs clock).run actions
    let log := (start specs clock).commits i actions
    ∃ site, s.sites[i]? = some site ∧ site.store.revision = log.length ∧
      ∀ r ≤ log.length, ∀ k,
        (∀ c, site.store.selected? r k = some c →
          lastChange? log r k = some c ∧ c.value? = contentsAt log r k) ∧
        (∀ v, site.store.visible (s.recallOf site) r k = .ok (some (.resident v)) →
          contentsAt log r k = some v) ∧
        (site.poisoned = false →
          (∀ c, site.store.selected? r k = some c → (s.perform (.getAt i r k)).1 =
            match contentsAt log r k with
            | none => .ok (.value none)
            | some v =>
              ((site.reconciler.cloned v).map fun w => .value (some w)).mapError .failed) ∧
          (site.store.selected? r k = none → r ∈ site.store.retained →
            contentsAt log r k = none ∧ (s.perform (.getAt i r k)).1 = .ok (.value none)) ∧
          (site.store.selected? r k = none → r ∉ site.store.retained →
            (s.perform (.getAt i r k)).1 =
              .ok (.value ((s.recallOf site k r).bind (·.value?))))) := by
  intro s log
  obtain ⟨site, there, gapless⟩ :=
    sparing.holds_of_fresh Store.gapless_invariant specified (latest ▸ .fresh clock)
  have sound := (sound_run specs clock actions).stores i site there
  have length : site.store.revision = log.length := sound.tracks.length.symm
  refine ⟨site, there, length, fun r bounded k => ?_⟩
  rw [← length] at bounded
  have usable (sane : site.poisoned = false) : s.usable i = .ok site :=
    usable_eq_ok_iff.2 ⟨there, sane⟩
  refine ⟨fun c selected => ?_, fun v resident => ?_, fun sane => ⟨fun c selected => ?_,
    fun nothing retained => ?_, fun nothing expired => ?_⟩⟩
  · exact ⟨gapless.lastChange?_of_selected? selected,
      gapless.value?_of_selected? sound bounded selected⟩
  · exact gapless.contentsAt_of_visible sound bounded resident
  · rw [perform_getAt_eq (usable sane), Store.getAt,
      gapless.visible_of_selected? sound bounded selected]
    cases contentsAt log r k with
    | none => rfl
    | some v =>
      simp only [Option.map_some, Store.handOut]
      cases site.reconciler.cloned v <;> rfl
  · obtain ⟨roster, member, rfl⟩ := List.mem_map.1 retained
    have absent := sound.tracks.contentsAt_of_unselected (.inl ⟨roster, member, rfl⟩) nothing
    have found := Store.roster?_of_mem sound.kept.ascending member
    exact ⟨absent, perform_getAt (usable sane) (sound.tracks.getAt_of_not_contents found absent)⟩
  · rw [perform_getAt_eq (usable sane), Store.getAt,
      sound.kept.visible_of_expired bounded expired nothing]
    cases (s.recallOf site k r).bind (·.value?) <;> rfl

/-- A key is added and changed again two revisions later. Two copies of revision 2 are open
when the others are closed, and the revisions before it are given up. -/
def agedActions : List (Action Nat Nat) :=
  [.checkout 0 "a", .add "a" 1 5, .commit "a" none,
    .checkout 0 "b", .add "b" 2 6, .commit "b" none,
    .checkout 0 "c", .checkout 0 "d", .replace "d" 1 7, .commit "d" none,
    .close "a" none, .close "b" none]

def aged : Session Nat Nat :=
  (start (trialSpecs .latestPrior) 0).run agedActions

/-- A run of the trial that installs no policy is under the standard one. -/
theorem under_trial {actions : List (Action Nat Nat)}
    (quiet : ∀ action ∈ actions, ∀ policy, ¬ action.Installs policy) :
    Under Retention.Policy.Sparing 0 (start (trialSpecs .latestPrior) 0) actions := by
  have specified : ∀ spec ∈ trialSpecs .latestPrior, spec.policy.Sparing := by
    intro spec member
    obtain rfl := List.mem_singleton.1 member
    exact .noLongerUsed 1
  exact under_of_installs 0 0 (.noLongerUsed 1) specified fun action member policy installs =>
    absurd installs (quiet action member policy)

theorem under_aged :
    Under Retention.Policy.Sparing 0 (start (trialSpecs .latestPrior) 0) agedActions := by
  refine under_trial fun action member policy installs => ?_
  cases installs <;> simp [agedActions] at member

/-- Revision 1 has been given up, and the key still reads there as it did. -/
theorem run_reads_last_change_aged :
    Under Retention.Policy.Sparing 0 (start (trialSpecs .latestPrior) 0) agedActions ∧
      ∃ site c, aged.sites[0]? = some site ∧ 1 ∉ site.store.retained ∧
        site.store.selected? 1 1 = some c ∧
        lastChange? ((start (trialSpecs .latestPrior) 0).commits 0 agedActions) 1 1 = some c ∧
        (aged.perform (.getAt 0 1 1)).1 = .ok (.value (some 5)) := by
  obtain ⟨site, there, _, reads⟩ := run_reads_last_change (trialSpecs .latestPrior) 0 agedActions
    rfl rfl under_aged
  have shape : aged.sites[0]?.map (fun site => (site.store.retained, site.poisoned)) =
      some ([2, 3], false) := by decide
  have answer : aged.sites[0]?.bind (·.store.selected? 1 1) = some ⟨1, some 5, .added, 1⟩ := by
    decide
  have contents :
      contentsAt ((start (trialSpecs .latestPrior) 0).commits 0 agedActions) 1 1 = some 5 := by
    decide
  simp only [aged, there, Option.map_some, Option.bind_some, Option.some.injEq, Prod.mk.injEq]
    at shape answer
  obtain ⟨last, _, read⟩ := reads 1 (by decide) 1
  refine ⟨under_aged, site, _, there, by simp [shape], answer, (last _ answer).1, ?_⟩
  have plain : site.reconciler = .plain := by
    have plain : aged.sites[0]?.map (·.reconciler) = some .plain := rfl
    simpa [aged, there] using plain
  have answered := (read shape.2).1 _ answer
  simp only [contents, plain] at answered
  exact answered

/-- A fresh store whose archive recalls a value at revision 0. -/
def laden : Session Nat Nat :=
  start [⟨.plain, .latestPrior, .never, .ofTable [⟨1, some 5, .added, 0⟩]⟩] 0

/-- At a retained revision a lookup that finds no change is not up to the archive: what it
recalls is not asked for, since the revision does not list the key. -/
theorem laden_does_not_recall :
    Under Retention.Policy.Sparing 0 laden [] ∧
      ∃ site, laden.sites[0]? = some site ∧ site.store.revision = 0 ∧ site.poisoned = false ∧
        site.store.selected? 0 1 = none ∧
        (laden.recallOf site 1 0).bind (·.value?) = some 5 ∧
        (laden.perform (.getAt 0 0 1)).1 = .ok (.value none) :=
  ⟨trivial, _, rfl, rfl, rfl, rfl, rfl, rfl⟩

/-! ## Histories -/

/-- After a run of a fresh session in which the site at `i`, which has the rule `latestPrior`,
was only ever under sparing policies: every key with a history is listed by a retained
revision; so when every revision has been given up at which a key was there, its history is
gone. -/
theorem run_histories_listed (specs : List (SiteSpec K V)) (clock : Nat)
    (actions : List (Action K V)) {spec : SiteSpec K V} (specified : specs[i]? = some spec)
    (latest : spec.lookup = .latestPrior)
    (sparing : Under Retention.Policy.Sparing i (start specs clock) actions) :
    let s := (start specs clock).run actions
    let log := (start specs clock).commits i actions
    ∃ site, s.sites[i]? = some site ∧ ∀ k,
      (∀ h, site.store.histories.get? k = some h →
        ∃ roster ∈ site.store.rosters, k ∈ roster.keys) ∧
      ((∀ r ≤ log.length, (contentsAt log r k).isSome = true → r ∉ site.store.retained) →
        site.store.histories.get? k = none) := by
  intro s log
  obtain ⟨site, there, gapless⟩ :=
    sparing.holds_of_fresh Store.gapless_invariant specified (latest ▸ .fresh clock)
  have sound := (sound_run specs clock actions).stores i site there
  have orderly : Orderly log := by
    simpa using (Sound.start specs clock).orderly_run Orderly.nil actions
  refine ⟨site, there, fun k => ⟨fun h filed => gapless.exists_listed sound orderly filed, ?_⟩⟩
  intro expired
  cases filed : site.store.histories.get? k with
  | none => rfl
  | some h =>
    obtain ⟨roster, member, listed⟩ := gapless.exists_listed sound orderly filed
    have bounded : roster.revision ≤ log.length := by
      rw [sound.tracks.length]
      exact sound.kept.bounded roster member
    have alive := (sound.tracks.listed roster member k).1 listed
    exact absurd (List.mem_map_of_mem member) (expired roster.revision bounded alive)

/-- Of two keys one is removed, added again and removed for good, while copies of earlier
revisions are open. In the end all of them are closed. -/
def clearedActions : List (Action Nat Nat) :=
  [.checkout 0 "a", .add "a" 1 5, .add "a" 2 6, .commit "a" none,
    .checkout 0 "b", .remove "b" 1, .commit "b" none,
    .checkout 0 "c", .add "c" 1 7, .commit "c" none, .close "a" none,
    .checkout 0 "d", .remove "d" 1, .commit "d" none,
    .close "d" none, .close "b" none, .close "c" none]

theorem under_cleared :
    Under Retention.Policy.Sparing 0 (start (trialSpecs .latestPrior) 0) clearedActions := by
  refine under_trial fun action member policy installs => ?_
  cases installs <;> simp [clearedActions] at member

/-- The history of the removed key is gone, and that of the other one is listed. -/
theorem run_histories_listed_cleared :
    ∃ site, ((start (trialSpecs .latestPrior) 0).run clearedActions).sites[0]? = some site ∧
      site.store.histories.get? 1 = none ∧
      (∃ h, site.store.histories.get? 2 = some h) ∧
        ∃ roster ∈ site.store.rosters, 2 ∈ roster.keys := by
  obtain ⟨site, there, histories⟩ := run_histories_listed (trialSpecs .latestPrior) 0 clearedActions
    rfl rfl under_cleared
  have retained : (((start (trialSpecs .latestPrior) 0).run clearedActions).sites[0]?.map
      (·.store.retained)) = some [4] := by decide
  have filed : ((((start (trialSpecs .latestPrior) 0).run clearedActions).sites[0]?.bind
      (·.store.histories.get? 2)).isSome) = true := by decide
  have gone : ∀ r ≤ ((start (trialSpecs .latestPrior) 0).commits 0 clearedActions).length,
      (contentsAt ((start (trialSpecs .latestPrior) 0).commits 0 clearedActions) r 1).isSome =
        true → r ∉ [4] := by decide
  simp only [there, Option.map_some, Option.bind_some, Option.some.injEq] at retained filed
  obtain ⟨h, filed⟩ := Option.isSome_iff_exists.1 filed
  exact ⟨site, there, (histories 1).2 (retained ▸ gone), ⟨h, filed⟩, (histories 2).1 h filed⟩

end Session

end RevisionStore
