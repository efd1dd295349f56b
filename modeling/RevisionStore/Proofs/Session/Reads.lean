import RevisionStore.Proofs.Session.Service
import RevisionStore.Proofs.Store.Obscured

/-!
# What a session reads

Under `latestPrior` a session reads what its commits have written: at every retained
revision and at the base of every open copy a key has the contents of the log, whatever
the passes in between have given up (`run_reads_log`).

Under either rule a listed key reads as some value of it unless it is obscured, and nothing
else makes a read through a copy or a cursor lose a value (`reachable_reads`). Under
`earliestPrior` that does happen: `trial` leads to a store that lists a key and cannot
read it (`trial_loses_listed_key`).
-/

namespace RevisionStore

namespace Session

variable {K V : Type} [DecidableEq K] {s : Session K V} {i : Nat} {site : Site K V}
  {r : Revision} {k : K}

/-! ## Answers of a site that can be used -/

omit [DecidableEq K] in
theorem ask_of_usable {α : Type} (usable : s.usable i = .ok site)
    (question : Site K V → Recollection K V → Except Failure α) :
    s.ask i question = (question site (s.recallOf site)).mapError .failed := by
  simp [ask, usable]

theorem perform_getAt (usable : s.usable i = .ok site) {v? : Option V}
    (read : site.store.getAt site.reconciler (s.recallOf site) r k = .ok v?) :
    (s.perform (.getAt i r k)).1 = .ok (.value v?) := by
  simp [perform, told, valueAt, ask_of_usable usable, read, Except.mapError, Except.map]

theorem perform_keysAt (usable : s.usable i = .ok site) {roster : Roster K}
    (within : r ≤ site.store.revision) (found : site.store.roster? r = some roster) :
    (s.perform (.keysAt i r)).1 = .ok (.keys roster.keys) := by
  have within : site.store.checkRange r = .ok () := if_neg (Nat.not_lt_of_le within)
  simp [perform, told, ask_of_usable usable, Store.keysAt, Store.rosterAt, within, found,
    Except.mapError, Except.map]

/-! ## Reading the log -/

/-- Under `latestPrior` a watched key is read as a clone of its contents. -/
theorem perform_getAt_of_contents {log : List (Commit K V)} (usable : s.usable i = .ok site)
    (tracks : site.store.Tracks log) (service : site.InService .latestPrior)
    (watched : site.store.Watched r) {v : V} (there : contentsAt log r k = some v) :
    ∃ w, site.reconciler.clone v = .ok w ∧
      (s.perform (.getAt i r k)).1 = .ok (.value (some w)) := by
  obtain ⟨w, cloned⟩ := service.total.1 v
  refine ⟨w, cloned, perform_getAt usable ?_⟩
  rw [tracks.getAt_of_contents service.lookup watched there, Reconciler.cloned_eq_ok_iff.2 cloned]
  rfl

/-- After a run of a fresh session, a site with the rule `latestPrior` whose reconcilers never
give up reads the log of its commits: a retained revision lists exactly the keys that the log
has there, and every key reads as a clone of its contents or, without contents, as nothing;
and at the base of an open copy, retained or not, every key with contents reads as a clone
of them. -/
theorem run_reads_log (specs : List (SiteSpec K V)) (clock : Nat) (actions : List (Action K V))
    {spec : SiteSpec K V} (specified : specs[i]? = some spec)
    (latest : spec.lookup = .latestPrior) (total : spec.reconciler.Total)
    (totals : ∀ r, .setReconciler i r ∈ actions → r.Total) :
    let s := (start specs clock).run actions
    let log := (start specs clock).commits i actions
    ∃ site, s.sites[i]? = some site ∧ site.store.revision = log.length ∧
      (∀ r ∈ site.store.retained,
        (∃ ks, (s.perform (.keysAt i r)).1 = .ok (.keys ks) ∧
          ∀ k, k ∈ ks ↔ (contentsAt log r k).isSome = true) ∧
        ∀ k, (contentsAt log r k = none → (s.perform (.getAt i r k)).1 = .ok (.value none)) ∧
          ∀ v, contentsAt log r k = some v → ∃ w, site.reconciler.clone v = .ok w ∧
            (s.perform (.getAt i r k)).1 = .ok (.value (some w))) ∧
      ∀ name lent, s.copies.get? name = some lent → lent.home = i →
        ∀ k v, contentsAt log lent.item.draft.revision k = some v →
          ∃ w, site.reconciler.clone v = .ok w ∧
            (s.perform (.getAt i lent.item.draft.revision k)).1 = .ok (.value (some w)) := by
  intro s log
  have serves : s.Serves i .latestPrior :=
    latest ▸ (Serves.start specified total clock).run actions totals
  have sound : s.Sound fun i => (start specs clock).commits i actions :=
    sound_run specs clock actions
  obtain ⟨site, there, service⟩ := serves
  have usable : s.usable i = .ok site := usable_eq_ok_iff.2 ⟨there, service.sound⟩
  obtain ⟨kept, tracks, _⟩ := sound.stores i site there
  refine ⟨site, there, tracks.length.symm, fun r retained => ?_, ?_⟩
  · obtain ⟨roster, member, rfl⟩ := List.mem_map.1 retained
    have found := Store.roster?_of_mem kept.ascending member
    have watched : site.store.Watched roster.revision := .inl ⟨roster, member, rfl⟩
    refine ⟨⟨roster.keys, perform_keysAt usable (kept.bounded roster member) found,
      tracks.listed roster member⟩, fun k => ⟨fun absent => ?_, fun v there => ?_⟩⟩
    · exact perform_getAt usable (tracks.getAt_of_not_contents found absent)
    · exact perform_getAt_of_contents usable tracks service watched there
  · rintro name lent opened rfl k v contents
    have watched := (sound.registered opened there).watched
    exact perform_getAt_of_contents usable tracks service watched contents

/-- The key that was removed and added again has its last value at the last revision. -/
theorem run_reads_log_trial :
    contentsAt ((start (trialSpecs .latestPrior) 0).commits 0 trialActions) 4 1 = some 7 ∧
      ∃ w, ((trial .latestPrior).perform (.getAt 0 4 1)).1 = .ok (.value (some w)) := by
  have contents :
      contentsAt ((start (trialSpecs .latestPrior) 0).commits 0 trialActions) 4 1 = some 7 := by
    decide
  obtain ⟨site, there, _, reads, _⟩ := run_reads_log (i := 0) (trialSpecs .latestPrior) 0
    trialActions rfl rfl Reconciler.total_plain (by simp [trialActions])
  have retained : ((trial .latestPrior).sites[0]?.map fun site => site.store.retained) =
      some [3, 4] := by
    decide
  rw [trial, there] at retained
  obtain ⟨w, _, read⟩ := ((reads 4 (by simp [Option.some.inj retained])).2 1).2 7 contents
  exact ⟨contents, w, read⟩

/-! ## Keys that are missed -/

theorem fetch_of_usable (usable : s.usable i = .ok site) :
    s.fetch i r = site.store.getAt site.reconciler (s.recallOf site) r := by
  funext k
  simp [fetch, usable]

theorem perform_read_eq_error_iff {name : String} {lent : Lent (WorkingCopy K V)}
    {failure : Failure} (opened : s.copies.get? name = some lent) :
    (s.perform (.read name k)).1 = .error (.failed failure) ↔
      lent.item.draft.read (s.fetch lent.home lent.item.draft.revision) k = .error failure := by
  simp only [perform, answered, onDraft, named_eq_ok_iff.2 opened, settle]
  cases lent.item.draft.read (s.fetch lent.home lent.item.draft.revision) k <;>
    simp [Except.mapError, Except.map]

theorem perform_stepCursor_eq_error_iff {name cursor : String} {lent : Lent (WorkingCopy K V)}
    {failure : Failure} {value? : Option V} (opened : s.copies.get? name = some lent) :
    (s.perform (.stepCursor cursor name value?)).1 = .error (.failed failure) ↔
      ∃ c, s.cursors.get? cursor = some c ∧
        (c.next lent.item.draft (s.fetch lent.home lent.item.draft.revision)).1 =
          .error failure := by
  simp only [perform, answered, stepCursor]
  cases found : s.cursors.get? cursor with
  | none => simp [named, found, Except.map]
  | some c =>
    simp only [named_eq_ok_iff.2 found, named_eq_ok_iff.2 opened, Option.some.injEq,
      exists_eq_left']
    cases (c.next lent.item.draft (s.fetch lent.home lent.item.draft.revision)).1 <;>
      simp [Except.mapError, Except.map]

/-- In a session that can be reached, whatever the rule: a lookup of a key that a retained
roster lists gives a clone of a value of it, unless the key is obscured there, and then it
gives nothing; a read through an open copy, or a step of a cursor on it, loses a value
exactly for the obscured keys of its base that it has to look up; and a map of the current
values leaves out exactly the obscured keys. -/
theorem reachable_reads (reached : Reachable s) (usable : s.usable i = .ok site) :
    (∀ roster ∈ site.store.rosters, ∀ k ∈ roster.keys,
      (site.store.obscured roster.revision k = true ∧
          (s.perform (.getAt i roster.revision k)).1 = .ok (.value none)) ∨
        (site.store.obscured roster.revision k = false ∧ ∃ v,
          s.valueAt i roster.revision k = ((site.reconciler.cloned v).map some).mapError .failed)) ∧
    (∀ name lent, s.copies.get? name = some lent → lent.home = i →
      (∀ k, (s.perform (.read name k)).1 =
          .error (.failed (.rule (.valueLost lent.item.draft.revision))) ↔
        lent.item.draft.Loses site.store k) ∧
      ∀ cursor value?, (s.perform (.stepCursor cursor name value?)).1 =
          .error (.failed (.rule (.valueLost lent.item.draft.revision))) ↔
        ∃ c k, s.cursors.get? cursor = some c ∧ lent.item.draft.version = c.stamp ∧
          (c.advance lent.item.draft).1 = some k ∧ lent.item.draft.Loses site.store k) ∧
    (∃ roster, site.store.roster? site.store.revision = some roster ∧
      (∀ m, (s.perform (.asMap i)).1 = .ok (.map m) →
        m.order = roster.keys.filter fun k => !site.store.obscured site.store.revision k) ∧
      ((∀ v, ∃ w, site.reconciler.clone v = .ok w) →
        ∃ m, (s.perform (.asMap i)).1 = .ok (.map m))) ∧
    (site.store.lookup = .latestPrior → ∀ r k, site.store.obscured r k = false) := by
  obtain ⟨logs, sound⟩ := reached.sound
  have there := (usable_eq_ok_iff.1 usable).1
  obtain ⟨kept, tracks, _⟩ := sound.stores i site there
  refine ⟨fun roster member k listed => ?_, ?_, ?_, Store.obscured_of_latestPrior⟩
  · have watched : site.store.Watched roster.revision := .inl ⟨roster, member, rfl⟩
    obtain ⟨obscured, nothing⟩ | ⟨clear, v, something⟩ :=
      tracks.getAt_of_listed kept site.reconciler (s.recallOf site) watched
        ((tracks.listed roster member k).1 listed)
    · exact .inl ⟨obscured, perform_getAt usable nothing⟩
    · exact .inr ⟨clear, v, by rw [valueAt, ask_of_usable usable, something]⟩
  · rintro name lent opened rfl
    have registered := sound.registered opened there
    have loses (k : K) : lent.item.draft.read (s.fetch lent.home lent.item.draft.revision) k =
        .error (.rule (.valueLost lent.item.draft.revision)) ↔
          lent.item.draft.Loses site.store k := by
      rw [fetch_of_usable usable]
      exact Draft.read_eq_valueLost_iff_loses tracks kept registered.watched registered.listed
    refine ⟨fun k => (perform_read_eq_error_iff opened).trans (loses k), fun cursor value? => ?_⟩
    rw [perform_stepCursor_eq_error_iff opened]
    simp only [Draft.next_eq_valueLost_iff, loses]
    constructor
    · rintro ⟨c, found, stamp, k, next⟩
      exact ⟨c, k, found, stamp, next⟩
    · rintro ⟨c, k, found, stamp, next⟩
      exact ⟨c, found, stamp, k, next⟩
  · obtain ⟨roster, current⟩ := kept.current
    have map_eq : (s.perform (.asMap i)).1 =
        ((site.store.asMap site.reconciler (s.recallOf site)).mapError .failed).map .map := by
      simp [perform, told, ask_of_usable usable]
    obtain ⟨order, exists_⟩ := Store.asMap_order tracks kept current
    refine ⟨roster, current, fun m read => ?_, fun clones => ?_⟩
    · rw [map_eq] at read
      cases answer : site.store.asMap site.reconciler (s.recallOf site) with
      | error failure => simp [answer, Except.mapError, Except.map] at read
      | ok m' =>
        obtain rfl : m' = m := by simpa [answer, Except.mapError, Except.map] using read
        exact order m' answer
    · obtain ⟨m, read⟩ := exists_ clones
      exact ⟨m, by rw [map_eq, read]; rfl⟩

/-- The key that was removed and added again cannot be read at the last revision. -/
theorem reachable_reads_trial : ∃ site, (trial .earliestPrior).usable 0 = .ok site ∧
    site.store.obscured 4 1 = true ∧
      ((trial .earliestPrior).perform (.getAt 0 4 1)).1 = .ok (.value none) := by
  obtain ⟨site, usable⟩ : ∃ site, (trial .earliestPrior).usable 0 = .ok site := ⟨_, rfl⟩
  have there := (usable_eq_ok_iff.1 usable).1
  have missed : ((trial .earliestPrior).sites[0]?.map fun site =>
      (site.store.rosters, site.store.obscured 4 1)) = some ([⟨3, 0, [1]⟩, ⟨4, 0, [1]⟩], true) := by
    decide
  rw [there, Option.map_some, Option.some.injEq, Prod.mk.injEq] at missed
  obtain ⟨rosters, obscured⟩ := missed
  have reads := (reachable_reads (reachable_trial .earliestPrior) usable).1 ⟨4, 0, [1]⟩
    (by simp [rosters]) 1 List.mem_cons_self
  obtain ⟨_, nothing⟩ | ⟨clear, _⟩ := reads
  · exact ⟨site, usable, obscured, nothing⟩
  · rw [obscured] at clear
    cases clear

/-- Under `earliestPrior` a listed key may be out of reach: the current roster lists it, its
value is missing, a copy of the current revision cannot read it, and the map of the current
values is empty. -/
theorem trial_loses_listed_key :
    Reachable (trial .earliestPrior) ∧
      (trial .earliestPrior).answers
          [.keysAt 0 4, .getAt 0 4 1, .size 0, .asMap 0, .checkout 0 "e", .read "e" 1] =
        [.ok (.keys [1]), .ok (.value none), .ok (.number 1), .ok (.map ⟨4, [], .empty⟩),
          .ok (.opened ⟨5⟩ 4), .error (.failed (.rule (.valueLost 4)))] :=
  ⟨reachable_trial .earliestPrior, rfl⟩

end Session

end RevisionStore
