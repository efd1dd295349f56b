import RevisionStore.Proofs.Session.Course
import RevisionStore.Proofs.Session.Frame
import RevisionStore.Proofs.Session.Reads
import RevisionStore.Proofs.Store.Unwatched

/-!
# What snapshots show

A snapshot holds nothing back, so a pass may take from it what it has not read yet. With
archives that recall nothing it never shows a value from after its revision, but it may show
one from before (`run_reads_snapshots`): if an older change of a key outlives its last change
at the revision of the snapshot, because an older copy is still open, the snapshot takes the
older change for the answer. `outrun` leads to such a snapshot (`outrun_shows_older_value`).
-/

namespace RevisionStore

variable {K V : Type} [DecidableEq K]

/-- `v` is a clone, by one of some reconcilers, of a value that `k` had at `r` or before. -/
def Dated (log : List (Commit K V)) (employed : Reconciler V → Prop) (r : Revision) (k : K)
    (v : V) : Prop :=
  ∃ r' w reconciler, r' ≤ r ∧ contentsAt log r' k = some w ∧ employed reconciler ∧
    reconciler.clone w = .ok v

/-- A snapshot of a revision of the log, with values that are not from after it. -/
structure Snapshot.Genuine (x : Snapshot K V) (log : List (Commit K V))
    (employed : Reconciler V → Prop) : Prop where
  bounded : x.revision ≤ log.length
  listed : ∀ k, k ∈ x.base.keys ↔ (contentsAt log x.revision k).isSome = true
  fetched : ∀ k v, x.fetched.get? k = some v → Dated log employed x.revision k v

namespace Snapshot.Genuine

variable {x x' : Snapshot K V} {log : List (Commit K V)} {employed : Reconciler V → Prop}
  {k : K} {v? : Option V}

theorem append (genuine : x.Genuine log employed) (more : List (Commit K V)) :
    x.Genuine (log ++ more) employed := by
  have bounded := genuine.bounded
  refine ⟨?_, ?_, ?_⟩
  · rw [List.length_append]
    exact Nat.le_add_right_of_le bounded
  · intro k
    rw [contentsAt_append_of_le bounded]
    exact genuine.listed k
  · intro k v fetched
    obtain ⟨r, w, reconciler, before, there, rest⟩ := genuine.fetched k v fetched
    refine ⟨r, w, reconciler, before, ?_, rest⟩
    rw [contentsAt_append_of_le (Nat.le_trans before bounded)]
    exact there

theorem new {s : Store K V} {base : Roster K} (sound : s.Sound log)
    (current : s.roster? s.revision = some base) : (Snapshot.new base).Genuine log employed := by
  obtain ⟨member, same⟩ := Store.mem_of_roster? current
  refine ⟨?_, sound.tracks.listed base member, ?_⟩
  · rw [sound.tracks.length]
    exact Nat.le_of_eq same
  · intro k v fetched
    simp [Snapshot.new] at fetched

/-- Reading keeps a snapshot genuine and shows such values only, if that is what is fetched. -/
theorem read {fetch : K → Except Failure (Option V)} (genuine : x.Genuine log employed)
    (dated : ∀ v, k ∈ x.base.keys → fetch k = .ok (some v) → Dated log employed x.revision k v)
    (does : x.read fetch k = .ok (v?, x')) :
    x'.Genuine log employed ∧ ∀ v, v? = some v → Dated log employed x.revision k v := by
  simp only [Snapshot.read] at does
  split at does
  next contained =>
    have listed : k ∈ x.base.keys := Roster.contains_iff.1 contained
    cases held : x.fetched.get? k with
    | some v =>
      simp only [held, Except.ok.injEq, Prod.mk.injEq] at does
      obtain ⟨rfl, rfl⟩ := does
      refine ⟨genuine, ?_⟩
      rintro _ ⟨⟩
      exact genuine.fetched k v held
    | none =>
      cases fetched : fetch k with
      | error failure => simp [held, fetched] at does
      | ok found =>
        cases found with
        | none => simp [held, fetched] at does
        | some v =>
          simp only [held, fetched, Except.ok.injEq, Prod.mk.injEq] at does
          obtain ⟨rfl, rfl⟩ := does
          have shown := dated v listed fetched
          refine ⟨⟨genuine.bounded, genuine.listed, ?_⟩, ?_⟩
          · intro k' v' kept
            rw [Dict.get?_put] at kept
            split at kept
            next same =>
              obtain rfl := Option.some.inj kept
              exact same ▸ shown
            next => exact genuine.fetched k' v' kept
          · rintro _ ⟨⟩
            exact shown
  next =>
    simp only [Except.ok.injEq, Prod.mk.injEq] at does
    obtain ⟨rfl, rfl⟩ := does
    exact ⟨genuine, by simp⟩

end Snapshot.Genuine

namespace Session

variable {s t : Session K V} {logs : Nat → List (Commit K V)}
  {employed : Nat → Reconciler V → Prop} {action : Action K V} {i : Nat} {site : Site K V}
  {name : String} {lent : Lent (Snapshot K V)} {r : Revision} {k : K} {v : V}

/-- The archives of a session recall nothing. -/
def Silent (s : Session K V) : Prop :=
  ∀ recollect ∈ s.recollections, ∀ k r, recollect k r = none

/-- A sound session with archives that recall nothing and with genuine snapshots. -/
structure Honest (s : Session K V) (logs : Nat → List (Commit K V))
    (employed : Nat → Reconciler V → Prop) : Prop where
  sound : s.Sound logs
  silent : s.Silent
  employs : ∀ i (site : Site K V), s.sites[i]? = some site → employed i site.reconciler
  genuine : ∀ name lent, s.snapshots.get? name = some lent →
    lent.item.Genuine (logs lent.home) (employed lent.home)

namespace Silent

omit [DecidableEq K] in
theorem recallOf_eq_none (silent : s.Silent) (site : Site K V) (k : K) (r : Revision) :
    s.recallOf site k r = none := by
  simp only [recallOf, keeperOf, List.getD_eq_getElem?_getD]
  cases found : s.archives[site.archive]? with
  | none => rfl
  | some archive =>
    exact silent _ (List.mem_map.2 ⟨archive, List.mem_of_getElem? found, rfl⟩) k r

theorem glance (silent : s.Silent) (glance : s.Glance action t)
    (supplied : ∀ i policy archive, action = .setKeeper i policy archive →
      ∀ k r, archive.recollect k r = none) : t.Silent := by
  intro recollect member
  cases glance with
  | apart keeps => exact silent recollect (keeps.recollections ▸ member)
  | @supplied i policy archive _ _ recollections =>
    rw [recollections] at member
    cases List.mem_append.1 member with
    | inl old => exact silent recollect old
    | inr new => exact List.mem_singleton.1 new ▸ supplied i policy archive rfl
  | taken => exact silent recollect member
  | shown => exact silent recollect member
  | closed => exact silent recollect member

end Silent

namespace Honest

/-- What is fetched from a site that can be used is up to its resident changes. -/
theorem fetch_eq (honest : s.Honest logs employed) (usable : s.usable i = .ok site)
    (bounded : r ≤ (logs i).length) (there : (contentsAt (logs i) r k).isSome = true) :
    s.fetch i r k =
      match (site.store.selected? r k).bind (·.value?) with
      | none => .ok none
      | some v => (site.reconciler.cloned v).map some := by
  have tracks := (honest.sound.stores i site (usable_eq_ok_iff.1 usable).1).tracks
  have silent := honest.silent.recallOf_eq_none site
  rw [tracks.length] at bounded
  rw [fetch_of_usable usable]
  exact tracks.getAt_of_silent silent site.reconciler bounded there

/-- What is fetched is not from after the revision it is fetched for. -/
theorem dated_of_fetch (honest : s.Honest logs employed) (bounded : r ≤ (logs i).length)
    (there : (contentsAt (logs i) r k).isSome = true) (fetched : s.fetch i r k = .ok (some v)) :
    Dated (logs i) (employed i) r k v := by
  cases usable : s.usable i with
  | error refusal => simp [fetch, usable] at fetched
  | ok site =>
    have found := (usable_eq_ok_iff.1 usable).1
    rw [honest.fetch_eq usable bounded there] at fetched
    cases selected : site.store.selected? r k with
    | none => simp [selected] at fetched
    | some c =>
      obtain ⟨before, value⟩ := (honest.sound.stores i site found).tracks.of_selected? selected
      cases holds : c.value? with
      | none => simp [selected, holds] at fetched
      | some w =>
        cases cloned : site.reconciler.cloned w with
        | error failure => simp [selected, holds, cloned, Except.map] at fetched
        | ok v' =>
          obtain rfl : v' = v := by simpa [selected, holds, cloned, Except.map] using fetched
          exact ⟨c.revision, w, site.reconciler, before, value.trans holds,
            honest.employs i site found, Reconciler.cloned_eq_ok_iff.1 cloned⟩

/-- Reading a snapshot keeps it genuine and shows nothing from after its revision. -/
theorem read_snapshot {v? : Option V} {x : Snapshot K V} (honest : s.Honest logs employed)
    (opened : s.snapshots.get? name = some lent)
    (read : lent.item.read (s.fetch lent.home lent.item.revision) k = .ok (v?, x)) :
    x.Genuine (logs lent.home) (employed lent.home) ∧
      ∀ v, v? = some v →
        Dated (logs lent.home) (employed lent.home) lent.item.revision k v := by
  have genuine := honest.genuine name lent opened
  refine genuine.read (fun v listed fetched => ?_) read
  exact honest.dated_of_fetch genuine.bounded ((genuine.listed k).1 listed) fetched

/-- Whatever is done to the snapshots, they are genuine for every log that goes on. -/
theorem genuine_glance (honest : s.Honest logs employed) (glance : s.Glance action t)
    (opened : t.snapshots.get? name = some lent) (more : List (Commit K V)) :
    lent.item.Genuine (logs lent.home ++ more) (employed lent.home) := by
  cases glance with
  | apart keeps => exact (honest.genuine name lent (keeps.snapshots ▸ opened)).append more
  | supplied snapshots => exact (honest.genuine name lent (snapshots ▸ opened)).append more
  | @taken i name' site base there current =>
    rw [Dict.get?_put] at opened
    split at opened
    next =>
      obtain rfl := Option.some.inj opened
      exact (Snapshot.Genuine.new (honest.sound.stores i site there) current).append more
    next => exact (honest.genuine name lent opened).append more
  | @shown name' lent' k v? x opened' read =>
    rw [Dict.get?_put] at opened
    split at opened
    next =>
      obtain rfl := Option.some.inj opened
      exact (honest.read_snapshot opened' read).1.append more
    next => exact (honest.genuine name lent opened).append more
  | closed name' =>
    rw [Dict.get?_erase] at opened
    split at opened
    next => cases opened
    next => exact (honest.genuine name lent opened).append more

/-- Actions keep a session honest, unless they bring an archive that recalls something or a
reconciler that is not to be employed. -/
theorem perform (honest : s.Honest logs employed) (action : Action K V)
    (supplied : ∀ i policy archive, action = .setKeeper i policy archive →
      ∀ k r, archive.recollect k r = none)
    (asked : ∀ i reconciler, action = .setReconciler i reconciler → employed i reconciler) :
    (s.perform action).2.Honest (fun i => logs i ++ (s.committed? i action).toList) employed where
  sound := honest.sound.perform action
  silent := honest.silent.glance (s.perform_glance action) supplied
  employs i site' there' := by
    cases (honest.sound.follows_perform action).reconciler there' with
    | inl before =>
      obtain ⟨site, there, same⟩ := before
      rw [same]
      exact honest.employs i site there
    | inr requested => exact asked i _ (List.mem_singleton.1 requested).symm
  genuine _ _ opened := honest.genuine_glance (s.perform_glance action) opened _

theorem run (honest : s.Honest logs employed) (actions : List (Action K V))
    (supplied : ∀ i policy archive, .setKeeper i policy archive ∈ actions →
      ∀ k r, archive.recollect k r = none)
    (asked : ∀ i reconciler, .setReconciler i reconciler ∈ actions → employed i reconciler) :
    (s.run actions).Honest (fun i => logs i ++ s.commits i actions) employed := by
  induction actions generalizing s logs with
  | nil => simpa [commits, Session.run] using honest
  | cons action rest ih =>
    have next := honest.perform action
      (fun i policy archive is => supplied i policy archive (is ▸ List.mem_cons_self))
      (fun i reconciler is => asked i reconciler (is ▸ List.mem_cons_self))
    have after := ih next
      (fun i policy archive member =>
        supplied i policy archive (List.mem_cons_of_mem _ member))
      (fun i reconciler member => asked i reconciler (List.mem_cons_of_mem _ member))
    simpa [commits, Session.run] using after

end Honest

/-- The reconcilers of a site in a run: that of its specification and those it is given. -/
def Employs (specs : List (SiteSpec K V)) (actions : List (Action K V)) (i : Nat)
    (reconciler : Reconciler V) : Prop :=
  (∃ spec, specs[i]? = some spec ∧ spec.reconciler = reconciler) ∨
    .setReconciler i reconciler ∈ actions

theorem honest_run (specs : List (SiteSpec K V)) (clock : Nat) (actions : List (Action K V))
    (silent : ∀ spec ∈ specs, ∀ k r, spec.archive.recollect k r = none)
    (supplied : ∀ i policy archive, .setKeeper i policy archive ∈ actions →
      ∀ k r, archive.recollect k r = none) :
    ((start specs clock).run actions).Honest (fun i => (start specs clock).commits i actions)
      (Employs specs actions) := by
  have fresh : (start specs clock).Honest (fun _ => []) (Employs specs actions) := by
    refine ⟨.start specs clock, ?_, ?_, ?_⟩
    · intro recollect member
      simp only [recollections, start, List.map_map, List.mem_map] at member
      obtain ⟨spec, member, rfl⟩ := member
      exact silent spec member
    · intro i site there
      simp only [start, List.getElem?_map, List.getElem?_zipIdx, Option.map_map,
        Option.map_eq_some_iff] at there
      obtain ⟨spec, specified, rfl⟩ := there
      exact .inl ⟨spec, specified, rfl⟩
    · intro name lent opened
      simp [start] at opened
  simpa using fresh.run actions supplied fun i reconciler member => .inr member

/-! ## Reading a snapshot -/

theorem perform_readSnapshot (opened : s.snapshots.get? name = some lent) :
    (s.perform (.readSnapshot name k)).1 =
      match lent.item.read (s.fetch lent.home lent.item.revision) k with
      | .error failure => .error (.failed failure)
      | .ok (v?, _) => .ok (.snapshotValue (lent.item.base.contains k) v?) := by
  simp only [Session.perform, answered, readSnapshot, named_eq_ok_iff.2 opened]
  cases lent.item.read (s.fetch lent.home lent.item.revision) k <;> rfl

/-- The first read of a listed key on a site that can be used. -/
theorem perform_readSnapshot_of_unread (honest : s.Honest logs employed)
    (opened : s.snapshots.get? name = some lent) (usable : s.usable lent.home = .ok site)
    (listed : k ∈ lent.item.base.keys) (unread : lent.item.fetched.get? k = none) :
    (s.perform (.readSnapshot name k)).1 =
      match (site.store.selected? lent.item.revision k).bind (·.value?) with
      | none => .error (.failed (.rule (.valueLost lent.item.revision)))
      | some w =>
        ((site.reconciler.cloned w).map fun v =>
          .snapshotValue true (some v)).mapError .failed := by
  have genuine := honest.genuine name lent opened
  have contained : lent.item.base.contains k = true := Roster.contains_iff.2 listed
  have fetched := honest.fetch_eq usable genuine.bounded ((genuine.listed k).1 listed)
  rw [perform_readSnapshot opened, Snapshot.read, contained, if_pos rfl, unread]
  simp only [fetched]
  cases (site.store.selected? lent.item.revision k).bind (·.value?) with
  | none => rfl
  | some w =>
    cases cloned : site.reconciler.cloned w <;> simp [cloned, Except.map, Except.mapError]

/-- In a run whose archives recall nothing a snapshot of revision `r` lists the keys that were
there at `r` and shows no value from after `r`. When it reads a key for the first time, it is
up to the change of the key that is resident at or before `r`: without one the value is lost,
and otherwise a clone of what it recorded is shown. That is the value at `r` if the key was
not changed between that change and `r`, and under `latestPrior` also if `r` is still
retained or the base of an open copy; else it is a value from before. -/
theorem run_reads_snapshots (specs : List (SiteSpec K V)) (clock : Nat)
    (actions : List (Action K V))
    (silent : ∀ spec ∈ specs, ∀ k r, spec.archive.recollect k r = none)
    (supplied : ∀ i policy archive, .setKeeper i policy archive ∈ actions →
      ∀ k r, archive.recollect k r = none)
    (opened : ((start specs clock).run actions).snapshots.get? name = some lent) :
    let s := (start specs clock).run actions
    let log := (start specs clock).commits lent.home actions
    let r := lent.item.revision
    (∀ k, k ∈ lent.item.base.keys ↔ (contentsAt log r k).isSome = true) ∧
      (∀ k listed v, (s.perform (.readSnapshot name k)).1 = .ok (.snapshotValue listed (some v)) →
        Dated log (Employs specs actions lent.home) r k v) ∧
      ∀ site, s.usable lent.home = .ok site → ∀ k ∈ lent.item.base.keys,
        lent.item.fetched.get? k = none →
          ((site.store.selected? r k).bind (·.value?) = none →
            (s.perform (.readSnapshot name k)).1 = .error (.failed (.rule (.valueLost r)))) ∧
          ∀ c w, site.store.selected? r k = some c → c.value? = some w →
            (s.perform (.readSnapshot name k)).1 =
              ((site.reconciler.cloned w).map fun v =>
                .snapshotValue true (some v)).mapError .failed ∧
            c.revision ≤ r ∧ contentsAt log c.revision k = some w ∧
            (Untouched log k c.revision r ∨
              site.store.lookup = .latestPrior ∧ site.store.Watched r →
                contentsAt log r k = some w) := by
  intro s log r
  have honest : s.Honest (fun i => (start specs clock).commits i actions) (Employs specs actions) :=
    honest_run specs clock actions silent supplied
  have genuine := honest.genuine name lent opened
  refine ⟨genuine.listed, ?_, ?_⟩
  · intro k listed v shown
    rw [perform_readSnapshot opened] at shown
    split at shown
    next => cases shown
    next v? x read =>
      simp only [Except.ok.injEq, Answer.snapshotValue.injEq] at shown
      exact (honest.read_snapshot opened read).2 v shown.2
  · intro site usable k listed unread
    have answer := perform_readSnapshot_of_unread honest opened usable listed unread
    have there := (usable_eq_ok_iff.1 usable).1
    have tracks := (honest.sound.stores _ site there).tracks
    refine ⟨?_, ?_⟩
    · intro lost
      rw [answer, lost]
    · intro c w selected holds
      obtain ⟨before, recorded⟩ := tracks.of_selected? selected
      refine ⟨?_, before, recorded.trans holds, ?_⟩
      · rw [answer, selected, Option.bind_some, holds]
      · rintro (untouched | ⟨latest, watched⟩)
        · rw [← contentsAt_eq_of_untouched untouched before]
          exact recorded.trans holds
        · obtain ⟨v, contents⟩ := Option.isSome_iff_exists.1 ((genuine.listed k).1 listed)
          rw [tracks.selected?_of_watched latest watched contents selected] at holds
          exact contents.trans holds

/-- A copy of revision 1 stays open while its key is changed in revisions 2 and 3. In between
a snapshot is taken, and in the end everything that has an age is given up. -/
def outrunActions : List (Action Nat Nat) :=
  [.checkout 0 "a", .add "a" 1 5, .commit "a" none, .drop "a",
    .checkout 0 "b", .replace "b" 1 6, .commit "b" none, .takeSnapshot 0 "x",
    .checkout 0 "c", .replace "c" 1 7, .commit "c" none, .drop "c", .wait 20, .expire 0]

def outrunSpecs : List (SiteSpec Nat Nat) :=
  [⟨.plain, .latestPrior, (Retention.Plan.timeBased 0).policy, .discarding⟩]

/-- The session after these actions. -/
def outrun : Session Nat Nat :=
  (start outrunSpecs 0).run outrunActions

/-- What the snapshot shows is at least a value that the key had before. -/
theorem run_reads_snapshots_outrun :
    (outrun.perform (.readSnapshot "x" 1)).1 = .ok (.snapshotValue true (some 5)) ∧
      Dated ((start outrunSpecs 0).commits 0 outrunActions)
        (Employs outrunSpecs outrunActions 0) 2 1 5 := by
  have shown : (outrun.perform (.readSnapshot "x" 1)).1 = .ok (.snapshotValue true (some 5)) := rfl
  obtain ⟨lent, opened⟩ : ∃ lent, outrun.snapshots.get? "x" = some lent := ⟨_, rfl⟩
  have snapshot : (outrun.snapshots.get? "x").map (fun lent => (lent.home, lent.item.revision)) =
    some (0, 2) := by decide
  simp only [opened, Option.map_some, Option.some.injEq, Prod.mk.injEq] at snapshot
  obtain ⟨_, dated, _⟩ := run_reads_snapshots outrunSpecs 0 outrunActions
    (by simp [outrunSpecs, Retention.Archive.discarding]) (by simp [outrunActions]) opened
  have dated := dated 1 true 5 shown
  rw [snapshot.1, snapshot.2] at dated
  exact ⟨shown, dated⟩

/-- A snapshot of revision 2 shows the value of revision 1 for a key that had another value
at revision 2. -/
theorem outrun_shows_older_value :
    Reachable outrun ∧
      (outrun.snapshots.get? "x").map (fun lent => (lent.home, lent.item.base)) =
        some (0, ⟨2, 0, [1]⟩) ∧
      contentsAt ((start outrunSpecs 0).commits 0 outrunActions) 1 1 = some 5 ∧
      contentsAt ((start outrunSpecs 0).commits 0 outrunActions) 2 1 = some 6 ∧
      (outrun.perform (.readSnapshot "x" 1)).1 = .ok (.snapshotValue true (some 5)) :=
  ⟨.run (.start _ _) _, by decide, by decide, by decide, rfl⟩

end Session

end RevisionStore
