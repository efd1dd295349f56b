import RevisionStore.Proofs.Draft.Conflicts
import RevisionStore.Proofs.Session.Sound
import RevisionStore.Proofs.Store.Current

/-!
# Which updates are refused

An update of an open copy is refused exactly if a current key is staged in a way that the options
do not admit, whatever its base was and whichever staged key comes first, and a refused update
leaves everything as it was (`reachable_update_refused_iff`).
-/

namespace RevisionStore

namespace Session

variable {K V : Type} {s : Session K V} {name : String} {lent : Lent (WorkingCopy K V)}
  {site : Site K V} {options : Refresh.Options}

/-- Giving a copy the draft that it has changes nothing. -/
theorem putDraft_self (opened : s.copies.get? name = some lent) :
    s.putDraft name lent lent.item.draft = s := by
  simp only [putDraft, Dict.put_of_get? opened]

variable [DecidableEq K]

/-- An update of a copy whose site can be used is a refresh of its draft from this site. -/
theorem perform_update (opened : s.copies.get? name = some lent)
    (usable : s.usable lent.home = .ok site) (options : Refresh.Options) :
    s.perform (.update name options) =
      (((lent.item.draft.update options site.reconciler
          (site.store.liveValues site.reconciler)).1.mapError .failed).map fun _ => .done,
        s.putDraft name lent (lent.item.draft.update options site.reconciler
          (site.store.liveValues site.reconciler)).2) := by
  simp [perform, answered, Session.update, named_eq_ok_iff.2 opened, usable]

/-- In a session that can be reached, an update of an open copy whose site can be used, with a
reconciler that never gives up, is refused if a current key is added, modified or removed in the
copy while the options do not admit this, and only then. What it is refused for is such a key, and
everything stays as it is. -/
theorem reachable_update_refused_iff (reached : Reachable s)
    (opened : s.copies.get? name = some lent) (usable : s.usable lent.home = .ok site)
    (total : site.reconciler.Total) (options : Refresh.Options) :
    ∃ roster, site.store.roster? site.store.revision = some roster ∧
      ((∃ refusal, (s.perform (.update name options)).1 = .error refusal) ↔
        ∃ k ∈ roster.keys,
          k ∈ lent.item.draft.added ∧ options.failOnAdd = true ∨
          k ∈ lent.item.draft.touched ∧ options.failOnModify = true ∨
          k ∈ lent.item.draft.removed ∧ options.failOnRemove = true) ∧
      ∀ refusal, (s.perform (.update name options)).1 = .error refusal →
        (s.perform (.update name options)).2 = s ∧
          ∃ k ∈ roster.keys, ∃ staging, lent.item.draft.Clashes options k staging ∧
            refusal = .failed (.rule (.conflict staging lent.item.draft.revision)) := by
  obtain ⟨logs, sound⟩ := reached.sound
  have kept := (sound.stores _ site (usable_eq_ok_iff.1 usable).1).kept
  obtain ⟨roster, current⟩ := kept.current
  have shown (k : K) : (site.store.shown site.reconciler k).isSome = true ↔ k ∈ roster.keys :=
    Store.isSome_shown kept total current
  have asked : site.store.liveValues site.reconciler lent.item.draft.staged =
      .ok (pairsOf (site.store.shown site.reconciler) lent.item.draft.staged) := by
    rw [Store.liveValues_eq kept total]
  have failed_iff (refusal : Refusal) :
      (s.perform (.update name options)).1 = .error refusal ↔ ∃ failure,
        (lent.item.draft.update options site.reconciler
          (site.store.liveValues site.reconciler)).1 = .error failure ∧
          refusal = .failed failure := by
    rw [perform_update opened usable]
    cases (lent.item.draft.update options site.reconciler
      (site.store.liveValues site.reconciler)).1 <;> simp [Except.mapError, Except.map, eq_comm]
  refine ⟨roster, current, ?_, fun refusal failed => ?_⟩
  · have refused := Draft.update_refused_iff total asked options
    simp only [failed_iff, exists_comm.trans (exists_congr fun _ => exists_eq_right), refused]
    simp only [← Draft.exists_clashes_iff, exists_and_left, shown]
  · obtain ⟨failure, conflict, rfl⟩ := (failed_iff refusal).1 failed
    obtain ⟨same, k, staging, valued, clashes, rfl⟩ := Draft.update_of_error total asked conflict
    refine ⟨?_, k, (shown k).1 valued, staging, clashes, rfl⟩
    rw [perform_update opened usable, same, putDraft_self opened]

/-- A copy modifies one key and removes another one, and then the first one is removed from its
site as well. -/
def clashing : Session Nat Nat :=
  (start (trialSpecs .earliestPrior) 0).run
    [.checkout 0 "a", .add "a" 1 5, .add "a" 2 6, .commit "a" none,
      .checkout 0 "b", .read "b" 1, .remove "b" 2, .checkout 0 "c", .remove "c" 1, .commit "c" none]

/-- The update is refused for the removed key, which is current, but not for the modified one. -/
theorem reachable_update_refused_iff_clashing :
    Reachable clashing ∧
      (∃ refusal, (clashing.perform (.update "b" .strict)).1 = .error refusal ∧
        (clashing.perform (.update "b" .strict)).2 = clashing) ∧
      ¬ ∃ refusal, (clashing.perform (.update "b" ⟨true, true, false, .merge⟩)).1 =
        .error refusal := by
  have reached : Reachable clashing := .run (.start _ _) _
  obtain ⟨lent, opened⟩ : ∃ lent, clashing.copies.get? "b" = some lent := ⟨_, rfl⟩
  have copy : (clashing.copies.get? "b").map (fun lent => (lent.home, lent.item.draft.added,
      lent.item.draft.touched, lent.item.draft.removed)) = some (0, [], [1], [2]) := by decide
  simp only [opened, Option.map_some, Option.some.injEq, Prod.mk.injEq] at copy
  obtain ⟨home, added, touched, removed⟩ := copy
  obtain ⟨site, usable⟩ : ∃ site, clashing.usable 0 = .ok site := ⟨_, rfl⟩
  have there := (usable_eq_ok_iff.1 usable).1
  have plain : site.reconciler = .plain := by
    have plain : clashing.sites[0]?.map (·.reconciler) = some .plain := rfl
    simpa [there] using plain
  have keys : (clashing.sites[0]?.bind fun site => site.store.roster? site.store.revision) =
    some ⟨2, 0, [2]⟩ := by decide
  rw [there, Option.bind_some] at keys
  have refused (options : Refresh.Options) := reachable_update_refused_iff reached opened
    (home ▸ usable) (plain ▸ Reconciler.total_plain) options
  refine ⟨reached, ?_, ?_⟩
  · obtain ⟨roster, current, refused, unchanged⟩ := refused .strict
    obtain rfl := Option.some.inj (keys.symm.trans current)
    obtain ⟨refusal, failed⟩ := refused.2 ⟨2, by simp, .inr (.inr ⟨by simp [removed], rfl⟩)⟩
    exact ⟨refusal, failed, (unchanged refusal failed).1⟩
  · obtain ⟨roster, current, refused, -⟩ := refused ⟨true, true, false, .merge⟩
    obtain rfl := Option.some.inj (keys.symm.trans current)
    rw [refused]
    simp [added, touched]

end Session

end RevisionStore
