import RevisionStore.Proofs.Draft.Refreshing
import RevisionStore.Proofs.Session.Drafts
import RevisionStore.Proofs.Session.Publishing

/-!
# What modified keys hold

A modified key should hold a value, and the commit of a draft that `Draft.Lacks` one is refused.
There is one way to lose the value: a base key can be modified and then added as well, and when
that addition is taken back the value goes with it, while the key remains modified
(`lacks_after`). In a run every modified key without a value stems from such a removal
(`run_holds_touched`).
-/

namespace RevisionStore

variable {K V : Type} [DecidableEq K]

namespace Draft

/-- A modified key for which no value is held. -/
structure Lacks (d : Draft K V) (k : K) : Prop where
  touched : k ∈ d.touched
  unheld : d.local? k = none

variable {d d' : Draft K V} {k k' : K} {v : V} {request : Request K V}

/-- What lacks a value after a value was put under `k'` lacked it before. -/
theorem Lacks.of_put {d' : Draft K V} (lacks : d'.Lacks k) (held : d'.held = d.held.put k' v)
    (touched : k ∈ d'.touched → k ∈ d.touched ∨ k = k') : d.Lacks k := by
  have unheld := lacks.unheld
  rw [local?, held, Dict.get?_put] at unheld
  split at unheld
  next => cases unheld
  next other => exact ⟨(touched lacks.touched).resolve_right other, unheld⟩

/-- No read leaves a key without a value that had one. -/
theorem Glance.lacks (glance : Glance d d') (lacks : d'.Lacks k) : d.Lacks k := by
  cases glance with
  | @hold k' v listed kept unheld =>
    have absent : d.held.contains k' = false := by
      simpa [Dict.contains, local?] using unheld
    have held : (d.holdRead k' v).held = d.held.put k' v := by simp [holdRead, absent]
    exact lacks.of_put held KeyOrder.mem_insert.1
  | overwrite k' v =>
    simp only [Draft.overwrite] at lacks
    split at lacks
    next => exact lacks.of_put rfl .inl
    next => exact lacks

theorem Glances.lacks (glances : Glances d d') (lacks : d'.Lacks k) : d.Lacks k := by
  induction glances with
  | refl => exact lacks
  | tail _ glance ih => exact ih (glance.lacks lacks)

theorem Refreshed.lacks (refreshed : d.Refreshed d') (lacks : d'.Lacks k) : d.Lacks k :=
  ⟨refreshed.touched ▸ lacks.touched, refreshed.unheld k lacks.unheld⟩

/-- A key that is both added and modified loses its value when it is removed, but not its mark. -/
theorem lacks_of_remove (added : k ∈ d.added) (touched : k ∈ d.touched) :
    ∃ d', d.remove k = .ok (true, d') ∧ d'.Lacks k :=
  ⟨_, if_pos (isAdded_iff.2 added), touched, by simp [local?]⟩

/-- No other request leaves a modified key without a value. -/
theorem lacks_after (lacks : (d.after request).Lacks k) :
    d.Lacks k ∨ request = .remove k ∧ k ∈ d.added ∧ k ∈ d.touched := by
  cases request with
  | add k' v =>
    simp only [after, Draft.add] at lacks
    split at lacks
    next => exact .inl (lacks.of_put rfl KeyOrder.mem_insert.1)
    next => exact .inl (lacks.of_put rfl .inl)
  | replace k' v =>
    simp only [after] at lacks
    cases replaced : d.replace k' v with
    | error rule => exact .inl (by simpa [replaced, Except.toOption] using lacks)
    | ok d' =>
      simp only [replaced, Except.toOption, Option.getD_some] at lacks
      cases replacement_of_replace replaced with
      | ofAdded => exact .inl (lacks.of_put rfl .inl)
      | ofListed => exact .inl (lacks.of_put rfl KeyOrder.mem_insert.1)
  | remove k' =>
    simp only [after] at lacks
    cases removed : d.remove k' with
    | error rule => exact .inl (by simpa [removed, settled] using lacks)
    | ok answer =>
      obtain ⟨b, d'⟩ := answer
      simp only [removed, settled] at lacks
      obtain ⟨touched, unheld⟩ := lacks
      cases removal_of_remove removed with
      | ofAdded added =>
        by_cases same : k = k'
        · subst same
          exact .inr ⟨rfl, added, touched⟩
        · exact .inl ⟨touched, by simpa [local?, Dict.get?_erase, same] using unheld⟩
      | ofRemoved => exact .inl ⟨touched, unheld⟩
      | ofListed =>
        obtain ⟨touched, other⟩ := KeyOrder.mem_erase.1 touched
        exact .inl ⟨touched, by simpa [local?, Dict.get?_erase, other] using unheld⟩
  | revert => exact absurd lacks.touched List.not_mem_nil
  | update options reconciler live =>
    exact .inl ((Refreshed.of_rewrites (rewrites_update options reconciler live)).lacks lacks)
  | _ => exact .inl ((glances_after rfl).lacks lacks)

end Draft

/-! ## Commits without a value -/

/-- That a commit finds no value for a modified key. -/
def Failure.isUnheld : Failure → Bool
  | .refused (.violated (.noStagedValue .modified)) => true
  | _ => false

namespace Store

variable {s : Store K V} {reconciler : Reconciler V} {d : Draft K V} {now : Nat} {k : K}

theorem modification_avoids_unheld (held : (d.local? k).isSome = true) :
    Avoids Failure.isUnheld (s.modification reconciler d k) := by
  obtain ⟨own, held⟩ := Option.isSome_iff_exists.1 held
  simp only [modification, held]
  split
  next => exact .error rfl
  next repository _ =>
    split
    next failed => exact .error (reconciler.merged_avoids repository own (fun _ => rfl) _ failed)
    next merged _ => exact (reconciler.cloned_avoids merged).map _

/-- If a commit finds no value for a modified key, there is none. -/
theorem exists_lacks_of_commit
    (failed : s.commit reconciler now d = .error (.rule (.noStagedValue .modified))) :
    ∃ k, d.Lacks k := by
  by_contra none_lacks
  have held (k : K) (touched : k ∈ d.touched) : (d.local? k).isSome = true := by
    by_contra unheld
    exact none_lacks ⟨k, touched, Option.not_isSome_iff_eq_none.1 unheld⟩
  have avoids : Avoids Failure.isUnheld (s.commit reconciler now d) := by
    refine commit_avoids ?_ (fun k _ => ?_) (fun _ k touched => ?_) ?_
    · simp only [validate]
      split
      next => exact .error rfl
      next => split; exacts [.error rfl, .ok _]
    · simp only [addition]
      split
      next => exact .error rfl
      next own _ => exact (reconciler.cloned_avoids own).map _
    · exact modification_avoids_unheld (held k touched)
    · simp only [currentRoster]
      split
      next => exact .ok _
      next => exact .error rfl
  cases avoids _ failed

end Store

namespace Session

variable {s : Session K V} {action : Action K V} {name : String}
  {lent lent' : Lent (WorkingCopy K V)} {k : K}

/-- If a commit of a copy finds no value for a modified key, there is none. -/
theorem exists_lacks_of_perform_commit {target : Option Nat}
    (failed : (s.perform (.commit name target)).1 =
      .error (.failed (.rule (.noStagedValue .modified)))) :
    ∃ lent k, s.copies.get? name = some lent ∧ lent.item.draft.Lacks k := by
  cases committed : (s.commit name target).1 with
  | ok r => simp [perform, answered, committed, Except.map] at failed
  | error refusal =>
    simp only [perform, answered, committed, Except.map, Except.error.injEq] at failed
    subst failed
    obtain early | ⟨lent, site, failure, opened, -, refused, same⟩ :=
      exists_of_commit_eq_error committed
    · simp [Failure.rule] at early
    · cases same
      obtain ⟨k, lacks⟩ := Store.exists_lacks_of_commit refused
      exact ⟨lent, k, opened, lacks⟩

/-- A copy that lacks a value after an action lacked it before, or had the key both added and
modified and was asked to remove it. -/
theorem lacks_perform (opened' : (s.perform action).2.copies.get? name = some lent')
    (lacks : lent'.item.draft.Lacks k) :
    ∃ lent, s.copies.get? name = some lent ∧ lent.Continues lent' ∧
      (lent.item.draft.Lacks k ∨
        action = .remove name k ∧ k ∈ lent.item.draft.added ∧ k ∈ lent.item.draft.touched) := by
  obtain ⟨lent, opened, under⟩ | ⟨fresh, -⟩ := (s.perform_effect action).copies opened'
  · refine ⟨lent, opened, under.continues, ?_⟩
    cases under with
    | spared => exact .inl lacks
    | @asked _ asks =>
      refine (Draft.lacks_after lacks).imp_right ?_
      rintro ⟨rfl, added, touched⟩
      cases asks
      exact ⟨rfl, added, touched⟩
  · rw [fresh] at lacks
    exact absurd lacks.touched List.not_mem_nil

/-- A copy that lacks a value at the end of a run was asked to remove a key that it had both
added and modified. -/
theorem exists_remove_of_lacks (specs : List (SiteSpec K V)) (clock : Nat)
    (actions : List (Action K V))
    (opened : ((start specs clock).run actions).copies.get? name = some lent)
    (lacks : lent.item.draft.Lacks k) :
    ∃ before after earlier, actions = before ++ .remove name k :: after ∧
      ((start specs clock).run before).copies.get? name = some earlier ∧
      earlier.Continues lent ∧ k ∈ earlier.item.draft.added ∧ k ∈ earlier.item.draft.touched := by
  induction actions using List.reverseRecOn generalizing lent with
  | nil => exact nomatch opened
  | append_singleton actions action ih =>
    rw [run_concat] at opened
    obtain ⟨before, there, continues, lacks | ⟨rfl, both⟩⟩ := lacks_perform opened lacks
    · obtain ⟨first, last, earlier, rfl, there, continued, both⟩ := ih there lacks
      exact ⟨first, last ++ [action], earlier, by simp, there, continued.trans continues, both⟩
    · exact ⟨actions, [], before, rfl, there, continues, both⟩

/-- In every run a modified key of an open copy holds a value, unless the copy had the key both
added and modified and was asked to remove it. A removal of such a key always succeeds and leaves
it modified without a value. Commits find no value for a modified key only if there is none, and
then they never succeed. -/
theorem run_holds_touched (specs : List (SiteSpec K V)) (clock : Nat) (actions : List (Action K V))
    (led : (start specs clock).run actions = s) :
    (∀ name lent k, s.copies.get? name = some lent → k ∈ lent.item.draft.touched →
      (lent.item.draft.local? k).isSome = true ∨
        ∃ before after earlier, actions = before ++ .remove name k :: after ∧
          ((start specs clock).run before).copies.get? name = some earlier ∧
          earlier.home = lent.home ∧ earlier.item.id = lent.item.id ∧
          k ∈ earlier.item.draft.added ∧ k ∈ earlier.item.draft.touched) ∧
      (∀ name lent k, s.copies.get? name = some lent → k ∈ lent.item.draft.added →
        k ∈ lent.item.draft.touched →
          ∃ d, s.perform (.remove name k) = (.ok (.flag true), s.putDraft name lent d) ∧
            k ∈ d.touched ∧ d.local? k = none) ∧
      (∀ name target, (s.perform (.commit name target)).1 =
          .error (.failed (.rule (.noStagedValue .modified))) →
        ∃ lent k, s.copies.get? name = some lent ∧ k ∈ lent.item.draft.touched ∧
          lent.item.draft.local? k = none) ∧
      ∀ name target lent k, s.copies.get? name = some lent → k ∈ lent.item.draft.touched →
        lent.item.draft.local? k = none →
          ∃ refusal, (s.perform (.commit name target)).1 = .error refusal := by
  refine ⟨fun name lent k opened touched => ?_, fun name lent k opened added touched => ?_,
    fun name target failed => ?_, fun name target lent k opened touched unheld => ?_⟩
  · cases held : lent.item.draft.local? k with
    | some own => exact .inl rfl
    | none =>
      subst led
      obtain ⟨before, after, earlier, split, there, continues, both⟩ :=
        exists_remove_of_lacks specs clock actions opened ⟨touched, held⟩
      exact .inr ⟨before, after, earlier, split, there, continues.home.symm, continues.id.symm,
        both⟩
  · obtain ⟨d, removed, lacks⟩ := Draft.lacks_of_remove added touched
    refine ⟨d, ?_, lacks.touched, lacks.unheld⟩
    simp [perform, answered, onDraft, named_eq_ok_iff.2 opened, removed, Except.map,
      Except.mapError]
  · obtain ⟨lent, k, opened, lacks⟩ := exists_lacks_of_perform_commit failed
    exact ⟨lent, k, opened, lacks.touched, lacks.unheld⟩
  · cases answered : (s.perform (.commit name target)).1 with
    | error refusal => exact ⟨refusal, rfl⟩
    | ok answer =>
      obtain ⟨lent', site, store, opened', _, usable, taken, _⟩ :=
        perform_commit_eq_ok_iff.1 (Prod.ext answered rfl)
      obtain rfl := Option.some.inj (opened.symm.trans opened')
      obtain ⟨logs, sound⟩ := (led ▸ .run (.start _ _) _ : Reachable s).sound
      have there := (usable_eq_ok_iff.1 usable).1
      have published := (sound.stores _ site there).kept.publishes
        (sound.registered opened there).staged taken
      obtain ⟨own, _, _, _, held, _⟩ := published.modified k touched
      simp [unheld] at held

/-- A copy reads a key, adds it as well and takes the addition back. -/
def carelessActions : List (Action Nat Nat) :=
  [.checkout 0 "a", .add "a" 1 5, .commit "a" none,
    .checkout 0 "b", .read "b" 1, .add "b" 1 6, .remove "b" 1]

def careless : Session Nat Nat :=
  (start (trialSpecs .latestPrior) 0).run carelessActions

/-- The lost value is traced back to the removal, and the copy cannot be committed. -/
theorem run_holds_touched_careless :
    (start (trialSpecs .latestPrior) 0).run carelessActions = careless ∧
      (∃ before after earlier, carelessActions = before ++ .remove "b" 1 :: after ∧
        ((start (trialSpecs .latestPrior) 0).run before).copies.get? "b" = some earlier ∧
        1 ∈ earlier.item.draft.added ∧ 1 ∈ earlier.item.draft.touched) ∧
      ∃ refusal, (careless.perform (.commit "b" none)).1 = .error refusal := by
  obtain ⟨traced, -, -, refused⟩ :=
    run_holds_touched (trialSpecs .latestPrior) 0 carelessActions rfl
  obtain ⟨lent, opened⟩ : ∃ lent, careless.copies.get? "b" = some lent := ⟨_, rfl⟩
  have draft : (careless.copies.get? "b").map (fun lent =>
      (lent.item.draft.touched, lent.item.draft.local? 1)) = some ([1], none) := by decide
  simp only [opened, Option.map_some, Option.some.injEq, Prod.mk.injEq] at draft
  obtain ⟨touched, unheld⟩ := draft
  have touched : 1 ∈ lent.item.draft.touched := by simp [touched]
  refine ⟨rfl, ?_, refused "b" none lent 1 opened touched unheld⟩
  obtain held | ⟨before, after, earlier, split, there, -, -, both⟩ :=
    traced "b" lent 1 opened touched
  · simp [unheld] at held
  · exact ⟨before, after, earlier, split, there, both⟩

/-- The key is modified and holds no value, and this is what the commit is refused for. -/
theorem careless_modified_without_value :
    Reachable careless ∧
      (careless.copies.get? "b").map (fun lent =>
        (lent.item.draft.touched, lent.item.draft.local? 1)) = some ([1], none) ∧
      (careless.perform (.commit "b" none)).1 =
        .error (.failed (.rule (.noStagedValue .modified))) :=
  ⟨.run (.start _ _) _, by decide, rfl⟩

end Session

end RevisionStore
