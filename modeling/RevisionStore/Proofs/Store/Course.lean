import RevisionStore.Proofs.Store.Sound
import Mathlib.Logic.Relation

/-!
# Watched lookups in the course of a store

`Store.Step` lists what can happen to a store, and `Store.Course` is any number of steps. A
course may give up rosters and changes, but never the change with which a lookup answers
that is watched at both ends (`Course.answers`): revisions do not become watched again once
nobody watches them, so such a lookup is watched all the way, and each step by itself leaves
its answer alone.
-/

namespace RevisionStore

namespace Store

variable {K V : Type} [DecidableEq K]

/-- One operation that changes a store. -/
inductive Step : Store K V → Store K V → Prop
  | opened {s s' : Store K V} {id : CheckoutId} {base : Roster K}
      (made : s.checkout = .ok ((id, base), s')) : Step s s'
  | released (s : Store K V) (id : CheckoutId) : Step s (s.release id)
  | swept (s : Store K V) (expires : Roster K → Bool) : Step s (s.sweep (s.doomed expires))
  | committed {s s' : Store K V} {reconciler : Reconciler V} {now : Nat} {d : Draft K V}
      (staged : d.WellStaged) (succeeded : s.commit reconciler now d = .ok s') : Step s s'

/-- Any number of steps. -/
abbrev Course : Store K V → Store K V → Prop :=
  Relation.ReflTransGen Step

/-- A lookup of `k` at `r` is answered by a change that is filed, whatever an archive recalls. -/
structure Answers (s : Store K V) (r : Revision) (k : K) (c : Change K V) : Prop where
  filed : ∃ h, s.histories.get? k = some h ∧ h.select? s.lookup r = some c
  visible : ∀ recollect, s.visible recollect r k = .ok (c.value?.map .resident)

variable {s s' : Store K V} {log : List (Commit K V)} {r : Revision} {k : K} {v : V}
  {c : Change K V} {h : History K V}

/-- A filed change that answers a watched lookup under a key that is there is what is visible. -/
theorem Sound.answers (sound : s.Sound log) (watched : s.Watched r)
    (there : contentsAt log r k = some v) (filed : s.histories.get? k = some h)
    (selected : h.select? s.lookup r = some c) : s.Answers r k c := by
  refine ⟨⟨h, filed, selected⟩, ?_⟩
  intro recollect
  obtain ⟨h', c', filed', selected', _, visible⟩ :=
    sound.tracks.visible_of_contents recollect watched there
  obtain rfl := Option.some.inj (filed.symm.trans filed')
  obtain rfl := Option.some.inj (selected.symm.trans selected')
  exact visible

/-! ## Steps -/

namespace Step

theorem sound (step : Step s s') (sound : s.Sound log) : ∃ more, s'.Sound (log ++ more) := by
  cases step with
  | opened made => exact ⟨[], by simpa using (sound.checkout made).1⟩
  | released id => exact ⟨[], by simpa using sound.release id⟩
  | swept expires => exact ⟨[], by simpa using sound.sweep expires⟩
  | committed staged succeeded => exact ⟨_, (sound.commit staged succeeded).1⟩

theorem lookup (step : Step s s') : s'.lookup = s.lookup := by
  cases step with
  | opened made =>
    obtain ⟨_, _, rfl⟩ := checkout_eq_ok_iff.1 made
    rfl
  | released id => rfl
  | swept expires => rfl
  | committed staged succeeded => exact lookup_of_commit succeeded

/-- Revisions and checkout numbers are counted up and never down. -/
theorem grows (step : Step s s') :
    s.revision ≤ s'.revision ∧ s.nextCheckout ≤ s'.nextCheckout := by
  cases step with
  | opened made =>
    obtain ⟨_, _, rfl⟩ := checkout_eq_ok_iff.1 made
    exact ⟨Nat.le_refl _, Nat.le_succ _⟩
  | released id => exact ⟨Nat.le_refl _, Nat.le_refl _⟩
  | swept expires => exact ⟨Nat.le_refl _, Nat.le_refl _⟩
  | committed staged succeeded =>
    obtain ⟨p, _, rfl⟩ := commit_eq_ok_iff.1 succeeded
    exact ⟨Nat.le_succ _, Nat.le_refl _⟩

/-- A step makes no revision watched but the current one. -/
theorem watched (step : Step s s') (kept : s.WellKept) (watched : s'.Watched r)
    (earlier : r ≤ s.revision) : s.Watched r := by
  cases step with
  | opened made =>
    obtain ⟨current, _, rfl⟩ := checkout_eq_ok_iff.1 made
    obtain listed | ⟨registration, member, rfl⟩ := watched
    · exact .inl listed
    · obtain old | new := List.mem_append.1 member
      · exact .inr ⟨registration, old, rfl⟩
      · obtain ⟨there, same⟩ := mem_of_roster? current
        rw [List.mem_singleton.1 new]
        exact .inl ⟨_, there, rfl⟩
  | released id =>
    obtain listed | ⟨registration, member, rfl⟩ := watched
    · exact .inl listed
    · exact .inr ⟨registration, (List.mem_filter.1 member).1, rfl⟩
  | swept expires => exact watched_of_watched_sweep watched
  | committed staged succeeded =>
    obtain before | same := (extended_of_commit kept staged succeeded).watched watched
    · exact before
    · rw [same] at earlier
      exact absurd earlier (Nat.not_succ_le_self _)

/-- A step leaves the change with which a lookup answers that is watched before and after. -/
theorem selected (step : Step s s') (sound : s.Sound log) (watched : s'.Watched r)
    (earlier : r ≤ s.revision) (there : contentsAt log r k = some v)
    (filed : s.histories.get? k = some h) (selected : h.select? s.lookup r = some c) :
    ∃ h', s'.histories.get? k = some h' ∧ h'.select? s'.lookup r = some c := by
  cases step with
  | opened made =>
    obtain ⟨_, _, rfl⟩ := checkout_eq_ok_iff.1 made
    exact ⟨h, filed, selected⟩
  | released id => exact ⟨h, filed, selected⟩
  | swept expires => exact sound.tracks.select?_sweep sound.kept watched there filed selected
  | committed staged succeeded =>
    have extended := extended_of_commit sound.kept staged succeeded
    exact extended.answered_of_le filed selected earlier

end Step

/-! ## Courses -/

/-- A pass is a step at most. -/
theorem course_expire (s : Store K V) (keeper : Retention.Keeper K V) (now : Nat) :
    s.Course (s.expire keeper now).2.1 := by
  cases s.expire_store keeper now with
  | inl same => rw [same]
  | inr swept =>
    obtain ⟨expires, swept⟩ := swept
    rw [swept]
    exact .single (.swept s expires)

namespace Course

theorem sound (course : Course s s') (sound : s.Sound log) : ∃ more, s'.Sound (log ++ more) := by
  induction course with
  | refl => exact ⟨[], by simpa using sound⟩
  | tail _ step ih =>
    obtain ⟨more, middle⟩ := ih
    obtain ⟨further, after⟩ := step.sound middle
    exact ⟨more ++ further, by simpa using after⟩

theorem lookup (course : Course s s') : s'.lookup = s.lookup := by
  induction course with
  | refl => rfl
  | tail _ step ih => exact step.lookup.trans ih

theorem grows (course : Course s s') :
    s.revision ≤ s'.revision ∧ s.nextCheckout ≤ s'.nextCheckout := by
  induction course with
  | refl => exact ⟨Nat.le_refl _, Nat.le_refl _⟩
  | tail _ step ih =>
    have grown := step.grows
    exact ⟨Nat.le_trans ih.1 grown.1, Nat.le_trans ih.2 grown.2⟩

/-- What is watched in the end has been watched all the way, if it was a revision at first. -/
theorem selected (course : Course s s') (sound : s.Sound log) (watched : s'.Watched r)
    (earlier : r ≤ s.revision) (there : contentsAt log r k = some v)
    (filed : s.histories.get? k = some h) (selected : h.select? s.lookup r = some c) :
    ∃ h', s'.histories.get? k = some h' ∧ h'.select? s'.lookup r = some c := by
  induction course with
  | refl => exact ⟨h, filed, selected⟩
  | @tail t s' course step ih =>
    obtain ⟨more, middle⟩ := Course.sound course sound
    have later : r ≤ t.revision := Nat.le_trans earlier (Course.grows course).1
    have before := step.watched middle.kept watched later
    obtain ⟨h', filed', selected'⟩ := ih before
    -- commits in between do not change the contents at an earlier revision
    have still : contentsAt (log ++ more) r k = some v := by
      rw [contentsAt_append_of_le (by rw [sound.tracks.length]; exact earlier)]
      exact there
    exact step.selected middle watched later still filed' selected'

/-- A lookup that is watched at both ends of a course is answered by the same filed change at
both ends, if the key is there. -/
theorem answers (course : Course s s') (sound : s.Sound log) (watched : s.Watched r)
    (watched' : s'.Watched r) (listed : (contentsAt log r k).isSome = true) :
    ∃ c, s.Answers r k c ∧ s'.Answers r k c := by
  obtain ⟨v, there⟩ := Option.isSome_iff_exists.1 listed
  have earlier := sound.tracks.watched_le r watched
  obtain ⟨h, c, filed, selected, _⟩ := sound.tracks.answered r watched k v there
  obtain ⟨h', filed', selected'⟩ := course.selected sound watched' earlier there filed selected
  obtain ⟨more, after⟩ := course.sound sound
  have still : contentsAt (log ++ more) r k = some v := by
    rw [contentsAt_append_of_le (by rw [sound.tracks.length]; exact earlier)]
    exact there
  exact ⟨c, sound.answers watched there filed selected,
    after.answers watched' still filed' selected'⟩

/-- At a revision that is retained at both ends of a course the same is visible at both ends,
whatever the archives recall. -/
theorem visible (course : Course s s') (sound : s.Sound log) (retained : r ∈ s.retained)
    (retained' : r ∈ s'.retained) (recollect recollect' : Recollection K V) (k : K) :
    s'.visible recollect' r k = s.visible recollect r k := by
  obtain ⟨roster, member, same⟩ := List.mem_map.1 retained
  obtain ⟨roster', member', same'⟩ := List.mem_map.1 retained'
  have watched : s.Watched r := .inl ⟨roster, member, same⟩
  cases there : contentsAt log r k with
  | some v =>
    have listed : (contentsAt log r k).isSome = true := by simp [there]
    obtain ⟨c, before, after⟩ :=
      course.answers sound watched (.inl ⟨roster', member', same'⟩) listed
    rw [before.visible, after.visible]
  | none =>
    obtain ⟨more, after⟩ := course.sound sound
    have still : contentsAt (log ++ more) r k = none := by
      have earlier := sound.tracks.watched_le r watched
      rw [contentsAt_append_of_le (by rw [sound.tracks.length]; exact earlier)]
      exact there
    subst same
    have found := roster?_of_mem sound.kept.ascending member
    have found' := roster?_of_mem after.kept.ascending member'
    rw [same'] at found'
    rw [sound.tracks.visible_of_not_contents found there,
      after.tracks.visible_of_not_contents found' still]

end Course

end Store

end RevisionStore
