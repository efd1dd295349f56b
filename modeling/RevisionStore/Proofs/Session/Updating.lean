import RevisionStore.Proofs.Session.Drafts
import RevisionStore.Proofs.Store.Current

/-!
# What an update refreshes

An update that succeeds refreshes what a copy holds for its modified keys that are current, from
clones of the values in which their histories end, and leaves everything else of the copy alone
(`reachable_update_refreshes`). A key that is both modified and added comes up twice among what
is staged. It is refreshed twice then, and a merge may well show it.
-/

namespace RevisionStore

variable {K V : Type} [DecidableEq K]

namespace Store

/-- What a refresh from a store that succeeds makes of a draft, key by key. -/
structure Refreshes (s : Store K V) (reconciler : Reconciler V) (mode : Refresh.Mode)
    (d d' : Draft K V) : Prop where
  base : d'.base = d.base
  added : d'.added = d.added
  touched : d'.touched = d.touched
  removed : d'.removed = d.removed
  -- a modified key is refreshed from a clone of its current value
  once : ∀ k ∈ d.touched, k ∉ d.added → ∀ head, s.leading? k = some head →
    ∃ w, reconciler.clone head = .ok w ∧
      Draft.Reconciles reconciler w mode (d.local? k) (d'.local? k)
  -- and if it is added as well, it is refreshed once more
  twice : ∀ k ∈ d.touched, k ∈ d.added → ∀ head, s.leading? k = some head →
    ∃ w once?, reconciler.clone head = .ok w ∧
      Draft.Reconciles reconciler w mode (d.local? k) once? ∧
      Draft.Reconciles reconciler w mode once? (d'.local? k)
  others : ∀ k, k ∉ d.touched ∨ s.leading? k = none → d'.local? k = d.local? k

variable {s : Store K V} {reconciler : Reconciler V} {options : Refresh.Options}
  {d : Draft K V}

/-- A refresh that succeeds has been offered clones of the current values of all staged keys. -/
theorem WellKept.liveValues_of_update (kept : s.WellKept)
    (succeeded : (d.update options reconciler (s.liveValues reconciler)).1 = .ok ()) :
    s.liveValues reconciler d.staged = .ok (pairsOf (s.shown reconciler) d.staged) ∧
      ∀ k ∈ d.staged, ∀ v, s.leading? k = some v → (s.shown reconciler k).isSome = true := by
  suffices ∃ found, s.liveValues reconciler d.staged = .ok found by
    obtain ⟨found, asked⟩ := this
    obtain ⟨rfl, cloned⟩ := (liveValues_eq_ok_iff kept).1 asked
    exact ⟨asked, cloned⟩
  by_cases nothing : d.staged = []
  · exact ⟨_, (liveValues_eq_ok_iff kept).2 ⟨rfl, by simp [nothing]⟩⟩
  · exact Draft.exists_live_of_update nothing succeeded

/-- A refresh that succeeds refreshes the modified keys that are current. -/
theorem WellKept.refreshes (kept : s.WellKept) (staged : d.WellStaged)
    (succeeded : (d.update options reconciler (s.liveValues reconciler)).1 = .ok ()) :
    s.Refreshes reconciler options.mode d
      (d.update options reconciler (s.liveValues reconciler)).2 := by
  have refreshed := Draft.Refreshed.of_rewrites
    (d.rewrites_update options reconciler (s.liveValues reconciler))
  obtain ⟨asked, cloned⟩ := kept.liveValues_of_update succeeded
  have reconciled {k : K} {head : V} (touched : k ∈ d.touched)
      (leading : s.leading? k = some head) : ∃ w, reconciler.clone head = .ok w ∧
        Draft.Reconciled reconciler w options.mode (if k ∈ d.added then 2 else 1) (d.local? k)
          ((d.update options reconciler (s.liveValues reconciler)).2.local? k) := by
    obtain ⟨w, shown⟩ := Option.isSome_iff_exists.1
      (cloned k (by simp [Draft.staged, touched]) head leading)
    refine ⟨w, ?_, staged.reconciled_update asked succeeded touched shown⟩
    simpa [Store.shown, leading, toOption_eq_some_iff] using shown
  refine ⟨refreshed.base, refreshed.added, refreshed.touched, refreshed.removed, ?_, ?_, ?_⟩
  · intro k touched unadded head leading
    obtain ⟨w, cloned, reconciled⟩ := reconciled touched leading
    rw [if_neg unadded, Draft.reconciled_one_iff] at reconciled
    exact ⟨w, cloned, reconciled⟩
  · intro k touched added head leading
    obtain ⟨w, cloned, reconciled⟩ := reconciled touched leading
    rw [if_pos added, Draft.reconciled_two_iff] at reconciled
    obtain ⟨once?, first, second⟩ := reconciled
    exact ⟨w, once?, cloned, first, second⟩
  · rintro k (untouched | gone)
    · exact refreshed.spared k untouched
    · exact Draft.local?_update_of_none asked succeeded (by simp [shown, gone])

theorem Refreshes.of_staged_nil {mode : Refresh.Mode} (nothing : d.staged = []) :
    s.Refreshes reconciler mode d d := by
  have untouched := Draft.touched_eq_nil_of_staged nothing
  refine ⟨rfl, rfl, rfl, rfl, ?_, ?_, fun _ _ => rfl⟩
  · simp [untouched]
  · simp [untouched]

end Store

namespace Session

variable {s : Session K V} {name : String} {options : Refresh.Options}
  {lent : Lent (WorkingCopy K V)} {answer : Answer K V}

/-- An update that succeeds looks at the site of the copy, unless nothing is staged. -/
theorem perform_update_of_ok (opened : s.copies.get? name = some lent)
    (succeeded : (s.perform (.update name options)).1 = .ok answer) :
    (lent.item.draft.staged = [] ∧ s.perform (.update name options) = (.ok .done, s)) ∨
      ∃ site d, s.usable lent.home = .ok site ∧
        lent.item.draft.update options site.reconciler (site.store.liveValues site.reconciler) =
          (.ok (), d) ∧
        s.perform (.update name options) = (.ok .done, s.putDraft name lent d) := by
  simp only [perform, answered, Session.update, named_eq_ok_iff.2 opened] at succeeded ⊢
  cases usable : s.usable lent.home with
  | error refusal =>
    simp only [usable] at succeeded ⊢
    split at succeeded
    next empty => exact .inl ⟨by simpa using empty, by simp [empty, Except.map]⟩
    next => cases succeeded
  | ok site =>
    simp only [usable] at succeeded ⊢
    cases updated : lent.item.draft.update options site.reconciler
        (site.store.liveValues site.reconciler) with
    | mk outcome d =>
      cases outcome with
      | error failure => simp [updated, Except.mapError, Except.map] at succeeded
      | ok _ => exact .inr ⟨site, d, rfl, updated, rfl⟩

/-- In a session that can be reached, an update that succeeds changes what the copy holds for its
modified keys that are current, and nothing else. Each of them is refreshed from a clone of the
value in which its history ends: once, or twice in a row if the copy has added it as well. -/
theorem reachable_update_refreshes (reached : Reachable s)
    (opened : s.copies.get? name = some lent)
    (succeeded : (s.perform (.update name options)).1 = .ok answer) :
    ∃ site lent', s.sites[lent.home]? = some site ∧
      (∃ roster, site.store.roster? site.store.revision = some roster ∧
        ∀ k, k ∈ roster.keys ↔ (site.store.leading? k).isSome = true) ∧
      (s.perform (.update name options)).2.sites = s.sites ∧
      (s.perform (.update name options)).2.copies.get? name = some lent' ∧
      lent'.home = lent.home ∧ lent'.item.id = lent.item.id ∧
      site.store.Refreshes site.reconciler options.mode lent.item.draft lent'.item.draft := by
  obtain ⟨logs, sound⟩ := reached.sound
  obtain ⟨site, there, registered⟩ := sound.copies name lent opened
  have kept := (sound.stores _ site there).kept
  obtain ⟨roster, current⟩ := kept.current
  have live (k : K) : k ∈ roster.keys ↔ (site.store.leading? k).isSome = true := by
    rw [kept.live roster current, kept.isSome_leading?]
  obtain ⟨nothing, performed⟩ | ⟨site', d, usable, updated, performed⟩ :=
    perform_update_of_ok opened succeeded
  · rw [performed]
    exact ⟨site, lent, there, ⟨roster, current, live⟩, rfl, opened, rfl, rfl,
      .of_staged_nil nothing⟩
  · obtain rfl := Option.some.inj (there.symm.trans (usable_eq_ok_iff.1 usable).1)
    have refreshes := kept.refreshes registered.staged
      (show (lent.item.draft.update options _ _).1 = .ok () by rw [updated])
    rw [updated] at refreshes
    rw [performed]
    exact ⟨site, _, there, ⟨roster, current, live⟩, rfl, Dict.get?_put_self _ _ _, rfl, rfl,
      refreshes⟩

/-- Numbers, of which a merge is the sum. -/
def summing : Reconciler Nat where
  clone v := .ok v
  merge repository own := .ok (repository + own)

/-- A copy replaces one key, and reads another one and adds it as well. -/
def twofold : Session Nat Nat :=
  (start [⟨summing, .latestPrior, Retention.Plan.standard.policy, .discarding⟩] 0).run
    [.checkout 0 "a", .add "a" 1 5, .add "a" 2 7, .commit "a" none,
      .checkout 0 "b", .replace "b" 2 3, .read "b" 1, .add "b" 1 6]

/-- The store's value goes once into what is held for the one key, and twice for the other. -/
theorem reachable_update_refreshes_twofold :
    Reachable twofold ∧
      (twofold.perform (.update "b" (.lenient .merge))).1 = .ok .done ∧
      ∃ lent', (twofold.perform (.update "b" (.lenient .merge))).2.copies.get? "b" = some lent' ∧
        lent'.item.draft.local? 2 = some (7 + 3) ∧
        lent'.item.draft.local? 1 = some (5 + (5 + 6)) := by
  have reached : Reachable twofold := .run (.start _ _) _
  obtain ⟨lent, opened⟩ : ∃ lent, twofold.copies.get? "b" = some lent := ⟨_, rfl⟩
  have done : (twofold.perform (.update "b" (.lenient .merge))).1 = .ok .done := rfl
  obtain ⟨site, lent', there, -, -, after, -, -, refreshes⟩ :=
    reachable_update_refreshes reached opened done
  have copy : (twofold.copies.get? "b").map (fun lent => (lent.home, lent.item.draft.added,
      lent.item.draft.touched, lent.item.draft.local? 1, lent.item.draft.local? 2)) =
    some (0, [1], [2, 1], some 6, some 3) := rfl
  simp only [opened, Option.map_some, Option.some.injEq, Prod.mk.injEq] at copy
  obtain ⟨home, added, touched, first, second⟩ := copy
  have current : twofold.sites[0]?.map (fun site =>
      (site.reconciler, site.store.leading? 1, site.store.leading? 2)) =
    some (summing, some 5, some 7) := rfl
  rw [← home] at current
  simp only [there, Option.map_some, Option.some.injEq, Prod.mk.injEq] at current
  obtain ⟨reconciler, leading, leading'⟩ := current
  rw [reconciler] at refreshes
  refine ⟨reached, done, lent', after, ?_, ?_⟩
  · obtain ⟨w, cloned, merged⟩ := refreshes.once 2 (by simp [touched]) (by simp [added]) 7 leading'
    cases cloned
    rw [second] at merged
    obtain ⟨_, sum, held⟩ := Draft.reconciles_merge_iff.1 merged
    cases sum
    exact held
  · obtain ⟨w, once?, cloned, merged, again⟩ :=
      refreshes.twice 1 (by simp [touched]) (by simp [added]) 5 leading
    cases cloned
    rw [first] at merged
    obtain ⟨_, sum, rfl⟩ := Draft.reconciles_merge_iff.1 merged
    cases sum
    obtain ⟨_, sum, held⟩ := Draft.reconciles_merge_iff.1 again
    cases sum
    exact held

/-- The held 6 becomes 16, where one merge with the store's 5 makes 11. -/
theorem twofold_merges_twice :
    Reachable twofold ∧
      (twofold.copies.get? "b").map (fun lent =>
        (lent.home, lent.item.draft.touched, lent.item.draft.local? 1)) =
          some (0, [2, 1], some 6) ∧
      twofold.sites[0]?.map (fun site => (site.reconciler, site.store.leading? 1)) =
        some (summing, some 5) ∧
      summing.merge 5 6 = .ok 11 ∧
      (twofold.perform (.update "b" (.lenient .merge))).1 = .ok .done ∧
      ((twofold.perform (.update "b" (.lenient .merge))).2.copies.get? "b").map
        (·.item.draft.local? 1) = some (some 16) :=
  ⟨.run (.start _ _) _, rfl, rfl, rfl, rfl, rfl⟩

end Session

end RevisionStore
