import RevisionStore.Proofs.Session.Sound
import RevisionStore.Proofs.Store.Course

/-!
# The course of a session

`Session.Follows` relates a session to one that some actions lead to: every store has gone
its course, and every copy is an earlier one whose draft has evolved or has a number that
was not given out before. Numbers are not given out twice, so a copy that is open at both
ends under one number is the same copy (`Follows.continues`).

With what stores keep in their course this makes reads at pinned revisions stable
(`reachable_pinned_reads`).
-/

namespace RevisionStore

variable {K V : Type} [DecidableEq K]

/-- A copy and what has become of it. -/
structure Lent.Continues (lent lent' : Lent (WorkingCopy K V)) : Prop where
  home : lent'.home = lent.home
  id : lent'.item.id = lent.item.id
  evolves : lent.item.draft.Evolves lent'.item.draft

/-- `t` comes after `s`, by some actions. -/
structure Session.Follows (s : Session K V) (actions : List (Action K V)) (t : Session K V) :
    Prop where
  length : t.sites.length = s.sites.length
  sites : ∀ (i : Nat) (site : Site K V), s.sites[i]? = some site →
    ∃ site', t.sites[i]? = some site' ∧ site.store.Course site'.store ∧
      (site'.reconciler = site.reconciler ∨ .setReconciler i site'.reconciler ∈ actions)
  copies : ∀ name lent', t.copies.get? name = some lent' →
    (∃ lent, s.copies.get? name = some lent ∧ lent.Continues lent') ∨
      ∀ site, s.sites[lent'.home]? = some site → site.store.nextCheckout ≤ lent'.item.id.number

namespace Lent.Continues

variable {lent lent' lent'' : Lent (WorkingCopy K V)}

theorem refl (lent : Lent (WorkingCopy K V)) : lent.Continues lent :=
  ⟨rfl, rfl, .refl⟩

theorem trans (first : lent.Continues lent') (second : lent'.Continues lent'') :
    lent.Continues lent'' :=
  ⟨second.home.trans first.home, second.id.trans first.id, first.evolves.trans second.evolves⟩

end Lent.Continues

namespace Session

variable {s t u : Session K V} {actions further : List (Action K V)} {i : Nat}
  {site site' : Site K V} {logs : Nat → List (Commit K V)}
  {name name' : String} {lent lent' : Lent (WorkingCopy K V)}

namespace Follows

/-- Sites as they were, and copies that are all earlier ones. -/
theorem of_copies (sites : t.sites = s.sites)
    (copies : ∀ name lent', t.copies.get? name = some lent' →
      ∃ lent, s.copies.get? name = some lent ∧ lent.Continues lent') :
    s.Follows actions t where
  length := congrArg _ sites
  sites _ site there := ⟨site, sites ▸ there, .refl, .inl rfl⟩
  copies name lent' opened := .inl (copies name lent' opened)

theorem of_eq (sites : t.sites = s.sites) (copies : t.copies = s.copies) : s.Follows actions t := by
  apply of_copies sites
  intro name lent opened
  exact ⟨lent, copies ▸ opened, .refl lent⟩

theorem putSite (there : s.sites[i]? = some site) (course : site.store.Course site'.store)
    (reconciler : site'.reconciler = site.reconciler ∨
      .setReconciler i site'.reconciler ∈ actions) :
    s.Follows actions (s.putSite i site') where
  length := by simp [Session.putSite]
  sites j found there' := by
    rw [getElem?_putSite there]
    by_cases same : j = i
    · subst same
      obtain rfl := Option.some.inj (there.symm.trans there')
      exact ⟨site', by simp, course, reconciler⟩
    · exact ⟨found, by simp [same, there'], .refl, .inl rfl⟩
  copies name lent opened := .inl ⟨lent, opened, .refl lent⟩

theorem mono (follows : s.Follows actions t) (more : actions ⊆ further) : s.Follows further t where
  length := follows.length
  sites i site there := by
    obtain ⟨site', there', course, reconciler⟩ := follows.sites i site there
    exact ⟨site', there', course, reconciler.imp_right fun asked => more asked⟩
  copies := follows.copies

theorem trans (first : s.Follows actions t) (second : t.Follows further u) :
    s.Follows (actions ++ further) u where
  length := second.length.trans first.length
  sites i site there := by
    obtain ⟨site', there', course, reconciler⟩ := first.sites i site there
    obtain ⟨site'', there'', course', reconciler'⟩ := second.sites i site' there'
    refine ⟨site'', there'', course.trans course', ?_⟩
    cases reconciler' with
    | inl same =>
      rw [same]
      exact reconciler.imp_right fun asked => List.mem_append_left _ asked
    | inr asked => exact .inr (List.mem_append_right _ asked)
  copies name lent'' opened'' := by
    cases second.copies name lent'' opened'' with
    | inl before =>
      obtain ⟨lent', opened', continues'⟩ := before
      cases first.copies name lent' opened' with
      | inl before =>
        obtain ⟨lent, opened, continues⟩ := before
        exact .inl ⟨lent, opened, continues.trans continues'⟩
      | inr fresh =>
        rw [continues'.home, continues'.id]
        exact .inr fresh
    | inr fresh =>
      -- a number that is fresh in between is fresh at first, since numbers are counted up
      apply Or.inr
      intro site there
      obtain ⟨site', there', course, _⟩ := first.sites _ site there
      exact Nat.le_trans course.grows.2 (fresh site' there')

theorem trans_nil (first : s.Follows actions t) (second : t.Follows [] u) :
    s.Follows actions u := by
  simpa using first.trans second

/-- A site comes from one at the same place, and its reconciler from there or from an action. -/
theorem reconciler (follows : s.Follows actions t) (there' : t.sites[i]? = some site') :
    (∃ site, s.sites[i]? = some site ∧ site'.reconciler = site.reconciler) ∨
      .setReconciler i site'.reconciler ∈ actions := by
  have bound : i < s.sites.length := follows.length ▸ (List.getElem?_eq_some_iff.1 there').1
  have there : s.sites[i]? = some s.sites[i] := List.getElem?_eq_getElem bound
  obtain ⟨found, there'', _, reconciler⟩ := follows.sites i _ there
  obtain rfl := Option.some.inj (there''.symm.trans there')
  exact reconciler.imp_left fun same => ⟨_, there, same⟩

/-- What is open at both ends under one number is one copy. -/
theorem continues (follows : s.Follows actions t) (sound : s.Sound logs)
    (opened : s.copies.get? name = some lent) (opened' : t.copies.get? name' = some lent')
    (home : lent'.home = lent.home) (id : lent'.item.id = lent.item.id) :
    lent.Continues lent' := by
  cases follows.copies name' lent' opened' with
  | inl before =>
    obtain ⟨found, there, continues⟩ := before
    have named : name' = name := sound.apart _ _ _ _ there opened
      (continues.home.symm.trans home) (continues.id.symm.trans id)
    subst named
    obtain rfl := Option.some.inj (there.symm.trans opened)
    exact continues
  | inr fresh =>
    obtain ⟨site, there, registered⟩ := sound.copies name lent opened
    have spent := (sound.stores _ site there).numbered _ registered.registered
    have unspent := fresh site (home ▸ there)
    rw [id] at unspent
    exact absurd spent (Nat.not_lt_of_le unspent)

end Follows

/-! ## Every action is followed -/

theorem Move.follows (move : Move s t) : s.Follows [] t := by
  cases move with
  | aside sites copies => exact .of_eq sites copies
  | @handed _ i warden archive site there sites copies =>
    have handed : s.Follows [] (s.putSite i { site with warden := warden, archive := archive }) :=
      .putSite there .refl (.inl rfl)
    exact handed.trans_nil (.of_eq sites copies)
  | poisoned there raised => exact .putSite there .refl (.inl rfl)
  | @opened i name site id base store there free made =>
    have grown : s.Follows [] (s.putSite i { site with store := store }) :=
      .putSite there (.single (.opened made)) (.inl rfl)
    refine ⟨grown.length, grown.sites, fun name' lent' opened => ?_⟩
    rw [Dict.get?_put] at opened
    split at opened
    next =>
      obtain rfl := Option.some.inj opened
      apply Or.inr
      intro found there'
      obtain rfl := Option.some.inj (there.symm.trans there')
      obtain ⟨_, rfl, _⟩ := Store.checkout_eq_ok_iff.1 made
      exact Nat.le_refl _
    next => exact .inl ⟨lent', opened, .refl lent'⟩
  | @redrafted name lent d opened evolves =>
    refine .of_copies rfl fun name' lent' opened' => ?_
    simp only [putDraft, Dict.get?_put] at opened'
    split at opened'
    next same =>
      obtain rfl := Option.some.inj opened'
      exact ⟨lent, same ▸ opened, rfl, rfl, evolves⟩
    next => exact ⟨lent', opened', .refl lent'⟩
  | @left name lent opened =>
    have erased : s.Follows [] { s with copies := s.copies.erase name } := by
      refine .of_copies rfl fun name' lent' opened' => ?_
      have there : s.copies.get? name' = some lent' := by
        by_cases same : name' = name
        · simp [same] at opened'
        · simpa [Dict.get?_erase, same] using opened'
      exact ⟨lent', there, .refl lent'⟩
    simp only [Session.release]
    split
    next => exact erased
    next site usable =>
      have there := (usable_eq_ok_iff.1 usable).1
      have released := Store.Step.released site.store lent.item.id
      exact erased.trans_nil (.putSite there (.single released) (.inl rfl))
  | @passed i site there =>
    have passed : s.Follows [] (s.putSite i
        { site with store := (site.store.expire (s.keeperOf site) s.clock).2.1 }) :=
      .putSite there (Store.course_expire _ _ _) (.inl rfl)
    exact passed.trans_nil (.of_eq rfl rfl)

theorem follows_of_moves (moves : Moves s t) : s.Follows [] t := by
  induction moves with
  | refl => exact .of_eq rfl rfl
  | tail _ move ih => exact ih.trans_nil move.follows

theorem Sound.follows_perform (sound : s.Sound logs) (action : Action K V) :
    s.Follows [action] (s.perform action).2 := by
  have turn := s.perform_turn action
  generalize (s.perform action).2 = t at turn
  cases turn with
  | moved moves silent => exact (follows_of_moves moves).mono (List.nil_subset _)
  | reconciled asked there =>
    exact .putSite there .refl (.inr (asked ▸ List.mem_cons_self))
  | committed opened there succeeded logged =>
    have staged := (sound.registered opened there).staged
    exact .putSite there (.single (.committed staged succeeded)) (.inl rfl)

theorem Sound.follows_run (sound : s.Sound logs) (actions : List (Action K V)) :
    s.Follows actions (s.run actions) := by
  induction actions generalizing s logs with
  | nil => exact .of_eq rfl rfl
  | cons action rest ih => exact (sound.follows_perform action).trans (ih (sound.perform action))

/-! ## Pinned reads -/

/-- Whatever is done to a session that can be reached, be it one action or many: what is
visible at a revision that is retained before and after stays the same, for every key and
whatever the archives recall. For a key that is listed there it is what one filed change has
to say, and so it is for the keys of the base of a copy that is open before and after, even
if the base itself has been given up. -/
theorem reachable_pinned_reads (reached : Reachable s) (actions : List (Action K V))
    (there : s.sites[i]? = some site) :
    ∃ site', (s.run actions).sites[i]? = some site' ∧
      (∀ r ∈ site.store.retained, r ∈ site'.store.retained → ∀ k recollect recollect',
        site'.store.visible recollect' r k = site.store.visible recollect r k) ∧
      (∀ roster ∈ site.store.rosters, roster.revision ∈ site'.store.retained → ∀ k ∈ roster.keys,
        ∃ c, site.store.Answers roster.revision k c ∧ site'.store.Answers roster.revision k c) ∧
      ∀ name name' lent lent', s.copies.get? name = some lent → lent.home = i →
        (s.run actions).copies.get? name' = some lent' → lent'.home = i →
        lent'.item.id = lent.item.id →
          lent'.item.draft.base = lent.item.draft.base ∧ ∀ k ∈ lent.item.draft.base.keys,
            ∃ c, site.store.Answers lent.item.draft.revision k c ∧
              site'.store.Answers lent.item.draft.revision k c := by
  obtain ⟨logs, sound⟩ := reached.sound
  have follows := sound.follows_run actions
  obtain ⟨site', there', course, _⟩ := follows.sites i site there
  have store := sound.stores i site there
  refine ⟨site', there', ?_, ?_, ?_⟩
  · intro r retained retained' k recollect recollect'
    exact course.visible store retained retained' recollect recollect' k
  · intro roster member retained' k listed
    obtain ⟨roster', member', same⟩ := List.mem_map.1 retained'
    exact course.answers store (.inl ⟨roster, member, rfl⟩) (.inl ⟨roster', member', same⟩)
      ((store.tracks.listed roster member k).1 listed)
  · intro name name' lent lent' opened home opened' home' id
    subst home
    have continues := follows.continues sound opened opened' home' id
    have base := continues.evolves.base
    have registered := sound.registered opened there
    refine ⟨base, fun k listed => ?_⟩
    have watched : site'.store.Watched lent.item.draft.revision := by
      have registered' := (sound.run actions).registered opened' (home'.symm ▸ there')
      have watched' := registered'.watched
      rwa [Draft.revision, base] at watched'
    exact course.answers store registered.watched watched ((registered.listed k).1 listed)

/-- Two copies of revision 1, one of which commits. The site gives up revision 1 when it is
asked to. -/
def pinned : Session Nat Nat :=
  (start [⟨.plain, .earliestPrior, .select true [1], .discarding⟩] 0).run
    [.checkout 0 "a", .add "a" 1 5, .commit "a" none,
      .checkout 0 "b", .checkout 0 "c", .replace "c" 1 7, .commit "c" none]

theorem reachable_pinned : Reachable pinned :=
  .run (.start _ _) _

/-- The other copy reads what it read before when its base has been given up. -/
theorem reachable_pinned_reads_given_up :
    ∃ site site' lent, pinned.sites[0]? = some site ∧
      (pinned.run [.expire 0]).sites[0]? = some site' ∧ pinned.copies.get? "b" = some lent ∧
        1 ∈ site.store.retained ∧ 1 ∉ site'.store.retained ∧
          ∃ c, site.store.Answers lent.item.draft.revision 1 c ∧
            site'.store.Answers lent.item.draft.revision 1 c := by
  obtain ⟨site, there⟩ : ∃ site, pinned.sites[0]? = some site := ⟨_, rfl⟩
  obtain ⟨lent, opened⟩ : ∃ lent, pinned.copies.get? "b" = some lent := ⟨_, rfl⟩
  obtain ⟨site', there', _, _, copies⟩ :=
    reachable_pinned_reads reachable_pinned [.expire 0] there
  have before : pinned.sites[0]?.map (·.store.retained) = some [0, 1, 2] := by decide
  have after : (pinned.run [.expire 0]).sites[0]?.map (·.store.retained) = some [0, 2] := by decide
  have copy : (pinned.copies.get? "b").map (fun lent => (lent.home, lent.item.draft.base.keys)) =
    some (0, [1]) := by decide
  have still : (pinned.run [.expire 0]).copies.get? "b" = pinned.copies.get? "b" := by rfl
  simp only [there, there', opened, Option.map_some, Option.some.injEq, Prod.mk.injEq]
    at before after copy
  obtain ⟨_, reads⟩ :=
    copies "b" "b" lent lent opened copy.1 (still.trans opened) copy.1 rfl
  refine ⟨site, site', lent, there, there', opened, by simp [before], by simp [after], ?_⟩
  exact reads 1 (by simp [copy.2])

end Session

end RevisionStore
