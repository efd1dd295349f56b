import RevisionStore.Proofs.Lifecycle
import RevisionStore.Proofs.Session.Sound
import RevisionStore.Proofs.Store.Acceptance

/-!
# Commits of a session

When a commit is refused, and what is left of it then (`reachable_commit_refused_iff`); and
what the successful commits of a run make of each key (`run_lifecycles`). The latter goes
through the log of the run, which is `Orderly` because every store checks a commit against
its own current state: expiry leaves alone what these checks look at.
-/

namespace RevisionStore

variable {K V : Type} [DecidableEq K]

namespace Store.Extended

variable {s s' : Store K V} {c : Commit K V} {log : List (Commit K V)}

/-- A commit that a store has taken fits the contents of its log. -/
theorem fits (extended : s.Extended c s') (sound : s.Sound log) (staged : c.draft.WellStaged) :
    c.Fits (contentsAt log log.length) := by
  have leading : contentsAt log log.length = s.leading? := by
    rw [funext sound.tracks.leading, sound.tracks.length]
  rw [leading]
  refine ⟨staged, ?_, ?_, ?_⟩
  · intro k added
    have dead := extended.fresh k added
    rw [← sound.kept.isSome_leading?] at dead
    simpa using dead
  · intro k changed
    rw [sound.kept.isSome_leading?]
    exact extended.live k changed
  · intro k kind does
    have made : c.change? s.leading? (s.revision + 1) k =
        some ⟨k, c.after s.leading? k, kind, s.revision + 1⟩ := by simp [Commit.change?, does]
    have coherent := extended.coherent k _ made
    rw [coherent, Change.isTombstone]
    cases kind <;> rfl

/-- What is filed at the new revision is what the commit does to each key. -/
theorem kind_filed (extended : s.Extended c s') (kept : s.WellKept) (k : K) :
    ((s'.histories.get? k).bind (·.changeAt? s'.revision)).map (·.kind) = c.kind? k := by
  rw [extended.revision]
  obtain ⟨nothing, _, same⟩ | ⟨change, does, made, _, written⟩ := extended.change?_eq_none_or k
  · rw [same, nothing]
    cases filed : s.histories.get? k with
    | none => rfl
    | some h =>
      cases found : h.changeAt? (s.revision + 1) with
      | none => simp [found]
      | some c' =>
        obtain ⟨member, revision⟩ := History.changeAt?_eq_some_iff.1 found
        have bounded := (kept.filed k h filed).bounded c' member
        rw [revision] at bounded
        exact absurd bounded (Nat.not_succ_le_self _)
  · obtain ⟨_, _, revision, _⟩ := Commit.of_change?_eq_some made
    have member := History.mem_of_head? (head?_insert kept made)
    rw [written, Option.bind_some, History.changeAt?_eq_some_iff.2 ⟨member, revision⟩, does]
    rfl

end Store.Extended

namespace Session

variable {s : Session K V} {logs : Nat → List (Commit K V)} {i : Nat} {site : Site K V}
  {name : String} {target : Option Nat} {lent : Lent (WorkingCopy K V)} {action : Action K V}
  {c : Commit K V}

/-! ## Refusals -/

/-- A commit succeeds if the site of the copy can be used and takes the draft. What is left then
is the session with the new store in the place of the old one. -/
theorem perform_commit_eq_ok_iff {answer : Answer K V} {t : Session K V} :
    s.perform (.commit name target) = (.ok answer, t) ↔
      ∃ lent site store, s.copies.get? name = some lent ∧ target.getD lent.home = lent.home ∧
        s.usable lent.home = .ok site ∧
        site.store.commit site.reconciler s.clock lent.item.draft = .ok store ∧
        answer = .number store.revision ∧ t = s.putSite lent.home { site with store := store } := by
  constructor
  · simp only [perform, answered, Session.commit]
    split
    next => intro impossible; cases impossible
    next lent opened =>
      split
      next => intro impossible; cases impossible
      next site located =>
        split
        next => intro impossible; cases impossible
        next home =>
          split
          next => intro impossible; cases impossible
          next sane =>
            have home : target.getD lent.home = lent.home := not_ne_iff.1 home
            rw [home] at located ⊢
            have usable : s.usable lent.home = .ok site :=
              usable_eq_ok_iff.2 ⟨site_eq_ok_iff.1 located, by simpa using sane⟩
            split
            next store taken =>
              intro succeeded
              cases succeeded
              exact ⟨lent, site, store, named_eq_ok_iff.1 opened, home, usable, taken, rfl, rfl⟩
            next => intro impossible; cases impossible
            next => intro impossible; cases impossible
  · rintro ⟨lent, site, store, opened, home, usable, taken, rfl, rfl⟩
    obtain ⟨there, sane⟩ := usable_eq_ok_iff.1 usable
    simp [perform, answered, Session.commit, named_eq_ok_iff.2 opened, site_eq_ok_iff.2 there, home,
      sane, taken, Except.map]

/-- A commit is refused because there is nothing to be committed or no site to commit it to, or
because the store of the copy does not take the draft. -/
theorem exists_of_commit_eq_error {refusal : Refusal}
    (failed : (s.commit name target).1 = .error refusal) :
    refusal ∈ [.noHandle, .noSite, .failed (.rule .foreignCopy), .failed (.refused .poisoned)] ∨
      ∃ lent site failure, s.copies.get? name = some lent ∧ s.sites[lent.home]? = some site ∧
        site.store.commit site.reconciler s.clock lent.item.draft = .error failure ∧
        refusal = .failed failure := by
  simp only [Session.commit] at failed
  split at failed
  next missing =>
    simp only [named] at missing
    split at missing <;> cases missing
    cases failed
    exact .inl (by simp)
  next lent opened =>
    split at failed
    next missing =>
      simp only [Session.site] at missing
      split at missing <;> cases missing
      cases failed
      exact .inl (by simp)
    next site located =>
      split at failed
      next => cases failed; exact .inl (by simp)
      next home =>
        split at failed
        next => cases failed; exact .inl (by simp)
        next =>
          have home : target.getD lent.home = lent.home := not_ne_iff.1 home
          have there : s.sites[lent.home]? = some site := site_eq_ok_iff.1 (home ▸ located)
          have opened := named_eq_ok_iff.1 opened
          split at failed
          next => cases failed
          next refused => cases failed; exact .inr ⟨lent, site, _, opened, there, refused, rfl⟩
          next raised => cases failed; exact .inr ⟨lent, site, _, opened, there, raised, rfl⟩

section Outcomes

variable (opened : s.copies.get? name = some lent)
  (usable : s.usable (target.getD lent.home) = .ok site)
include opened usable

theorem perform_commit_of_foreign (foreign : target.getD lent.home ≠ lent.home) :
    s.perform (.commit name target) = (.error (.failed (.rule .foreignCopy)), s) := by
  obtain ⟨there, _⟩ := usable_eq_ok_iff.1 usable
  simp [perform, answered, Session.commit, named_eq_ok_iff.2 opened, site_eq_ok_iff.2 there,
    foreign, Except.map]

variable (home : target.getD lent.home = lent.home)
include home

theorem perform_commit_of_ok {store : Store K V}
    (taken : site.store.commit site.reconciler s.clock lent.item.draft = .ok store) :
    (s.perform (.commit name target)).1 = .ok (.number store.revision) := by
  rw [home] at usable
  rw [perform_commit_eq_ok_iff.2 ⟨lent, site, store, opened, home, usable, taken, rfl, rfl⟩]

theorem perform_commit_of_refused {cause : StoreError}
    (refused : site.store.commit site.reconciler s.clock lent.item.draft =
      .error (.refused cause)) :
    s.perform (.commit name target) = (.error (.failed (.refused cause)), s) := by
  rw [home] at usable
  obtain ⟨there, sound⟩ := usable_eq_ok_iff.1 usable
  simp [perform, answered, Session.commit, named_eq_ok_iff.2 opened, site_eq_ok_iff.2 there, home,
    sound, refused, Except.map]

end Outcomes

/-- A commit of an open copy to a site that can be used, with a reconciler that never gives
up, is refused if the copy belongs to another site, adds a current key, modifies or removes
a key that is not current, or holds no value for a key that it modifies, and only then; and
if it is refused, everything stays as it is. -/
theorem reachable_commit_refused_iff (reached : Reachable s)
    (opened : s.copies.get? name = some lent)
    (usable : s.usable (target.getD lent.home) = .ok site) (total : site.reconciler.Total) :
    ∃ roster, site.store.roster? site.store.revision = some roster ∧
      ((∃ refusal, (s.perform (.commit name target)).1 = .error refusal) ↔
        target.getD lent.home ≠ lent.home ∨
          (∃ k ∈ lent.item.draft.added, k ∈ roster.keys) ∨
          (∃ k, (k ∈ lent.item.draft.touched ∨ k ∈ lent.item.draft.removed) ∧ k ∉ roster.keys) ∨
          ∃ k ∈ lent.item.draft.touched, lent.item.draft.local? k = none) ∧
      ∀ refusal, (s.perform (.commit name target)).1 = .error refusal →
        (s.perform (.commit name target)).2 = s := by
  obtain ⟨logs, sound⟩ := reached.sound
  have there := (usable_eq_ok_iff.1 usable).1
  have kept := (sound.stores _ site there).kept
  obtain ⟨roster, current⟩ := kept.current
  refine ⟨roster, current, ?_⟩
  by_cases foreign : target.getD lent.home ≠ lent.home
  · rw [perform_commit_of_foreign opened usable foreign]
    exact ⟨⟨fun _ => .inl foreign, fun _ => ⟨_, rfl⟩⟩, fun _ _ => rfl⟩
  · have home : target.getD lent.home = lent.home := not_ne_iff.1 foreign
    have staged := (sound.registered opened (home ▸ there)).staged
    have refused : (¬ ∃ s', site.store.commit site.reconciler s.clock lent.item.draft = .ok s') ↔
        target.getD lent.home ≠ lent.home ∨
          (∃ k ∈ lent.item.draft.added, k ∈ roster.keys) ∨
          (∃ k, (k ∈ lent.item.draft.touched ∨ k ∈ lent.item.draft.removed) ∧ k ∉ roster.keys) ∨
          ∃ k ∈ lent.item.draft.touched, lent.item.draft.local? k = none := by
      rw [Store.exists_commit_iff kept staged total current]
      simp only [foreign, false_or, not_and_or, not_forall, not_not, Option.not_isSome_iff_eq_none,
        exists_prop]
    rw [← refused]
    cases outcome : site.store.commit site.reconciler s.clock lent.item.draft with
    | ok store => simp [perform_commit_of_ok opened usable home outcome]
    | error failure =>
      cases failure with
      | refused cause => simp [perform_commit_of_refused opened usable home outcome]
      | fault cause => exact absurd outcome (Store.commit_ne_fault total)

/-- Two copies add one key, and one of them has been committed. -/
def raced : Session Nat Nat :=
  (start (trialSpecs .latestPrior) 0).run
    [.checkout 0 "a", .checkout 0 "b", .add "a" 1 5, .add "b" 1 6, .commit "a" none]

/-- The other one is refused, and nothing happens. -/
theorem reachable_commit_refused_iff_raced :
    ∃ refusal, (raced.perform (.commit "b" none)).1 = .error refusal ∧
      (raced.perform (.commit "b" none)).2 = raced := by
  obtain ⟨lent, opened⟩ : ∃ lent, raced.copies.get? "b" = some lent := ⟨_, rfl⟩
  have copy : (raced.copies.get? "b").map (fun lent => (lent.home, lent.item.draft.added)) =
    some (0, [1]) := by decide
  simp only [opened, Option.map_some, Option.some.injEq, Prod.mk.injEq] at copy
  obtain ⟨home, added⟩ := copy
  obtain ⟨site, usable⟩ : ∃ site, raced.usable 0 = .ok site := ⟨_, rfl⟩
  have there := (usable_eq_ok_iff.1 usable).1
  have plain : site.reconciler = .plain := by
    have plain : raced.sites[0]?.map (·.reconciler) = some .plain := rfl
    simpa [there] using plain
  have current : (raced.sites[0]?.bind fun site => site.store.roster? site.store.revision) =
    some ⟨1, 0, [1]⟩ := by decide
  have usable' : raced.usable ((none : Option Nat).getD lent.home) = .ok site := by
    simpa [home] using usable
  obtain ⟨roster, found, refused, unchanged⟩ := reachable_commit_refused_iff
    (.run (.start _ _) _) opened usable' (plain ▸ Reconciler.total_plain)
  rw [there, Option.bind_some, found] at current
  obtain rfl := Option.some.inj current
  obtain ⟨refusal, failed⟩ := refused.2 (.inr (.inl ⟨1, by simp [added], by simp⟩))
  exact ⟨refusal, failed, unchanged refusal failed⟩

/-! ## The commits of a run -/

/-- What an action has committed extends the store it was committed to. -/
theorem Sound.extended_of_committed? (sound : s.Sound logs)
    (committed : s.committed? i action = some c) :
    ∃ site site', s.sites[i]? = some site ∧ (s.perform action).2.sites[i]? = some site' ∧
      c.draft.WellStaged ∧ site.store.Extended c site'.store := by
  have turn := s.perform_turn action
  generalize (s.perform action).2 = t at turn
  cases turn with
  | moved moves silent => simp [silent i] at committed
  | reconciled asked there =>
    subst asked
    simp [committed?] at committed
  | @committed name lent site store opened there succeeded logged =>
    rw [logged i] at committed
    split at committed
    next home =>
      subst home
      obtain rfl := Option.some.inj committed
      have staged := (sound.registered opened there).staged
      have kept := (sound.stores _ site there).kept
      exact ⟨site, { site with store := store }, there, by simp [getElem?_putSite there], staged,
        Store.extended_of_commit kept staged succeeded⟩
    next => cases committed

/-- Runs keep the log of a site orderly. -/
theorem Sound.orderly_run (sound : s.Sound logs) (orderly : Orderly (logs i))
    (actions : List (Action K V)) : Orderly (logs i ++ s.commits i actions) := by
  induction actions generalizing s logs with
  | nil => simpa [commits] using orderly
  | cons action rest ih =>
    have next : Orderly (logs i ++ (s.committed? i action).toList) := by
      cases committed : s.committed? i action with
      | none => simpa using orderly
      | some c =>
        obtain ⟨site, site', there, _, staged, extended⟩ :=
          sound.extended_of_committed? committed
        exact orderly.concat (extended.fits (sound.stores i site there) staged)
    simpa [commits] using ih (sound.perform action) next

/-- In every run of a fresh session: each commit stages a key once at most; the kinds of the
changes that successive commits make to a key are the beginning of a word of the protocol;
between two commits that add a key lies one that removes it; and each commit adds keys that
are not current and changes keys that are, whatever has expired. What it does to a key is
what its store has filed for the new revision. -/
theorem run_lifecycles (specs : List (SiteSpec K V)) (clock : Nat) (actions : List (Action K V))
    (i : Nat) :
    (∀ c ∈ (start specs clock).commits i actions, c.draft.staged.Nodup) ∧
      (∀ k, ∃ word ∈ ChangeKind.lives.matches',
        ((start specs clock).commits i actions).filterMap (·.kind? k) <+: word) ∧
      (∀ (m n : Nat) (c c' : Commit K V) (k : K), m < n →
        ((start specs clock).commits i actions)[m]? = some c →
        ((start specs clock).commits i actions)[n]? = some c' →
        k ∈ c.draft.added → k ∈ c'.draft.added →
          ∃ (j : Nat) (removal : Commit K V), m < j ∧ j < n ∧
            ((start specs clock).commits i actions)[j]? = some removal ∧
              k ∈ removal.draft.removed) ∧
      ∀ action c, ((start specs clock).run actions).committed? i action = some c →
        ∃ site site' roster, ((start specs clock).run actions).sites[i]? = some site ∧
          (((start specs clock).run actions).perform action).2.sites[i]? = some site' ∧
          site.store.roster? site.store.revision = some roster ∧
          (∀ k ∈ c.draft.added, k ∉ roster.keys) ∧
          (∀ k, k ∈ c.draft.touched ∨ k ∈ c.draft.removed → k ∈ roster.keys) ∧
          site'.store.revision = site.store.revision + 1 ∧
          ∀ k, ((site'.store.histories.get? k).bind
            (·.changeAt? site'.store.revision)).map (·.kind) = c.kind? k := by
  have orderly : Orderly ((start specs clock).commits i actions) := by
    simpa using (Sound.start specs clock).orderly_run Orderly.nil actions
  refine ⟨?_, ?_, ?_, ?_⟩
  · intro c member
    obtain ⟨n, found⟩ := List.mem_iff_getElem?.1 member
    exact (orderly n c found).nodup_staged
  · intro k
    have lifecycle := orderly.lifecycle k ((start specs clock).commits i actions).length
    rw [List.take_length] at lifecycle
    exact lifecycle.exists_word
  · intro m n c c' k before first second added added'
    exact orderly.exists_removal_of_additions before first second added added'
  · intro action c committed
    have sound := sound_run specs clock actions
    obtain ⟨site, site', there, there', _, extended⟩ := sound.extended_of_committed? committed
    have kept := (sound.stores i site there).kept
    obtain ⟨roster, current⟩ := kept.current
    refine ⟨site, site', roster, there, there', current, ?_, ?_, extended.revision,
      extended.kind_filed kept⟩
    · intro k added listed
      have live := (kept.live roster current k).1 listed
      rw [extended.fresh k added] at live
      cases live
    · intro k changed
      exact (kept.live roster current k).2 (extended.live k changed)

/-- The key of the trial is in its second life. -/
example : ((start (trialSpecs .latestPrior) 0).commits 0 trialActions).filterMap (·.kind? 1) =
    [.added, .deleted, .added] := by decide

end Session

end RevisionStore
