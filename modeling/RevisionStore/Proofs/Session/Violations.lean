import RevisionStore.Proofs.Violations
import RevisionStore.Proofs.Session.Commits

/-!
# No action reports an internal violation

In a session that can be reached stores are well kept and drafts are well staged, so that the
checks for internal violations never fail, on no site and in no action
(`Sound.perform_avoids`), and every commit that succeeds writes all that it is to write
(`reachable_internal`).
-/

namespace RevisionStore

open Store (Publication recordAdded recordModified recordDeleted)

variable {K V : Type}

namespace Session

variable {s : Session K V} {logs : Nat → List (Commit K V)} {i : Nat} {name : String}

/-! ## Looking things up -/

theorem site_avoids (i : Nat) : Avoids Refusal.isInternal (s.site i) := by
  simp only [site]
  split
  next => exact .ok _
  next => exact .error rfl

theorem usable_avoids (i : Nat) : Avoids Refusal.isInternal (s.usable i) := by
  simp only [usable]
  split
  next failed => exact .error (site_avoids i _ failed)
  next =>
    split
    next => exact .error rfl
    next => exact .ok _

theorem named_avoids {α : Type} (handles : Dict String α) (name : String) :
    Avoids Refusal.isInternal (named handles name) := by
  simp only [named]
  split
  next => exact .ok _
  next => exact .error rfl

theorem ask_avoids {α : Type} {question : Site K V → Recollection K V → Except Failure α}
    (avoids : ∀ site, s.sites[i]? = some site →
      Avoids Failure.isInternal (question site (s.recallOf site))) :
    Avoids Refusal.isInternal (s.ask i question) := by
  simp only [ask]
  split
  next failed => exact .error (usable_avoids i _ failed)
  next site usable => exact (avoids site (usable_eq_ok_iff.1 usable).1).mapError fun _ => rfl

theorem settle_avoids {α : Type} {d : Draft K V} {outcome : Except Failure (α × Draft K V)}
    (avoids : Avoids Failure.isInternal outcome) :
    Avoids Failure.isInternal (settle d outcome).1 := by
  simp only [settle]
  split
  next => exact .error (avoids _ rfl)
  next => exact .ok _

variable [DecidableEq K]

theorem fetch_avoids (home : Nat) (r : Revision) (k : K) :
    Avoids Failure.isInternal (s.fetch home r k) := by
  simp only [fetch]
  split
  next => exact .error rfl
  next => exact Store.getAt_avoids

theorem onDraft_avoids {α : Type}
    {work : Draft K V → (K → Except Failure (Option V)) → Except Failure α × Draft K V}
    (avoids : ∀ lent fetch, s.copies.get? name = some lent →
      (∀ k, Avoids Failure.isInternal (fetch k)) →
        Avoids Failure.isInternal (work lent.item.draft fetch).1) :
    Avoids Refusal.isInternal (s.onDraft name work).1 := by
  simp only [onDraft]
  split
  next failed => exact .error (named_avoids _ _ _ failed)
  next lent opened =>
    exact (avoids lent _ (named_eq_ok_iff.1 opened) (fetch_avoids _ _)).mapError fun _ => rfl

/-! ## Operations -/

theorem expire_avoids (i : Nat) : Avoids Refusal.isInternal (s.expire i).1 := by
  simp only [Session.expire]
  split
  next failed => exact .error (usable_avoids i _ failed)
  next => exact .ok _

theorem close_avoids (target : Option Nat) :
    Avoids Refusal.isInternal (s.close name target).1 := by
  simp only [Session.close]
  split
  next failed => exact .error (named_avoids _ _ _ failed)
  next lent _ =>
    split
    next failed => exact .error (site_avoids _ _ failed)
    next =>
      split
      next => exact .error rfl
      next =>
        have passed := ({ s with copies := s.copies.erase name }.release lent).expire_avoids
          (target.getD lent.home)
        split
        next failed => rw [failed] at passed; exact .error (passed _ rfl)
        next => exact .ok _

omit [DecidableEq K] in
theorem shareKeeper_avoids (source : Nat) :
    Avoids Refusal.isInternal (s.shareKeeper i source).1 := by
  simp only [shareKeeper]
  split
  next failed => exact .error (site_avoids i _ failed)
  next =>
    split
    next failed => exact .error (usable_avoids source _ failed)
    next =>
      split
      next failed => exact .error (usable_avoids i _ failed)
      next => exact .ok _

theorem readSnapshot_avoids (k : K) : Avoids Refusal.isInternal (s.readSnapshot name k).1 := by
  simp only [readSnapshot]
  split
  next failed => exact .error (named_avoids _ _ _ failed)
  next =>
    split
    next failed => exact .error (Snapshot.read_avoids (fetch_avoids _ _) k _ failed)
    next => exact .ok _

namespace Sound

theorem checkout_avoids (sound : s.Sound logs) (i : Nat) :
    Avoids Refusal.isInternal (s.checkout i name).1 := by
  simp only [Session.checkout]
  split
  next failed => exact .error (site_avoids i _ failed)
  next =>
    split
    next => exact .error rfl
    next =>
      split
      next failed => exact .error (usable_avoids i _ failed)
      next site usable =>
        have kept := (sound.stores i site (usable_eq_ok_iff.1 usable).1).kept
        split
        next failure failed => exact .error (kept.checkout_avoids failure failed)
        next => exact .ok _

theorem commit_avoids (sound : s.Sound logs) (target : Option Nat) :
    Avoids Refusal.isInternal (s.commit name target).1 := by
  intro refusal refused
  obtain early | ⟨lent, site, failure, opened, there, failed, rfl⟩ :=
    exists_of_commit_eq_error refused
  · simp only [List.mem_cons, List.not_mem_nil, or_false] at early
    obtain rfl | rfl | rfl | rfl := early <;> rfl
  · have staged := (sound.registered opened there).staged
    exact (sound.stores _ site there).kept.commit_avoids staged _ _ failure failed

theorem update_avoids (sound : s.Sound logs) (options : Refresh.Options) :
    Avoids Refusal.isInternal (s.update name options).1 := by
  unfold Session.update
  split
  next failed => exact .error (named_avoids _ _ _ failed)
  next lent _ =>
    simp only
    split
    next failed =>
      split
      next => exact .ok _
      next => exact .error (usable_avoids _ _ failed)
    next site usable =>
      have kept := (sound.stores _ site (usable_eq_ok_iff.1 usable).1).kept
      exact (Draft.update_avoids (fun ks => kept.liveValues_avoids ks) options).mapError
        fun _ => rfl

theorem updateWithFlags_avoids (sound : s.Sound logs) (flags : Refresh.Flags) :
    Avoids Refusal.isInternal (s.updateWithFlags name flags).1 := by
  simp only [updateWithFlags]
  split
  next failed => exact .error (named_avoids _ _ _ failed)
  next =>
    split
    next => exact .error rfl
    next => exact sound.update_avoids _

theorem stepCursor_avoids (sound : s.Sound logs) (cursor : String) (value? : Option V) :
    Avoids Refusal.isInternal (s.stepCursor cursor name value?).1 := by
  simp only [stepCursor]
  split
  next failed => exact .error (named_avoids _ _ _ failed)
  next c _ =>
    split
    next failed => exact .error (named_avoids _ _ _ failed)
    next lent opened =>
      obtain ⟨_, _, registered⟩ := sound.copies name lent (named_eq_ok_iff.1 opened)
      exact (registered.staged.next_avoids (fetch_avoids _ _) c).mapError fun _ => rfl

theorem takeSnapshot_avoids (sound : s.Sound logs) (i : Nat) :
    Avoids Refusal.isInternal (s.takeSnapshot i name).1 := by
  have roster : Avoids Refusal.isInternal (s.ask i fun site _ => site.store.currentRoster) :=
    ask_avoids fun site there => (sound.stores i site there).kept.currentRoster_avoids
  simp only [takeSnapshot]
  split
  next failed => exact .error (site_avoids i _ failed)
  next =>
    split
    next => exact .error rfl
    next =>
      split
      next failed => exact .error (roster _ failed)
      next => exact .ok _

end Sound

/-! ## Grids -/

theorem valueAt_avoids (i : Nat) (r : Revision) (k : K) :
    Avoids Refusal.isInternal (s.valueAt i r k) :=
  ask_avoids fun _ _ => Store.getAt_avoids

theorem grid_avoids (i : Nat) (rs : List Revision) (ks : List K) :
    Avoids Refusal.isInternal (s.grid i rs ks) := by
  simp only [grid]
  split
  next failed => exact .error (site_avoids i _ failed)
  next =>
    refine Avoids.mapM fun r _ => (Avoids.mapM fun k _ => ?_).map _
    simp only [cell]
    split
    next => exact .ok _
    next => exact .ok _
    next failed => exact .error (valueAt_avoids i r k _ failed)

/-- A cell shows what a read reports. -/
theorem cell_avoids {r : Revision} {k : K} {shown : Except StoreError (Option V)}
    (found : s.cell i r k = .ok shown) : Avoids StoreError.isInternal shown := by
  simp only [cell] at found
  split at found
  next => cases found; exact .ok _
  next failed => cases found; exact .error (valueAt_avoids i r k _ failed)
  next => cases found

/-- No cell of a grid shows an internal violation. -/
theorem grid_cells_avoid {rs : List Revision} {ks : List K}
    {rows : List (Revision × List (Except StoreError (Option V)))}
    (answered : s.grid i rs ks = .ok rows) :
    ∀ row ∈ rows, ∀ shown ∈ row.2, Avoids StoreError.isInternal shown := by
  intro row member shown among
  simp only [grid] at answered
  split at answered
  next => cases answered
  next =>
    obtain ⟨r, _, row_eq⟩ := exists_of_mem_mapM answered member
    cases cells : ks.mapM (s.cell i r) with
    | error refusal => simp [cells, Except.map] at row_eq
    | ok shown' =>
      simp only [cells, Except.map, Except.ok.injEq] at row_eq
      subst row_eq
      obtain ⟨k, _, found⟩ := exists_of_mem_mapM cells among
      exact cell_avoids found

/-! ## Actions -/

/-- No action of a sound session fails with an internal violation. -/
theorem Sound.perform_avoids (sound : s.Sound logs) (action : Action K V) :
    Avoids Refusal.isInternal (s.perform action).1 := by
  have kept (i : Nat) (site : Site K V) (there : s.sites[i]? = some site) : site.store.WellKept :=
    (sound.stores i site there).kept
  have staged (name : String) (lent : Lent (WorkingCopy K V))
      (opened : s.copies.get? name = some lent) : lent.item.draft.WellStaged := by
    obtain ⟨_, _, registered⟩ := sound.copies name lent opened
    exact registered.staged
  cases action with
  | revision | retained | historyRevisions | lookup | active =>
    refine Avoids.map (ask_avoids fun _ _ => ?_) _
    exact .ok _
  | size i | keys i =>
    exact (ask_avoids fun site there => (kept i site there).currentRoster_avoids.map _).map _
  | isEmpty i =>
    exact (ask_avoids fun site there =>
      ((kept i site there).currentRoster_avoids.map _).map _).map _
  | keysAt i r => exact (ask_avoids fun _ _ => Store.rosterAt_avoids.map _).map _
  | rosterAt i r => exact (ask_avoids fun _ _ => Store.rosterAt_avoids).map _
  | contains i k | containsAt i r k =>
    exact (ask_avoids fun _ _ => Store.visible_avoids.map _).map _
  | get i k =>
    refine Avoids.map (ask_avoids fun _ _ => ?_) _
    exact Store.getAt_avoids
  | getAt i r k => exact (valueAt_avoids i r k).map _
  | describe i => exact ((site_avoids i).map _).map _
  | grid i rs ks => exact (grid_avoids i rs ks).map _
  | asMap i => exact (ask_avoids fun site there => (kept i site there).asMap_avoids).map _
  | mergeValues i repository own =>
    exact (ask_avoids fun site _ => site.reconciler.merged_avoids repository own).map _
  | archive i => exact ((site_avoids i).map _).map _
  | wait milliseconds => exact .ok _
  | checkout i name => exact (sound.checkout_avoids i).map _
  | commit name target => exact (sound.commit_avoids target).map _
  | close name target => exact (close_avoids target).map _
  | expire i => exact (expire_avoids i).map _
  | shareKeeper i source => exact (shareKeeper_avoids source).map _
  | setReconciler | setPolicy | setKeeper =>
    refine Avoids.map ?_ _
    simp only [setReconciler, setPolicy, setKeeper]
    split
    next failed => exact .error (usable_avoids _ _ failed)
    next => exact .ok _
  | drop | makeCursor | cloneCursor | closeSnapshot =>
    refine Avoids.map ?_ _
    simp only [Session.drop, makeCursor, cloneCursor, closeSnapshot]
    split
    next failed => exact .error (named_avoids _ _ _ failed)
    next => exact .ok _
  | drainArchive i =>
    refine Avoids.map ?_ _
    simp only [drainArchive]
    split
    next failed => exact .error (site_avoids i _ failed)
    next => split <;> exact .ok _
  | copyInfo | keyStatus | snapshotInfo => exact (named_avoids _ _).map _
  | read name k =>
    exact (onDraft_avoids fun _ _ _ avoids => settle_avoids (Draft.read_avoids avoids k)).map _
  | readIndex name i =>
    exact (onDraft_avoids fun _ _ _ avoids => settle_avoids (Draft.readIndex_avoids avoids i)).map _
  | edit name k v =>
    exact (onDraft_avoids fun _ _ _ avoids => settle_avoids (Draft.edit_avoids avoids k v)).map _
  | editIndex name i v =>
    exact (onDraft_avoids fun _ _ _ avoids =>
      settle_avoids (Draft.editIndex_avoids avoids i v)).map _
  | add | revert => exact (onDraft_avoids fun _ _ _ _ => .ok _).map _
  | replace name k v =>
    refine Avoids.map (onDraft_avoids fun lent _ _ _ => ?_) _
    cases replaced : lent.item.draft.replace k v with
    | error rule => exact .error (Draft.not_isInternal_of_replace replaced)
    | ok d => exact .ok _
  | remove name k =>
    refine Avoids.map (onDraft_avoids fun lent _ _ _ => ?_) _
    cases removed : lent.item.draft.remove k with
    | error rule => exact .error (Draft.not_isInternal_of_remove removed)
    | ok answer => exact .ok _
  | update name options => exact (sound.update_avoids options).map _
  | updateWithFlags name flags => exact (sound.updateWithFlags_avoids flags).map _
  | walk name =>
    exact (onDraft_avoids fun lent _ opened avoids =>
      (staged name lent opened).walk_avoids avoids _ _ _).map _
  | stepCursor cursor name value? => exact (sound.stepCursor_avoids cursor value?).map _
  | takeSnapshot i name => exact (sound.takeSnapshot_avoids i).map _
  | readSnapshot name k => exact (readSnapshot_avoids k).map _

/-- A commit that succeeds publishes what was prepared, on the site of the copy. -/
theorem published_of_perform_commit {target : Option Nat} {answer : Answer K V}
    (succeeded : (s.perform (.commit name target)).1 = .ok answer) :
    ∃ lent site p, s.copies.get? name = some lent ∧ s.sites[lent.home]? = some site ∧
      site.store.prepare site.reconciler lent.item.draft = .ok p ∧
      (s.perform (.commit name target)).2 =
        s.putSite lent.home { site with store := site.store.publish s.clock p } := by
  obtain ⟨lent, site, store, opened, _, usable, committed, _, after⟩ :=
    perform_commit_eq_ok_iff.1 (Prod.ext succeeded rfl)
  obtain ⟨p, prepared, rfl⟩ := Store.commit_eq_ok_iff.1 committed
  exact ⟨lent, site, p, opened, (usable_eq_ok_iff.1 usable).1, prepared, after⟩

/-- In a session that can be reached, whatever was done and whatever policies, archives and
reconcilers do: no action fails with an internal violation, and no cell of a grid shows one. And
if a commit succeeds, there is a history under each modified and each removed key at the time at
which the change of the key is recorded, so that no change is left out. -/
theorem reachable_internal (reached : Reachable s) :
    (∀ action, Avoids Refusal.isInternal (s.perform action).1) ∧
      (∀ i rs ks rows, (s.perform (.grid i rs ks)).1 = .ok (.grid rows) →
        ∀ row ∈ rows, ∀ shown ∈ row.2, Avoids StoreError.isInternal shown) ∧
      ∀ name target answer, (s.perform (.commit name target)).1 = .ok answer →
        ∃ lent site p, s.copies.get? name = some lent ∧ s.sites[lent.home]? = some site ∧
          site.store.prepare site.reconciler lent.item.draft = .ok p ∧
          (s.perform (.commit name target)).2 =
            s.putSite lent.home { site with store := site.store.publish s.clock p } ∧
          p.modified.map (·.1) = lent.item.draft.touched ∧
          p.removed = lent.item.draft.removed ∧
          let next := site.store.revision + 1
          let withAdded := p.added.foldl (recordAdded next) site.store.histories
          let withModified := p.modified.foldl (recordModified next) withAdded
          (∀ before entry after, p.modified = before ++ entry :: after →
            ∃ h, (before.foldl (recordModified next) withAdded).get? entry.1 = some h) ∧
          ∀ before k after, p.removed = before ++ k :: after →
            ∃ h, (before.foldl (recordDeleted next) withModified).get? k = some h := by
  obtain ⟨logs, sound⟩ := reached.sound
  refine ⟨sound.perform_avoids, fun i rs ks rows answer => ?_, fun name target answer ok => ?_⟩
  · have shown : s.grid i rs ks = .ok rows := by
      cases grid : s.grid i rs ks with
      | error refusal => simp [perform, told, grid, Except.map] at answer
      | ok rows' =>
        simp only [perform, told, grid, Except.map, Except.ok.injEq, Answer.grid.injEq] at answer
        rw [answer]
    exact grid_cells_avoid shown
  · obtain ⟨lent, site, p, opened, there, prepared, after⟩ := published_of_perform_commit ok
    have ready := Store.prepare_eq_ok_iff.1 prepared
    refine ⟨lent, site, p, opened, there, prepared, after, ready.map_fst_modified, ready.removed,
      fun before entry after split => ?_, fun before k after split => ?_⟩
    · exact Option.isSome_iff_exists.1 (ready.filed_of_modified _ split)
    · exact Option.isSome_iff_exists.1 (ready.filed_of_removed _ split)

/-- A copy modifies one key and removes another, whose history has been pruned. -/
def pendingActions : List (Action Nat Nat) :=
  [.checkout 0 "a", .add "a" 1 5, .add "a" 2 6, .commit "a" none, .checkout 0 "b",
    .replace "b" 2 7, .commit "b" none, .close "a" none, .close "b" none,
    .checkout 0 "c", .replace "c" 1 8, .remove "c" 2]

def pending : Session Nat Nat :=
  (start (trialSpecs .earliestPrior) 0).run pendingActions

theorem reachable_pending : Reachable pending :=
  .run (.start _ _) _

/-- The copy can be committed, and there are histories to write to. -/
theorem reachable_internal_pending : ∃ (site : Site Nat Nat) (p : Publication Nat Nat) (v : Nat),
    pending.sites[0]? = some site ∧ p.modified = [(1, v)] ∧ p.removed = [2] ∧
      (∃ h, (p.added.foldl (recordAdded (site.store.revision + 1))
        site.store.histories).get? 1 = some h) ∧
      ∃ h, (p.modified.foldl (recordModified (site.store.revision + 1))
        (p.added.foldl (recordAdded (site.store.revision + 1))
          site.store.histories)).get? 2 = some h := by
  obtain ⟨_, _, commits⟩ := reachable_internal reachable_pending
  obtain ⟨lent, site, p, opened, there, _, _, modified, removed, finds, finds'⟩ :=
    commits "c" none (.number 3) rfl
  have copy : (pending.copies.get? "c").map (fun lent =>
      (lent.home, lent.item.draft.touched, lent.item.draft.removed)) = some (0, [1], [2]) := by
    decide
  simp only [opened, Option.map_some, Option.some.injEq, Prod.mk.injEq] at copy
  rw [copy.1] at there
  rw [copy.2.1] at modified
  rw [copy.2.2] at removed
  obtain ⟨⟨k, v⟩, entry, same⟩ := List.map_eq_singleton_iff.1 modified
  obtain rfl : k = 1 := same
  exact ⟨site, p, v, there, entry, removed, finds [] (1, v) [] entry, finds' [] 2 [] removed⟩

end Session

end RevisionStore
