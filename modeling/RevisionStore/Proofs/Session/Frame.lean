import RevisionStore.Proofs.Session.Moves
import RevisionStore.Proofs.Store.Publication

/-!
# What actions do to snapshots and archives

Snapshots are in nobody's way: no action takes notice of them but those that take, read and
close them. Archives receive rosters and are drained, but what they recall stays the same,
and new ones are only brought in by `setKeeper`. `Session.Glance` is to snapshots and
archives what `Session.Turn` is to stores and copies.
-/

namespace RevisionStore

/-- A place may be given an element that looks the same. -/
theorem map_set_of_getD {α β : Type} {f : α → β} {l : List α} {j : Nat} {a default : α}
    (same : f a = f (l.getD j default)) : (l.set j a).map f = l.map f := by
  apply List.ext_getElem?
  intro n
  rw [List.map_set, same, List.getElem?_set]
  split
  next here =>
    subst here
    split
    next inside =>
      rw [List.length_map] at inside
      simp [inside]
    next outside => exact (List.getElem?_eq_none (Nat.le_of_not_lt outside)).symm
  next => rfl

namespace Session

variable {K V : Type}

/-- What the archives of a session recall. -/
def recollections (s : Session K V) : List (Recollection K V) :=
  s.archives.map (·.recollect)

/-- The snapshots are as before, and so is what the archives recall. -/
structure Keeps (s t : Session K V) : Prop where
  snapshots : t.snapshots = s.snapshots
  recollections : t.recollections = s.recollections

namespace Keeps

variable {s t u : Session K V} {site : Site K V}

theorem of_eq (snapshots : t.snapshots = s.snapshots) (archives : t.archives = s.archives) :
    s.Keeps t :=
  ⟨snapshots, by rw [Session.recollections, Session.recollections, archives]⟩

theorem refl (s : Session K V) : s.Keeps s :=
  of_eq rfl rfl

theorem trans (first : s.Keeps t) (second : t.Keeps u) : s.Keeps u :=
  ⟨second.snapshots.trans first.snapshots, second.recollections.trans first.recollections⟩

/-- A keeper whose archive recalls what it did can be put back. -/
theorem putKeeper {keeper : Retention.Keeper K V}
    (same : keeper.archive.recollect = s.recallOf site) : s.Keeps (s.putKeeper site keeper) :=
  ⟨rfl, map_set_of_getD same⟩

end Keeps

/-! ## Operations -/

section Operations

variable (s : Session K V) {i : Nat} {name : String}

theorem keeps_checkout : s.Keeps (s.checkout i name).2 := by
  simp only [Session.checkout]
  repeat' split
  all_goals exact .of_eq rfl rfl

theorem keeps_without (lent : Lent (WorkingCopy K V)) : s.Keeps (s.without name lent) := by
  obtain ⟨_, _, left⟩ | ⟨_, left⟩ := s.without_eq_or name lent
  · rw [left]
    exact .of_eq rfl rfl
  · rw [left]
    exact .of_eq rfl rfl

theorem keeps_drop : s.Keeps (s.drop name).2 := by
  simp only [Session.drop]
  split
  next => exact .refl s
  next lent _ => exact s.keeps_without lent

theorem keeps_makeCursor (cursor : String) : s.Keeps (s.makeCursor name cursor).2 := by
  simp only [makeCursor]
  split <;> exact .of_eq rfl rfl

theorem keeps_cloneCursor (cursor clone : String) : s.Keeps (s.cloneCursor cursor clone).2 := by
  simp only [cloneCursor]
  split <;> exact .of_eq rfl rfl

theorem keeps_setReconciler (reconciler : Reconciler V) :
    s.Keeps (s.setReconciler i reconciler).2 := by
  simp only [setReconciler]
  split <;> exact .of_eq rfl rfl

theorem keeps_setPolicy (policy : Retention.Policy K) : s.Keeps (s.setPolicy i policy).2 := by
  simp only [setPolicy]
  split <;> exact .of_eq rfl rfl

theorem keeps_shareKeeper (source : Nat) : s.Keeps (s.shareKeeper i source).2 := by
  simp only [shareKeeper]
  repeat' split
  all_goals exact .of_eq rfl rfl

theorem keeps_drainArchive : s.Keeps (s.drainArchive i).2 := by
  simp only [drainArchive]
  split
  next => exact .refl s
  next =>
    split
    next => exact .putKeeper rfl
    next => exact .refl s

variable [DecidableEq K]

theorem keeps_commit (target : Option Nat) : s.Keeps (s.commit name target).2 := by
  simp only [Session.commit]
  repeat' split
  all_goals exact .of_eq rfl rfl

theorem keeps_expire : s.Keeps (s.expire i).2 := by
  obtain ⟨site, _, passed⟩ | same := s.expire_eq_or i
  · have put : s.Keeps (s.putSite i
        { site with store := (site.store.expire (s.keeperOf site) s.clock).2.1 }) := .of_eq rfl rfl
    rw [passed]
    refine put.trans (.putKeeper ?_)
    -- a pass at most hands rosters to the archive
    simp only [Store.expire]
    split <;> rfl
  · rw [same]
    exact .refl s

theorem keeps_close (target : Option Nat) : s.Keeps (s.close name target).2 := by
  obtain same | ⟨lent, _, left | closed⟩ := s.close_eq_or name target
  · rw [same]
    exact .refl s
  · rw [left]
    exact s.keeps_without lent
  · rw [closed]
    exact (s.keeps_without lent).trans (keeps_expire _)

theorem keeps_onDraft {α : Type}
    (work : Draft K V → (K → Except Failure (Option V)) → Except Failure α × Draft K V) :
    s.Keeps (s.onDraft name work).2 := by
  simp only [onDraft]
  split <;> exact .of_eq rfl rfl

theorem keeps_update (options : Refresh.Options) : s.Keeps (s.update name options).2 := by
  simp only [Session.update]
  repeat' split
  all_goals exact .of_eq rfl rfl

theorem keeps_updateWithFlags (flags : Refresh.Flags) :
    s.Keeps (s.updateWithFlags name flags).2 := by
  simp only [updateWithFlags]
  split
  next => exact .refl s
  next =>
    split
    next => exact .refl s
    next => exact s.keeps_update _

theorem keeps_stepCursor (cursor : String) (value? : Option V) :
    s.Keeps (s.stepCursor cursor name value?).2 := by
  simp only [stepCursor]
  repeat' split
  all_goals exact .of_eq rfl rfl

end Operations

/-! ## Actions -/

variable [DecidableEq K]

/-- What one action can do to snapshots and archives. -/
inductive Glance (s : Session K V) : Action K V → Session K V → Prop
  | apart {action : Action K V} {t : Session K V} (keeps : s.Keeps t) : Glance s action t
  | supplied {i : Nat} {policy : Retention.Policy K} {archive : Retention.Archive K V}
      {t : Session K V} (snapshots : t.snapshots = s.snapshots)
      (recollections : t.recollections = s.recollections ++ [archive.recollect]) :
      Glance s (.setKeeper i policy archive) t
  | taken {i : Nat} {name : String} {site : Site K V} {base : Roster K}
      (there : s.sites[i]? = some site)
      (current : site.store.roster? site.store.revision = some base) :
      Glance s (.takeSnapshot i name)
        { s with snapshots := s.snapshots.put name ⟨i, .new base⟩ }
  | shown {name : String} {lent : Lent (Snapshot K V)} {k : K} {v? : Option V}
      {x : Snapshot K V} (opened : s.snapshots.get? name = some lent)
      (read : lent.item.read (s.fetch lent.home lent.item.revision) k = .ok (v?, x)) :
      Glance s (.readSnapshot name k)
        { s with snapshots := s.snapshots.put name { lent with item := x } }
  | closed (name : String) :
      Glance s (.closeSnapshot name) { s with snapshots := s.snapshots.erase name }

variable (s : Session K V)

theorem setKeeper_glance (i : Nat) (policy : Retention.Policy K)
    (archive : Retention.Archive K V) :
    s.Glance (.setKeeper i policy archive) (s.setKeeper i policy archive).2 := by
  simp only [setKeeper]
  split
  next => exact .apart (.refl s)
  next => exact .supplied rfl (by simp [Session.recollections, putSite])

theorem takeSnapshot_glance (i : Nat) (name : String) :
    s.Glance (.takeSnapshot i name) (s.takeSnapshot i name).2 := by
  simp only [takeSnapshot]
  split
  next => exact .apart (.refl s)
  next =>
    split
    next => exact .apart (.refl s)
    next =>
      split
      next => exact .apart (.refl s)
      next base asked =>
        cases usable : s.usable i with
        | error refusal => simp [ask, usable] at asked
        | ok site =>
          have current : site.store.currentRoster = .ok base := by
            cases current : site.store.currentRoster <;>
              simp_all [ask, Except.mapError]
          exact .taken (usable_eq_ok_iff.1 usable).1 (Store.currentRoster_eq_ok_iff.1 current)

theorem readSnapshot_glance (name : String) (k : K) :
    s.Glance (.readSnapshot name k) (s.readSnapshot name k).2 := by
  simp only [readSnapshot]
  split
  next => exact .apart (.refl s)
  next lent opened =>
    split
    next => exact .apart (.refl s)
    next v? x read => exact .shown (named_eq_ok_iff.1 opened) read

theorem closeSnapshot_glance (name : String) :
    s.Glance (.closeSnapshot name) (s.closeSnapshot name).2 := by
  simp only [closeSnapshot]
  split
  next => exact .apart (.refl s)
  next => exact .closed name

theorem perform_glance (action : Action K V) : s.Glance action (s.perform action).2 := by
  cases action with
  | setKeeper i policy archive => exact s.setKeeper_glance i policy archive
  | takeSnapshot i name => exact s.takeSnapshot_glance i name
  | readSnapshot name k => exact s.readSnapshot_glance name k
  | closeSnapshot name => exact s.closeSnapshot_glance name
  | checkout i name => exact .apart s.keeps_checkout
  | commit name target => exact .apart (s.keeps_commit target)
  | close name target => exact .apart (s.keeps_close target)
  | drop name => exact .apart s.keeps_drop
  | expire i => exact .apart s.keeps_expire
  | setReconciler i reconciler => exact .apart (s.keeps_setReconciler reconciler)
  | setPolicy i policy => exact .apart (s.keeps_setPolicy policy)
  | shareKeeper i source => exact .apart (s.keeps_shareKeeper source)
  | drainArchive i => exact .apart s.keeps_drainArchive
  | wait milliseconds => exact .apart (.of_eq rfl rfl)
  | read | readIndex | edit | editIndex | add | replace | remove | revert | walk =>
    simp only [perform, answered]
    exact .apart (s.keeps_onDraft _)
  | update name options => exact .apart (s.keeps_update options)
  | updateWithFlags name flags => exact .apart (s.keeps_updateWithFlags flags)
  | makeCursor name cursor => exact .apart (s.keeps_makeCursor cursor)
  | cloneCursor cursor clone => exact .apart (s.keeps_cloneCursor cursor clone)
  | stepCursor cursor name value? => exact .apart (s.keeps_stepCursor cursor value?)
  | _ => exact .apart (.refl s)

end Session

end RevisionStore
