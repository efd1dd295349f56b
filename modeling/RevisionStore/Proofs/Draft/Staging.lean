import RevisionStore.Draft.Cursor
import RevisionStore.Draft.Update
import Mathlib.Logic.Relation

/-!
# How drafts change

`Draft.Step` lists everything that can happen to a draft, and `Draft.Evolves` is any
number of steps. Every operation on a draft is an evolution, so what every step keeps holds
of every draft a session can have: `WellStaged` is the relation between its five
collections.

Reads and cursor steps take small steps only, the `Glances`, and refreshes others, the
`Rewrites`.
-/

namespace RevisionStore

namespace Draft

variable {K V : Type} [DecidableEq K]

/-- One change that a read, or the overwriting of what was read, makes to a draft. -/
inductive Glance : Draft K V → Draft K V → Prop
  -- a value that is not held is read through for a base key that is not removed
  | hold {d : Draft K V} {k : K} (v : V) (listed : k ∈ d.base.keys) (kept : k ∉ d.removed)
      (unheld : d.local? k = none) : Glance d (d.holdRead k v)
  | overwrite (d : Draft K V) (k : K) (v : V) : Glance d (d.overwrite k v)

/-- One change that a refresh makes to a draft. -/
inductive Rewrite : Draft K V → Draft K V → Prop
  -- a touched key holds another value
  | refresh {d : Draft K V} {k : K} (v : V) (touched : k ∈ d.touched) : Rewrite d (d.setLocal k v)

/-- One change of a draft. -/
inductive Step : Draft K V → Draft K V → Prop
  | add (d : Draft K V) (k : K) (v : V) : Step d (d.add k v)
  | replace {d d' : Draft K V} {k : K} {v : V} (replaced : d.replace k v = .ok d') : Step d d'
  | remove {d d' : Draft K V} {k : K} {b : Bool} (removed : d.remove k = .ok (b, d')) : Step d d'
  | revert (d : Draft K V) : Step d d.revert
  | glance {d d' : Draft K V} (glance : Glance d d') : Step d d'
  | rewrite {d d' : Draft K V} (rewrite : Rewrite d d') : Step d d'

/-- Any number of glances. -/
abbrev Glances : Draft K V → Draft K V → Prop :=
  Relation.ReflTransGen Glance

/-- Any number of rewrites. -/
abbrev Rewrites : Draft K V → Draft K V → Prop :=
  Relation.ReflTransGen Rewrite

/-- Any number of steps. -/
abbrev Evolves : Draft K V → Draft K V → Prop :=
  Relation.ReflTransGen Step

theorem Glances.evolves {d d' : Draft K V} (glances : Glances d d') : Evolves d d' :=
  Relation.ReflTransGen.mono (fun _ _ glance => Step.glance glance) _ _ glances

theorem Rewrites.evolves {d d' : Draft K V} (rewrites : Rewrites d d') : Evolves d d' :=
  Relation.ReflTransGen.mono (fun _ _ rewrite => Step.rewrite rewrite) _ _ rewrites

/-- The relation between what a draft adds, removes, touches and holds. -/
structure WellStaged (d : Draft K V) : Prop where
  added_nodup : d.added.Nodup
  removed_nodup : d.removed.Nodup
  touched_nodup : d.touched.Nodup
  -- no key is both removed and added
  not_added : ∀ k ∈ d.removed, k ∉ d.added
  -- no key is both removed and touched
  not_touched : ∀ k ∈ d.removed, k ∉ d.touched
  removed_base : ∀ k ∈ d.removed, k ∈ d.base.keys
  touched_base : ∀ k ∈ d.touched, k ∈ d.base.keys
  -- every added key holds a value
  added_held : ∀ k ∈ d.added, (d.local? k).isSome = true
  -- values are held for added and touched keys only
  held_staged : ∀ k, (d.local? k).isSome = true → k ∈ d.added ∨ k ∈ d.touched

variable {d d' : Draft K V} {k : K} {v : V}

@[simp] theorem isAdded_iff : d.isAdded k = true ↔ k ∈ d.added := by simp [isAdded]

@[simp] theorem isModified_iff : d.isModified k = true ↔ k ∈ d.touched := by simp [isModified]

@[simp] theorem isRemoved_iff : d.isRemoved k = true ↔ k ∈ d.removed := by simp [isRemoved]

/-! ## Staging operations that succeed -/

/-- What a replacement that succeeds makes of a draft. -/
inductive Replacement (d : Draft K V) (k : K) (v : V) : Draft K V → Prop
  | ofAdded (added : k ∈ d.added) :
      Replacement d k v { d with held := d.held.put k v, version := d.version + 1 }
  | ofListed (unadded : k ∉ d.added) (kept : k ∉ d.removed) (listed : k ∈ d.base.keys) :
      Replacement d k v
        { d with
          touched := KeyOrder.insert d.touched k
          held := d.held.put k v
          version := d.version + 1 }

theorem replacement_of_replace (replaced : d.replace k v = .ok d') : d.Replacement k v d' := by
  simp only [Draft.replace] at replaced
  split at replaced
  next added => cases replaced; exact .ofAdded (isAdded_iff.1 added)
  next unadded =>
    split at replaced
    next => cases replaced
    next kept =>
      split at replaced
      next listed =>
        cases replaced
        have listed := Roster.contains_iff.1 listed
        exact .ofListed (by simpa using unadded) (by simpa using kept) listed
      next => cases replaced

/-- What a removal that succeeds makes of a draft, with its answer. -/
inductive Removal (d : Draft K V) (k : K) : Bool → Draft K V → Prop
  -- an addition is taken back, with its value
  | ofAdded (added : k ∈ d.added) :
      Removal d k true
        { d with
          added := KeyOrder.erase d.added k
          held := d.held.erase k
          version := d.version + 1 }
  | ofRemoved (unadded : k ∉ d.added) (removed : k ∈ d.removed) : Removal d k false d
  | ofListed (unadded : k ∉ d.added) (kept : k ∉ d.removed) (listed : k ∈ d.base.keys) :
      Removal d k true
        { d with
          removed := KeyOrder.insert d.removed k
          touched := KeyOrder.erase d.touched k
          held := d.held.erase k
          version := d.version + 1 }

theorem removal_of_remove {b : Bool} (removed : d.remove k = .ok (b, d')) : d.Removal k b d' := by
  simp only [Draft.remove] at removed
  split at removed
  next added => cases removed; exact .ofAdded (isAdded_iff.1 added)
  next unadded =>
    have unadded : k ∉ d.added := by simpa using unadded
    split at removed
    next gone => cases removed; exact .ofRemoved unadded (isRemoved_iff.1 gone)
    next kept =>
      split at removed
      next listed =>
        cases removed
        exact .ofListed unadded (by simpa using kept) (Roster.contains_iff.1 listed)
      next => cases removed

/-- A removal that answers `false` leaves the draft as it was. -/
theorem eq_of_remove_false (answered : d.remove k = .ok (false, d')) : d' = d := by
  cases removal_of_remove answered
  rfl

/-! ## The invariant -/

namespace WellStaged

theorem new (base : Roster K) : (Draft.new base : Draft K V).WellStaged where
  added_nodup := .nil
  removed_nodup := .nil
  touched_nodup := .nil
  not_added _ member := nomatch member
  not_touched _ member := nomatch member
  removed_base _ member := nomatch member
  touched_base _ member := nomatch member
  added_held _ member := nomatch member
  held_staged _ held := nomatch held

/-- Holding another value for an added or touched key keeps everything as it is. -/
theorem hold (staged : d.WellStaged) (place : k ∈ d.added ∨ k ∈ d.touched) (version : Nat) :
    { d with held := d.held.put k v, version := version }.WellStaged :=
  { staged with
    added_held := fun k' member => by
      have held := staged.added_held k' member
      by_cases same : k' = k <;> simp_all [local?, Dict.get?_put]
    held_staged := fun k' held => by
      by_cases same : k' = k
      · exact same ▸ place
      · exact staged.held_staged k' (by simpa [local?, Dict.get?_put, same] using held) }

/-- Touching a base key that is not removed, with a value for it. -/
theorem touch (staged : d.WellStaged) (listed : k ∈ d.base.keys) (kept : k ∉ d.removed)
    (version : Nat) :
    { d with
      touched := KeyOrder.insert d.touched k
      held := d.held.put k v
      version := version }.WellStaged := by
  have touched : { d with touched := KeyOrder.insert d.touched k }.WellStaged :=
    { staged with
      touched_nodup := KeyOrder.nodup_insert staged.touched_nodup k
      not_touched := fun k' member inserted => by
        obtain was | rfl := KeyOrder.mem_insert.1 inserted
        · exact staged.not_touched k' member was
        · exact kept member
      touched_base := fun k' inserted => by
        obtain was | rfl := KeyOrder.mem_insert.1 inserted
        · exact staged.touched_base k' was
        · exact listed
      held_staged := fun k' held =>
        (staged.held_staged k' held).imp_right fun was => KeyOrder.mem_insert.2 (.inl was) }
  exact touched.hold (.inr (KeyOrder.mem_insert.2 (.inr rfl))) version

theorem add (staged : d.WellStaged) : (d.add k v).WellStaged := by
  simp only [Draft.add]
  split
  next removed =>
    -- a removed key comes back: first it leaves `removed`, then it is touched
    have member : k ∈ d.removed := isRemoved_iff.1 removed
    have restored : { d with removed := KeyOrder.erase d.removed k }.WellStaged :=
      { staged with
        removed_nodup := KeyOrder.nodup_erase staged.removed_nodup k
        not_added := fun k' left => staged.not_added k' (KeyOrder.mem_erase.1 left).1
        not_touched := fun k' left => staged.not_touched k' (KeyOrder.mem_erase.1 left).1
        removed_base := fun k' left => staged.removed_base k' (KeyOrder.mem_erase.1 left).1 }
    exact restored.touch (staged.removed_base k member) (by simp) (d.version + 1)
  next removed =>
    have kept : k ∉ d.removed := by simpa using removed
    exact
      { staged with
        added_nodup := KeyOrder.nodup_insert staged.added_nodup k
        not_added := fun k' member inserted => by
          obtain was | rfl := KeyOrder.mem_insert.1 inserted
          · exact staged.not_added k' member was
          · exact kept member
        added_held := fun k' inserted => by
          by_cases same : k' = k
          · simp [local?, same]
          · have was : k' ∈ d.added := (KeyOrder.mem_insert.1 inserted).resolve_right same
            simpa [local?, Dict.get?_put, same] using staged.added_held k' was
        held_staged := fun k' held => by
          by_cases same : k' = k
          · exact .inl (KeyOrder.mem_insert.2 (.inr same))
          · have was : (d.local? k').isSome = true := by
              simpa [local?, Dict.get?_put, same] using held
            exact (staged.held_staged k' was).imp_left fun m => KeyOrder.mem_insert.2 (.inl m) }

theorem replace (staged : d.WellStaged) (replaced : d.replace k v = .ok d') : d'.WellStaged := by
  cases replacement_of_replace replaced with
  | ofAdded added => exact staged.hold (.inl added) _
  | ofListed _ kept listed => exact staged.touch listed kept _

/-- Forgetting the value of a key that is neither added nor touched any more. -/
theorem release (staged : d.WellStaged) (unadded : k ∉ d.added) (version : Nat) :
    { d with held := d.held.erase k, version := version }.WellStaged :=
  { staged with
    added_held := fun k' member => by
      have other : k' ≠ k := fun same => unadded (same ▸ member)
      simpa [local?, Dict.get?_erase, other] using staged.added_held k' member
    held_staged := fun k' held => by
      by_cases same : k' = k
      · simp [local?, same] at held
      · exact staged.held_staged k' (by simpa [local?, Dict.get?_erase, same] using held) }

theorem remove {b : Bool} (staged : d.WellStaged) (removed : d.remove k = .ok (b, d')) :
    d'.WellStaged := by
  cases removal_of_remove removed with
  | ofAdded added =>
    -- the value goes with the addition, also if the key was touched before
    exact
      { staged with
        added_nodup := KeyOrder.nodup_erase staged.added_nodup k
        not_added := fun k' member left =>
          staged.not_added k' member (KeyOrder.mem_erase.1 left).1
        added_held := fun k' left => by
          obtain ⟨member, other⟩ := KeyOrder.mem_erase.1 left
          simpa [local?, Dict.get?_erase, other] using staged.added_held k' member
        held_staged := fun k' held => by
          by_cases same : k' = k
          · simp [local?, same] at held
          · have was : (d.local? k').isSome = true := by
              simpa [local?, Dict.get?_erase, same] using held
            exact (staged.held_staged k' was).imp_left fun m => KeyOrder.mem_erase.2 ⟨m, same⟩ }
  | ofRemoved _ _ => exact staged
  | ofListed unadded kept listed =>
    have released := staged.release (k := k) unadded (d.version + 1)
    exact
      { released with
        removed_nodup := KeyOrder.nodup_insert staged.removed_nodup k
        touched_nodup := KeyOrder.nodup_erase staged.touched_nodup k
        not_added := fun k' inserted => by
          obtain was | rfl := KeyOrder.mem_insert.1 inserted
          · exact staged.not_added k' was
          · exact unadded
        not_touched := fun k' inserted left => by
          obtain ⟨touched, other⟩ := KeyOrder.mem_erase.1 left
          have was := (KeyOrder.mem_insert.1 inserted).resolve_right other
          exact staged.not_touched k' was touched
        removed_base := fun k' inserted => by
          obtain was | rfl := KeyOrder.mem_insert.1 inserted
          · exact staged.removed_base k' was
          · exact listed
        touched_base := fun k' left => staged.touched_base k' (KeyOrder.mem_erase.1 left).1
        held_staged := fun k' held => by
          by_cases same : k' = k
          · simp [local?, same] at held
          · exact (released.held_staged k' held).imp_right fun m =>
              KeyOrder.mem_erase.2 ⟨m, same⟩ }

theorem revert (d : Draft K V) : d.revert.WellStaged :=
  { WellStaged.new (V := V) d.base with }

theorem overwrite (staged : d.WellStaged) : (d.overwrite k v).WellStaged := by
  simp only [Draft.overwrite]
  split
  next held => exact staged.hold (staged.held_staged k held) d.version
  next => exact staged

theorem glance (staged : d.WellStaged) (glance : Glance d d') : d'.WellStaged := by
  cases glance with
  | @hold k v listed kept unheld =>
    have absent : d.held.contains k = false := by
      simpa [Dict.contains, local?] using unheld
    simpa [holdRead, absent] using staged.touch (v := v) listed kept d.version
  | overwrite k v => exact staged.overwrite

/-- Every step keeps a draft well staged. -/
theorem step (staged : d.WellStaged) (step : Step d d') : d'.WellStaged := by
  cases step with
  | add k v => exact staged.add
  | replace replaced => exact staged.replace replaced
  | remove removed => exact staged.remove removed
  | revert => exact revert d
  | glance glance => exact staged.glance glance
  | rewrite rewrite =>
    obtain ⟨v, touched⟩ := rewrite
    exact staged.hold (.inr touched) _

theorem evolves (staged : d.WellStaged) (evolves : Evolves d d') : d'.WellStaged := by
  induction evolves with
  | refl => exact staged
  | tail _ step ih => exact ih.step step

end WellStaged

/-! ## What stays -/

/-- The keys seen through two drafts are the same, since they stage the same additions and
removals over the same base. -/
structure SameKeys (d d' : Draft K V) : Prop where
  base : d'.base = d.base
  added : d'.added = d.added
  removed : d'.removed = d.removed

omit [DecidableEq K] in
theorem SameKeys.refl (d : Draft K V) : d.SameKeys d :=
  ⟨rfl, rfl, rfl⟩

omit [DecidableEq K] in
theorem SameKeys.trans {d'' : Draft K V} (first : d.SameKeys d') (second : d'.SameKeys d'') :
    d.SameKeys d'' :=
  ⟨second.base.trans first.base, second.added.trans first.added,
    second.removed.trans first.removed⟩

theorem Glance.sameKeys (glance : Glance d d') : d.SameKeys d' := by
  cases glance with
  | hold v listed kept unheld => exact ⟨rfl, rfl, rfl⟩
  | overwrite k v => unfold Draft.overwrite; split <;> exact ⟨rfl, rfl, rfl⟩

/-- No read changes the keys that are seen through a draft. -/
theorem Glances.sameKeys (glances : Glances d d') : d.SameKeys d' := by
  induction glances with
  | refl => exact .refl d
  | tail _ glance ih => exact ih.trans glance.sameKeys

/-- The base of a draft never changes. -/
theorem Step.base (step : Step d d') : d'.base = d.base := by
  cases step with
  | add k v => unfold Draft.add; split <;> rfl
  | replace replaced => cases replacement_of_replace replaced <;> rfl
  | remove removed => cases removal_of_remove removed <;> rfl
  | revert => rfl
  | glance glance => exact glance.sameKeys.base
  | rewrite rewrite => cases rewrite; rfl

theorem Evolves.base (evolves : Evolves d d') : d'.base = d.base := by
  induction evolves with
  | refl => rfl
  | tail _ step ih => exact step.base.trans ih

/-! ## Operations are evolutions -/

section Operations

variable {fetch : K → Except Failure (Option V)}

/-- A read that succeeds holds at most the value it read. -/
theorem glances_read {v? : Option V} (read : d.read fetch k = .ok (v?, d')) : Glances d d' := by
  simp only [Draft.read] at read
  split at read
  next => cases read; exact .refl
  next removed =>
    split at read
    next => cases read; exact .refl
    next unheld =>
      split at read
      next listed =>
        split at read
        next => cases read
        next => cases read
        next v _ =>
          cases read
          exact .single (.hold v (Roster.contains_iff.1 listed) (by simpa using removed) unheld)
      next => cases read; exact .refl

theorem glances_edit {v? : Option V} (edited : d.edit fetch k v = .ok (v?, d')) : Glances d d' := by
  simp only [Draft.edit] at edited
  cases read : d.read fetch k with
  | error failure => simp [read, Except.map] at edited
  | ok answer =>
    obtain ⟨old?, d₁⟩ := answer
    have first := glances_read read
    cases old? with
    | none =>
      simp only [read, Except.map, Except.ok.injEq, Prod.mk.injEq] at edited
      exact edited.2 ▸ first
    | some old =>
      simp only [read, Except.map, Except.ok.injEq, Prod.mk.injEq] at edited
      exact edited.2 ▸ first.tail (.overwrite d₁ k v)

theorem glances_readIndex {i : Nat} {v? : Option V} (read : d.readIndex fetch i = .ok (v?, d')) :
    Glances d d' := by
  simp only [Draft.readIndex] at read
  split at read
  next => exact glances_read read
  next => cases read; exact .refl

theorem glances_editIndex {i : Nat} {v? : Option V}
    (edited : d.editIndex fetch i v = .ok (v?, d')) : Glances d d' := by
  simp only [Draft.editIndex] at edited
  split at edited
  next => exact glances_edit edited
  next => cases edited; exact .refl

theorem glances_next (c : Cursor) : Glances d (c.next d fetch).2.2 := by
  simp only [Cursor.next]
  split
  next =>
    split
    next => exact .refl
    next =>
      split
      next => exact .refl
      next read => exact glances_read read
      next read => exact glances_read read
  next => exact .refl

theorem glances_walk (limit : Nat) (c : Cursor) (seen : List (K × V)) :
    Glances d (c.walk d fetch limit seen).2 := by
  induction limit generalizing c d seen with
  | zero => exact .refl
  | succ limit ih =>
    have first : d.Glances (c.next d fetch).2.2 := glances_next c
    simp only [Cursor.walk]
    split
    next answered => rw [answered] at first; exact first
    next answered => rw [answered] at first; exact first
    next answered => rw [answered] at first; exact first.trans (ih _ _)

theorem evolves_next (c : Cursor) : Evolves d (c.next d fetch).2.2 :=
  (glances_next c).evolves

theorem rewrites_refreshAll (mode : Refresh.Mode) (reconciler : Reconciler V)
    (live : List (K × V)) : Rewrites d (refreshAll mode reconciler live d).2 := by
  induction live generalizing d with
  | nil => exact .refl
  | cons entry live ih =>
    obtain ⟨k, v⟩ := entry
    simp only [refreshAll]
    split
    next => exact .refl
    next => exact ih
    next w refreshed =>
      by_cases touched : k ∈ d.touched
      · exact .head (.refresh w touched) ih
      · simp [refreshed?, isModified, touched] at refreshed

theorem rewrites_update (options : Refresh.Options) (reconciler : Reconciler V)
    (live : List K → Except Failure (List (K × V))) :
    Rewrites d (d.update options reconciler live).2 := by
  simp only [Draft.update]
  split
  next => exact .refl
  next =>
    split
    next => exact .refl
    next =>
      split
      next => exact .refl
      next => exact rewrites_refreshAll _ _ _

end Operations

end Draft

end RevisionStore
