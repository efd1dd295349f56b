import RevisionStore.Session
import RevisionStore.Proofs.Store.Acceptance

/-!
# Violations that cannot come about

Some checks are there for good measure: that the current revision has a roster, that a value is
staged for an added key, that a live key ends in a value, that a cursor finds a value under the
key it comes to. The violations that they report are `Violation.isInternal`. Well-kept stores and
well-staged drafts do not report any, as is shown here for each of their operations; and in a
commit the keys that are modified or removed have a history when it is written to
(`Store.Ready.filed_of_modified`, `Store.Ready.filed_of_removed`).
-/

namespace RevisionStore

/-! ## Internal violations -/

/-- The violations that stores and drafts check for, although they cannot come about. -/
def Violation.isInternal : Violation → Bool
  | .rosterMissing _ | .noStagedValue .added | .noHeadValue | .cursorAstray => true
  | _ => false

def StoreError.isInternal : StoreError → Bool
  | .violated rule => rule.isInternal
  | _ => false

def Failure.isInternal : Failure → Bool
  | .refused cause => cause.isInternal
  | .fault _ => false

def Refusal.isInternal : Refusal → Bool
  | .failed cause => cause.isInternal
  | _ => false

/-- An outcome that is not one of the errors that are `bad`. -/
def Avoids {ε α : Type} (bad : ε → Bool) (outcome : Except ε α) : Prop :=
  ∀ e, outcome = .error e → bad e = false

namespace Avoids

variable {ε ε' α β : Type} {bad : ε → Bool} {bad' : ε' → Bool} {outcome : Except ε α}

theorem ok (a : α) : Avoids bad (.ok a) :=
  fun _ failed => by cases failed

theorem error {e : ε} (harmless : bad e = false) : Avoids bad (.error e : Except ε α) := by
  intro e' same
  cases same
  exact harmless

theorem map (avoids : Avoids bad outcome) (f : α → β) : Avoids bad (outcome.map f) := by
  cases outcome with
  | error e => exact .error (avoids e rfl)
  | ok a => exact .ok _

theorem mapError (avoids : Avoids bad outcome) {f : ε → ε'} (same : ∀ e, bad' (f e) = bad e) :
    Avoids bad' (outcome.mapError f) := by
  cases outcome with
  | error e => exact .error ((same e).trans (avoids e rfl))
  | ok a => exact .ok _

/-- A traversal avoids what each of its steps avoids. -/
theorem mapM {f : α → Except ε β} {l : List α} (avoids : ∀ a ∈ l, Avoids bad (f a)) :
    Avoids bad (l.mapM f) := by
  intro e failed
  obtain ⟨a, member, failed⟩ := exists_of_mapM_eq_error failed
  exact avoids a member e failed

end Avoids

/-- What a traversal yields is what one of its steps yields. -/
theorem exists_of_mem_mapM {α β ε : Type} {f : α → Except ε β} {l : List α} {bs : List β} {b : β}
    (traversed : l.mapM f = .ok bs) (member : b ∈ bs) : ∃ a ∈ l, f a = .ok b := by
  have all := mapM_eq_ok_iff.1 traversed
  clear traversed
  induction all with
  | nil => cases member
  | cons step _ ih =>
    obtain rfl | later := List.mem_cons.1 member
    · exact ⟨_, List.mem_cons_self, step⟩
    · obtain ⟨a, member, found⟩ := ih later
      exact ⟨a, List.mem_cons_of_mem _ member, found⟩

variable {K V : Type}

/-- A reconciler fails with faults only. -/
theorem Reconciler.cloned_avoids {bad : Failure → Bool} (reconciler : Reconciler V) (v : V)
    (harmless : ∀ cause, bad (.fault cause) = false := by exact fun _ => rfl) :
    Avoids bad (reconciler.cloned v) := by
  cases cloned : reconciler.clone v <;> simp only [cloned, Reconciler.cloned]
  · exact .error (harmless _)
  · exact .ok _

theorem Reconciler.merged_avoids {bad : Failure → Bool} (reconciler : Reconciler V)
    (repository own : V)
    (harmless : ∀ cause, bad (.fault cause) = false := by exact fun _ => rfl) :
    Avoids bad (reconciler.merged repository own) := by
  cases merged : reconciler.merge repository own <;> simp only [merged, Reconciler.merged]
  · exact .error (harmless _)
  · exact .ok _

variable [DecidableEq K]

/-! ## Stores -/

namespace Store

variable {s : Store K V} {reconciler : Reconciler V} {recollect : Recollection K V}
  {r : Revision} {k : K} {d : Draft K V}

omit [DecidableEq K] in
theorem checkRange_avoids : Avoids Failure.isInternal (s.checkRange r) := by
  simp only [checkRange]
  split
  next => exact .error rfl
  next => exact .ok _

omit [DecidableEq K] in
theorem rosterAt_avoids : Avoids Failure.isInternal (s.rosterAt r) := by
  simp only [rosterAt]
  split
  next failed => exact .error (checkRange_avoids _ failed)
  next =>
    split
    next => exact .ok _
    next => exact .error rfl

theorem visible_avoids : Avoids Failure.isInternal (s.visible recollect r k) := by
  simp only [visible]
  split
  next failed => exact .error (checkRange_avoids _ failed)
  next =>
    split
    next => exact .ok _
    next => split <;> exact .ok _

theorem getAt_avoids : Avoids Failure.isInternal (s.getAt reconciler recollect r k) := by
  simp only [getAt]
  split
  next failed => exact .error (visible_avoids _ failed)
  next => exact .ok _
  next sighting _ =>
    cases sighting with
    | resident v => exact (reconciler.cloned_avoids v).map _
    | retrieved v => exact .ok _

theorem currentPairs_avoids (ks : List K) :
    Avoids Failure.isInternal (s.currentPairs reconciler recollect ks) := by
  induction ks with
  | nil => exact .ok _
  | cons k rest ih =>
    simp only [currentPairs]
    split
    next failed => exact .error (getAt_avoids _ failed)
    next => exact ih
    next => exact ih.map _

theorem liveAmong_avoids (roster : Roster K) (ks : List K) :
    Avoids Failure.isInternal (s.liveAmong reconciler roster ks) := by
  induction ks with
  | nil => exact .ok _
  | cons k rest ih =>
    simp only [liveAmong]
    split
    next => exact ih
    next v _ =>
      split
      next failed => exact .error (reconciler.cloned_avoids v (fun _ => rfl) _ failed)
      next => exact ih.map _

namespace WellKept

/-- The current revision has a roster. -/
theorem exists_currentRoster (kept : s.WellKept) : ∃ roster, s.currentRoster = .ok roster := by
  obtain ⟨roster, current⟩ := kept.current
  exact ⟨roster, currentRoster_eq_ok_iff.2 current⟩

theorem currentRoster_avoids (kept : s.WellKept) : Avoids Failure.isInternal s.currentRoster := by
  obtain ⟨roster, current⟩ := kept.exists_currentRoster
  rw [current]
  exact .ok _

theorem checkout_avoids (kept : s.WellKept) : Avoids Failure.isInternal s.checkout := by
  obtain ⟨roster, current⟩ := kept.exists_currentRoster
  rw [checkout, current]
  exact .ok _

theorem asMap_avoids (kept : s.WellKept) :
    Avoids Failure.isInternal (s.asMap reconciler recollect) := by
  obtain ⟨roster, current⟩ := kept.exists_currentRoster
  rw [asMap, current]
  exact (currentPairs_avoids _).map _

theorem liveValues_avoids (kept : s.WellKept) (ks : List K) :
    Avoids Failure.isInternal (s.liveValues reconciler ks) := by
  obtain ⟨roster, current⟩ := kept.exists_currentRoster
  rw [liveValues, current]
  exact liveAmong_avoids _ _

end WellKept

/-! ## Commits -/

/-- A value is held for every added key. -/
theorem addition_avoids (held : (d.local? k).isSome = true) :
    Avoids Failure.isInternal (addition reconciler d k) := by
  obtain ⟨own, held⟩ := Option.isSome_iff_exists.1 held
  rw [addition, held]
  exact (reconciler.cloned_avoids own).map _

/-- A live key ends in a value. -/
theorem WellKept.modification_avoids (kept : s.WellKept) (live : s.isLive k = true) :
    Avoids Failure.isInternal (s.modification reconciler d k) := by
  rw [← kept.isSome_leading?] at live
  obtain ⟨repository, leading⟩ := Option.isSome_iff_exists.1 live
  simp only [modification, leading]
  split
  next => exact .error rfl
  next own _ =>
    split
    next failed => exact .error (reconciler.merged_avoids repository own (fun _ => rfl) _ failed)
    next merged _ => exact (reconciler.cloned_avoids merged).map _

theorem validate_avoids : Avoids Failure.isInternal (s.validate d) := by
  simp only [validate]
  split
  next => exact .error rfl
  next =>
    split
    next => exact .error rfl
    next => exact .ok _

/-- A commit avoids what each of its parts avoids. -/
theorem commit_avoids {bad : Failure → Bool} {reconciler : Reconciler V} {now : Nat}
    (valid : Avoids bad (s.validate d))
    (additions : ∀ k ∈ d.added, Avoids bad (addition reconciler d k))
    (modifications : s.validate d = .ok () →
      ∀ k ∈ d.touched, Avoids bad (s.modification reconciler d k))
    (current : Avoids bad s.currentRoster) : Avoids bad (s.commit reconciler now d) := by
  refine Avoids.map ?_ _
  simp only [prepare]
  split
  next failed => exact .error (valid _ failed)
  next passed =>
    split
    next failed => exact .error (Avoids.mapM additions _ failed)
    next =>
      split
      next failed => exact .error (Avoids.mapM (modifications passed) _ failed)
      next =>
        split
        next failed => exact .error (current _ failed)
        next => exact .ok _

theorem WellKept.commit_avoids (kept : s.WellKept) (staged : d.WellStaged)
    (reconciler : Reconciler V) (now : Nat) :
    Avoids Failure.isInternal (s.commit reconciler now d) := by
  refine Store.commit_avoids validate_avoids
    (fun k added => addition_avoids (staged.added_held k added)) (fun valid k touched => ?_) ?_
  · obtain ⟨_, live⟩ := validate_eq_ok_iff.1 valid
    exact kept.modification_avoids (live k (.inl touched))
  · obtain ⟨roster, current⟩ := kept.exists_currentRoster
    rw [current]
    exact .ok _

/-! ## What a commit writes to -/

/-- Writing entry by entry loses no history, if no entry does. -/
theorem filed_foldl {α : Type} {write : Dict K (History K V) → α → Dict K (History K V)}
    (keeps : ∀ histories a, (histories.get? k).isSome = true →
      ((write histories a).get? k).isSome = true)
    (entries : List α) {histories : Dict K (History K V)}
    (filed : (histories.get? k).isSome = true) :
    ((entries.foldl write histories).get? k).isSome = true := by
  induction entries generalizing histories with
  | nil => exact filed
  | cons a entries ih => exact ih (keeps histories a filed)

theorem filed_recordAdded (next : Revision) (histories : Dict K (History K V)) (e : K × V)
    (filed : (histories.get? k).isSome = true) :
    ((recordAdded next histories e).get? k).isSome = true := by
  rw [get?_recordAdded]
  split
  next => rfl
  next => exact filed

theorem filed_recordModified (next : Revision) (histories : Dict K (History K V)) (e : K × V)
    (filed : (histories.get? k).isSome = true) :
    ((recordModified next histories e).get? k).isSome = true := by
  rw [get?_recordModified]
  split
  next => simpa using filed
  next => exact filed

theorem filed_recordDeleted (next : Revision) (histories : Dict K (History K V)) (k' : K)
    (filed : (histories.get? k).isSome = true) :
    ((recordDeleted next histories k').get? k).isSome = true := by
  rw [get?_recordDeleted]
  split
  next => simpa using filed
  next => exact filed

theorem filed_of_isLive (live : s.isLive k = true) : (s.histories.get? k).isSome = true := by
  simp only [isLive] at live
  cases filed : s.histories.get? k with
  | none => simp [filed] at live
  | some h => rfl

namespace Ready

variable {p : Publication K V}

/-- What is written for the modified keys is written under these keys, one by one. -/
theorem map_fst_modified (ready : s.Ready reconciler d p) : p.modified.map (·.1) = d.touched := by
  have keyed (keys : List K) (entries : List (K × V))
      (all : List.Forall₂ (fun k e => s.modification reconciler d k = .ok e) keys entries) :
      entries.map (·.1) = keys := by
    induction all with
    | nil => rfl
    | cons made _ ih =>
      obtain ⟨_, _, _, _, _, _, _, _, rfl⟩ := modification_eq_ok_iff.1 made
      rw [List.map_cons, ih]
  exact keyed _ _ ready.modified

/-- A modified key has a history when its entry is written. -/
theorem filed_of_modified (ready : s.Ready reconciler d p) (next : Revision)
    {before after : List (K × V)} {entry : K × V} (split : p.modified = before ++ entry :: after) :
    ((before.foldl (recordModified next)
      (p.added.foldl (recordAdded next) s.histories)).get? entry.1).isSome = true := by
  have touched : entry.1 ∈ d.touched := by
    rw [← ready.map_fst_modified, split]
    simp
  have filed := filed_of_isLive (ready.live entry.1 (.inl touched))
  exact filed_foldl (filed_recordModified next) before
    (filed_foldl (filed_recordAdded next) p.added filed)

/-- A removed key has a history when its tombstone is written. -/
theorem filed_of_removed (ready : s.Ready reconciler d p) (next : Revision)
    {before after : List K} (split : p.removed = before ++ k :: after) :
    ((before.foldl (recordDeleted next) (p.modified.foldl (recordModified next)
      (p.added.foldl (recordAdded next) s.histories))).get? k).isSome = true := by
  have removed : k ∈ d.removed := by
    rw [← ready.removed, split]
    simp
  have filed := filed_of_isLive (ready.live k (.inr removed))
  exact filed_foldl (filed_recordDeleted next) before
    (filed_foldl (filed_recordModified next) p.modified
      (filed_foldl (filed_recordAdded next) p.added filed))

end Ready

end Store

/-! ## Drafts and snapshots -/

section Reading

variable {d : Draft K V} {x : Snapshot K V} {fetch : K → Except Failure (Option V)}
  (avoids : ∀ k, Avoids Failure.isInternal (fetch k))
include avoids

theorem Snapshot.read_avoids (k : K) : Avoids Failure.isInternal (x.read fetch k) := by
  simp only [Snapshot.read]
  split
  next =>
    split
    next => exact .ok _
    next =>
      split
      next failed => exact .error (avoids k _ failed)
      next => exact .error rfl
      next => exact .ok _
  next => exact .ok _

namespace Draft

theorem read_avoids (k : K) : Avoids Failure.isInternal (d.read fetch k) := by
  simp only [Draft.read]
  split
  next => exact .ok _
  next =>
    split
    next => exact .ok _
    next =>
      split
      next =>
        split
        next failed => exact .error (avoids k _ failed)
        next => exact .error rfl
        next => exact .ok _
      next => exact .ok _

theorem edit_avoids (k : K) (v : V) : Avoids Failure.isInternal (d.edit fetch k v) :=
  (read_avoids avoids k).map _

theorem readIndex_avoids (i : Nat) : Avoids Failure.isInternal (d.readIndex fetch i) := by
  simp only [Draft.readIndex]
  split
  next => exact read_avoids avoids _
  next => exact .ok _

theorem editIndex_avoids (i : Nat) (v : V) :
    Avoids Failure.isInternal (d.editIndex fetch i v) := by
  simp only [Draft.editIndex]
  split
  next => exact edit_avoids avoids _ v
  next => exact .ok _

end Draft

end Reading

namespace Draft

variable {d : Draft K V} {fetch : K → Except Failure (Option V)}

theorem not_isInternal_of_replace {k : K} {v : V} {rule : Violation}
    (refused : d.replace k v = .error rule) : rule.isInternal = false := by
  simp only [Draft.replace] at refused
  split at refused
  next => cases refused
  next =>
    split at refused
    next => cases refused; rfl
    next =>
      split at refused
      next => cases refused
      next => cases refused; rfl

theorem not_isInternal_of_remove {k : K} {rule : Violation}
    (refused : d.remove k = .error rule) : rule.isInternal = false := by
  simp only [Draft.remove] at refused
  split at refused
  next => cases refused
  next =>
    split at refused
    next => cases refused
    next =>
      split at refused
      next => cases refused
      next => cases refused; rfl

/-- A cursor comes to keys of the base that are not removed, and to added keys. -/
theorem mem_of_advance {c c' : Cursor} {k : K} (advanced : c.advance d = (some k, c')) :
    k ∈ d.base.keys ∧ k ∉ d.removed ∨ k ∈ d.added := by
  simp only [Cursor.advance] at advanced
  split at advanced
  next k' rest found =>
    obtain rfl : k' = k := Option.some.inj (Prod.mk.inj advanced).1
    have member : k' ∈ (d.base.keys.drop c.basePos).dropWhile fun k => d.isRemoved k :=
      found ▸ List.mem_cons_self
    have left := List.head?_dropWhile_not (fun k => d.isRemoved k) (d.base.keys.drop c.basePos)
    rw [found] at left
    refine .inl ⟨List.mem_of_mem_drop ((List.dropWhile_sublist _).subset member), ?_⟩
    exact fun removed => by simp [isRemoved_iff.2 removed] at left
  next =>
    split at advanced
    next k' found =>
      obtain rfl : k' = k := Option.some.inj (Prod.mk.inj advanced).1
      exact .inr (List.mem_of_getElem? found)
    next => cases advanced

/-- A read of such a key has a value, if it does not fail. -/
theorem WellStaged.read_ne_none {k : K} {d' : Draft K V} (staged : d.WellStaged)
    (listed : k ∈ d.base.keys ∧ k ∉ d.removed ∨ k ∈ d.added) :
    d.read fetch k ≠ .ok (none, d') := by
  have kept : d.isRemoved k = false := by
    rw [Bool.eq_false_iff, ne_eq, isRemoved_iff]
    exact listed.elim (·.2) fun added removed => staged.not_added k removed added
  simp only [Draft.read, kept, Bool.false_eq_true, if_false]
  split
  next => intro impossible; cases impossible
  next unheld =>
    obtain ⟨based, _⟩ | added := listed
    · rw [if_pos (Roster.contains_iff.2 based)]
      split
      all_goals
        intro impossible
        cases impossible
    · have held := staged.added_held k added
      rw [unheld] at held
      cases held

theorem WellStaged.next_avoids (staged : d.WellStaged)
    (avoids : ∀ k, Avoids Failure.isInternal (fetch k)) (c : Cursor) :
    Avoids Failure.isInternal (c.next d fetch).1 := by
  simp only [Cursor.next]
  split
  next =>
    split
    next => exact .ok _
    next k c' advanced =>
      split
      next failed => exact .error (read_avoids avoids k _ failed)
      next d' nothing =>
        exact absurd nothing (staged.read_ne_none (mem_of_advance advanced))
      next => exact .ok _
  next => exact .error rfl

theorem WellStaged.walk_avoids (staged : d.WellStaged)
    (avoids : ∀ k, Avoids Failure.isInternal (fetch k)) (limit : Nat) (c : Cursor)
    (seen : List (K × V)) : Avoids Failure.isInternal (c.walk d fetch limit seen).1 := by
  induction limit generalizing c d seen with
  | zero => exact .ok _
  | succ limit ih =>
    have steps := staged.next_avoids avoids c
    have evolves : d.Evolves (c.next d fetch).2.2 := evolves_next c
    simp only [Cursor.walk]
    split
    next answered => rw [answered] at steps; exact .error (steps _ rfl)
    next => exact .ok _
    next answered => rw [answered] at evolves; exact ih (staged.evolves evolves) _ _

theorem refreshed?_avoids {mode : Refresh.Mode} {reconciler : Reconciler V} {k : K} {v : V} :
    Avoids Failure.isInternal (d.refreshed? mode reconciler k v) := by
  simp only [refreshed?]
  split
  next =>
    split
    next =>
      split
      next => exact (reconciler.merged_avoids _ _).map _
      next => exact .ok _
    next => exact .ok _
    next => exact .ok _
  next => exact .ok _

theorem refreshAll_avoids (mode : Refresh.Mode) (reconciler : Reconciler V)
    (live : List (K × V)) : Avoids Failure.isInternal (refreshAll mode reconciler live d).1 := by
  induction live generalizing d with
  | nil => exact .ok _
  | cons entry live ih =>
    obtain ⟨k, v⟩ := entry
    simp only [refreshAll]
    split
    next failed => exact .error (refreshed?_avoids _ failed)
    next => exact ih
    next => exact ih

theorem update_avoids {reconciler : Reconciler V} {live : List K → Except Failure (List (K × V))}
    (avoids : ∀ ks, Avoids Failure.isInternal (live ks)) (options : Refresh.Options) :
    Avoids Failure.isInternal (d.update options reconciler live).1 := by
  simp only [Draft.update]
  split
  next => exact .ok _
  next =>
    split
    next failed => exact .error (avoids _ _ failed)
    next =>
      split
      next => exact .error rfl
      next => exact refreshAll_avoids _ _ _

end Draft

end RevisionStore
