import RevisionStore.Proofs.Draft.Refreshing
import RevisionStore.Proofs.Store.Acceptance

/-!
# Conflicts in a refresh

A refresh looks for conflicts among everything that is staged before it writes anything. So there
are four ways for it to end (`updates_update`), and the only failure that leaves something
written is a merge that gives up. With a reconciler that never gives up a refresh fails exactly if
a key that is offered a value is staged in a way that the options do not admit, and then the draft
is as it was (`update_refused_iff`, `update_of_error`).
-/

namespace RevisionStore

namespace Draft

variable {K V : Type} [DecidableEq K]

/-- A key is staged in a way that the options admit of no live key. -/
inductive Clashes (d : Draft K V) (options : Refresh.Options) (k : K) : Staging → Prop
  | added (staged : k ∈ d.added) (refused : options.failOnAdd = true) : Clashes d options k .added
  | modified (staged : k ∈ d.touched) (refused : options.failOnModify = true) :
      Clashes d options k .modified
  | removed (staged : k ∈ d.removed) (refused : options.failOnRemove = true) :
      Clashes d options k .removed

/-- The ways in which a refresh ends, with its outcome and the draft that it leaves. -/
inductive Updates (d : Draft K V) (options : Refresh.Options) (reconciler : Reconciler V)
    (live : List K → Except Failure (List (K × V))) : Except Failure Unit × Draft K V → Prop
  | idle (nothing : d.staged = []) : Updates d options reconciler live (.ok (), d)
  | unserved {failure : Failure} (failed : live d.staged = .error failure) :
      Updates d options reconciler live (.error failure, d)
  | refused {found : List (K × V)} {entry : K × V} {staging : Staging}
      (asked : live d.staged = .ok found) (member : entry ∈ found)
      (clashes : d.Clashes options entry.1 staging) :
      Updates d options reconciler live (.error (.rule (.conflict staging d.revision)), d)
  | refreshed {found : List (K × V)} (asked : live d.staged = .ok found)
      (peaceful : ∀ entry ∈ found, ∀ staging, ¬ d.Clashes options entry.1 staging) :
      Updates d options reconciler live (refreshAll options.mode reconciler found d)

variable {d : Draft K V} {options : Refresh.Options} {mode : Refresh.Mode}
  {reconciler : Reconciler V} {live : List K → Except Failure (List (K × V))} {k : K}
  {staging : Staging} {value? : K → Option V} {failure : Failure}

omit [DecidableEq K] in
theorem Clashes.staged (clashes : d.Clashes options k staging) : k ∈ d.staged := by
  simp only [Draft.staged, List.mem_append]
  cases clashes with
  | added staged => exact .inl (.inl staged)
  | modified staged => exact .inl (.inr staged)
  | removed staged => exact .inr staged

omit [DecidableEq K] in
theorem exists_clashes_iff :
    (∃ staging, d.Clashes options k staging) ↔
      k ∈ d.added ∧ options.failOnAdd = true ∨ k ∈ d.touched ∧ options.failOnModify = true ∨
        k ∈ d.removed ∧ options.failOnRemove = true := by
  constructor
  · rintro ⟨_, clashes⟩
    cases clashes with
    | added staged refused => exact .inl ⟨staged, refused⟩
    | modified staged refused => exact .inr (.inl ⟨staged, refused⟩)
    | removed staged refused => exact .inr (.inr ⟨staged, refused⟩)
  · rintro (⟨staged, refused⟩ | ⟨staged, refused⟩ | ⟨staged, refused⟩)
    · exact ⟨_, .added staged refused⟩
    · exact ⟨_, .modified staged refused⟩
    · exact ⟨_, .removed staged refused⟩

theorem clashes_of_conflict? (found : d.conflict? options k = some staging) :
    d.Clashes options k staging := by
  simp only [conflict?, Bool.and_eq_true, isAdded_iff, isModified_iff, isRemoved_iff] at found
  split at found
  next both => cases found; exact .added both.1 both.2
  next =>
    split at found
    next both => cases found; exact .modified both.1 both.2
    next =>
      split at found
      next both => cases found; exact .removed both.1 both.2
      next => cases found

theorem conflict?_eq_none_iff :
    d.conflict? options k = none ↔ ∀ staging, ¬ d.Clashes options k staging := by
  constructor
  · intro peaceful staging clashes
    simp only [conflict?, Bool.and_eq_true, isAdded_iff, isModified_iff, isRemoved_iff] at peaceful
    cases clashes <;> grind
  · intro peaceful
    cases found : d.conflict? options k with
    | none => rfl
    | some staging => exact absurd (clashes_of_conflict? found) (peaceful staging)

/-! ## How a refresh ends -/

theorem updates_update (d : Draft K V) (options : Refresh.Options) (reconciler : Reconciler V)
    (live : List K → Except Failure (List (K × V))) :
    d.Updates options reconciler live (d.update options reconciler live) := by
  simp only [update]
  split
  next empty => exact .idle (by simpa using empty)
  next =>
    split
    next failed => exact .unserved failed
    next found asked =>
      split
      next staging conflict =>
        obtain ⟨entry, member, conflict⟩ := List.exists_of_findSome?_eq_some conflict
        exact .refused asked member (clashes_of_conflict? conflict)
      next peaceful =>
        refine .refreshed asked fun entry member => ?_
        exact conflict?_eq_none_iff.1 (List.findSome?_eq_none_iff.1 peaceful entry member)

/-- If a key cannot be refreshed, its merge has given up. -/
theorem exists_merge_of_refreshed? {v : V}
    (failed : d.refreshed? mode reconciler k v = .error failure) :
    ∃ own fault, reconciler.merge v own = .error fault ∧ failure = .fault fault := by
  simp only [refreshed?] at failed
  split at failed
  next =>
    split at failed
    next =>
      split at failed
      next own _ =>
        cases merges : reconciler.merge v own with
        | ok m => simp [Reconciler.merged, merges, Except.mapError, Except.map] at failed
        | error fault =>
          simp only [Reconciler.merged, merges, Except.mapError, Except.map,
            Except.error.injEq] at failed
          exact ⟨own, fault, merges, failed.symm⟩
      next => cases failed
    next => cases failed
    next => cases failed
  next => cases failed

theorem exists_merge_of_refreshAll {found : List (K × V)}
    (failed : (refreshAll mode reconciler found d).1 = .error failure) :
    ∃ v own fault, reconciler.merge v own = .error fault ∧ failure = .fault fault := by
  induction found generalizing d with
  | nil => cases failed
  | cons entry found ih =>
    obtain ⟨k, v⟩ := entry
    simp only [refreshAll] at failed
    split at failed
    next refused =>
      cases failed
      exact ⟨v, exists_merge_of_refreshed? refused⟩
    next => exact ih failed
    next => exact ih failed

/-- A reconciler that never gives up refreshes all keys. -/
theorem refreshAll_of_total (total : reconciler.Total) (found : List (K × V)) :
    (refreshAll mode reconciler found d).1 = .ok () := by
  cases outcome : (refreshAll mode reconciler found d).1 with
  | ok _ => rfl
  | error failure =>
    obtain ⟨v, own, fault, gave_up, _⟩ := exists_merge_of_refreshAll outcome
    obtain ⟨m, merges⟩ := total.2 v own
    rw [gave_up] at merges
    cases merges

/-! ## Refusals -/

section Total

variable (total : reconciler.Total) (asked : live d.staged = .ok (pairsOf value? d.staged))
include total asked

/-- A refresh that fails was refused for a conflict, and leaves the draft as it was. -/
theorem update_of_error (failed : (d.update options reconciler live).1 = .error failure) :
    (d.update options reconciler live).2 = d ∧ ∃ k staging, (value? k).isSome = true ∧
      d.Clashes options k staging ∧ failure = .rule (.conflict staging d.revision) := by
  have updates := d.updates_update options reconciler live
  generalize d.update options reconciler live = outcome at updates failed
  cases updates with
  | idle => cases failed
  | unserved unserved =>
    rw [asked] at unserved
    cases unserved
  | @refused found entry staging offered member clashes =>
    obtain rfl := Except.ok.inj (asked.symm.trans offered)
    cases failed
    have valued := (mem_pairsOf.1 member).2
    exact ⟨rfl, entry.1, staging, by simp [valued], clashes, rfl⟩
  | refreshed =>
    rw [refreshAll_of_total total] at failed
    cases failed

/-- A refresh fails if a key with a value is staged in a way that the options do not admit, and
only then. -/
theorem update_refused_iff (options : Refresh.Options) :
    (∃ failure, (d.update options reconciler live).1 = .error failure) ↔
      ∃ k staging, (value? k).isSome = true ∧ d.Clashes options k staging := by
  constructor
  · rintro ⟨failure, failed⟩
    obtain ⟨-, k, staging, valued, clashes, -⟩ := update_of_error total asked failed
    exact ⟨k, staging, valued, clashes⟩
  · rintro ⟨k, staging, valued, clashes⟩
    obtain ⟨v, valued⟩ := Option.isSome_iff_exists.1 valued
    have updates := d.updates_update options reconciler live
    generalize d.update options reconciler live = outcome at updates
    cases updates with
    | idle nothing =>
      have staged := clashes.staged
      simp [nothing] at staged
    | unserved => exact ⟨_, rfl⟩
    | refused => exact ⟨_, rfl⟩
    | refreshed offered peaceful =>
      obtain rfl := Except.ok.inj (asked.symm.trans offered)
      have member : (k, v) ∈ pairsOf value? d.staged := mem_pairsOf.2 ⟨clashes.staged, valued⟩
      exact absurd clashes (peaceful _ member staging)

end Total

end Draft

end RevisionStore
