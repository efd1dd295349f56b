import RevisionStore.Proofs.Store.Tracks

/-!
# Which commits are refused

A commit reads the draft and the current state of the store, checks everything, and only
then writes. With a reconciler that never gives up the checks come down to three
(`exists_commit_iff`): no added key may be on the current roster, every modified or removed
key must be, and a value must be held for every modified key. That a value is held for an
added key, that a live history ends in a value and that there is a current roster are also
checked, but these checks cannot fail.
-/

namespace RevisionStore

variable {K V : Type} [DecidableEq K]

/-- A traversal fails where one of its steps does. -/
theorem exists_of_mapM_eq_error {α β ε : Type} {f : α → Except ε β} {l : List α} {e : ε}
    (failed : l.mapM f = .error e) : ∃ a ∈ l, f a = .error e := by
  induction l with
  | nil => cases failed
  | cons a l ih =>
    rw [List.mapM_cons] at failed
    cases first : f a with
    | error e' =>
      rw [first] at failed
      cases failed
      exact ⟨a, List.mem_cons_self, first⟩
    | ok b =>
      cases rest : l.mapM f with
      | error e' =>
        rw [first, rest] at failed
        cases failed
        obtain ⟨a', member, failed'⟩ := ih rest
        exact ⟨a', List.mem_cons_of_mem a member, failed'⟩
      | ok bs =>
        rw [first, rest] at failed
        cases failed

/-- A traversal succeeds if each of its steps does, and only then. -/
theorem exists_mapM_eq_ok_iff {α β ε : Type} {f : α → Except ε β} {l : List α} :
    (∃ bs, l.mapM f = .ok bs) ↔ ∀ a ∈ l, ∃ b, f a = .ok b := by
  constructor
  · rintro ⟨bs, traversed⟩
    have all := mapM_eq_ok_iff.1 traversed
    clear traversed
    induction all with
    | nil => simp
    | cons step _ ih => exact List.forall_mem_cons.2 ⟨⟨_, step⟩, ih⟩
  · intro steps
    cases traversed : l.mapM f with
    | ok bs => exact ⟨bs, rfl⟩
    | error e =>
      obtain ⟨a, member, failed⟩ := exists_of_mapM_eq_error traversed
      obtain ⟨b, succeeded⟩ := steps a member
      rw [failed] at succeeded
      cases succeeded

namespace Reconciler

variable {reconciler : Reconciler V}

theorem Total.cloned (total : reconciler.Total) (v : V) : ∃ w, reconciler.cloned v = .ok w := by
  obtain ⟨w, cloned⟩ := total.1 v
  exact ⟨w, cloned_eq_ok_iff.2 cloned⟩

theorem Total.merged (total : reconciler.Total) (v own : V) :
    ∃ m, reconciler.merged v own = .ok m := by
  obtain ⟨m, merged⟩ := total.2 v own
  exact ⟨m, merged_eq_ok_iff.2 merged⟩

end Reconciler

namespace Store

variable {s : Store K V} {reconciler : Reconciler V} {now : Nat} {d : Draft K V} {k : K}
  {fault : Fault} {roster : Roster K}

/-! ## Faults -/

theorem addition_ne_fault (total : reconciler.Total) :
    addition reconciler d k ≠ .error (.fault fault) := by
  simp only [addition]
  cases d.local? k with
  | none => simp [Failure.rule]
  | some own =>
    obtain ⟨clone, cloned⟩ := total.cloned own
    simp [cloned, Except.map]

theorem modification_ne_fault (total : reconciler.Total) :
    s.modification reconciler d k ≠ .error (.fault fault) := by
  simp only [modification]
  cases d.local? k with
  | none => simp [Failure.rule]
  | some own =>
    cases s.leading? k with
    | none => simp [Failure.rule]
    | some repository =>
      obtain ⟨m, merged⟩ := total.merged repository own
      obtain ⟨clone, cloned⟩ := total.cloned m
      simp [merged, cloned, Except.map]

theorem validate_ne_fault : s.validate d ≠ .error (.fault fault) := by
  simp only [validate]
  split
  next => simp [Failure.rule]
  next => split <;> simp [Failure.rule]

/-- A commit raises no fault that its reconciler does not raise. -/
theorem commit_ne_fault (total : reconciler.Total) :
    s.commit reconciler now d ≠ .error (.fault fault) := by
  simp only [commit, prepare]
  intro raised
  split at raised
  next refused =>
    cases raised
    exact validate_ne_fault refused
  next =>
    split at raised
    next failed =>
      cases raised
      obtain ⟨k, _, failed⟩ := exists_of_mapM_eq_error failed
      exact addition_ne_fault total failed
    next =>
      split at raised
      next failed =>
        cases raised
        obtain ⟨k, _, failed⟩ := exists_of_mapM_eq_error failed
        exact modification_ne_fault total failed
      next =>
        simp only [currentRoster] at raised
        split at raised
        next missing =>
          split at missing
          next => cases missing
          next => cases missing; cases raised
        next => cases raised

/-! ## Refusals -/

theorem exists_addition (total : reconciler.Total) (held : (d.local? k).isSome = true) :
    ∃ e, addition reconciler d k = .ok e := by
  obtain ⟨own, held⟩ := Option.isSome_iff_exists.1 held
  obtain ⟨clone, cloned⟩ := total.1 own
  exact ⟨_, addition_eq_ok_iff.2 ⟨own, clone, held, cloned, rfl⟩⟩

theorem exists_modification (kept : s.WellKept) (total : reconciler.Total)
    (held : (d.local? k).isSome = true) (live : s.isLive k = true) :
    ∃ e, s.modification reconciler d k = .ok e := by
  obtain ⟨own, held⟩ := Option.isSome_iff_exists.1 held
  -- a live history ends in a value
  rw [← kept.isSome_leading?] at live
  obtain ⟨repository, leading⟩ := Option.isSome_iff_exists.1 live
  obtain ⟨merged, merges⟩ := total.2 repository own
  obtain ⟨clone, cloned⟩ := total.1 merged
  exact ⟨_, modification_eq_ok_iff.2
    ⟨own, repository, merged, clone, held, leading, merges, cloned, rfl⟩⟩

/-- When a draft can be committed. -/
theorem exists_commit_iff (kept : s.WellKept) (staged : d.WellStaged) (total : reconciler.Total)
    (current : s.roster? s.revision = some roster) :
    (∃ s', s.commit reconciler now d = .ok s') ↔
      (∀ k ∈ d.added, k ∉ roster.keys) ∧
        (∀ k, k ∈ d.touched ∨ k ∈ d.removed → k ∈ roster.keys) ∧
          ∀ k ∈ d.touched, (d.local? k).isSome = true := by
  constructor
  · rintro ⟨s', committed⟩
    obtain ⟨p, prepared, _⟩ := commit_eq_ok_iff.1 committed
    have ready := prepare_eq_ok_iff.1 prepared
    refine ⟨?_, ?_, ?_⟩
    · intro k added listed
      have live := (kept.live roster current k).1 listed
      rw [ready.fresh k added] at live
      cases live
    · intro k changed
      exact (kept.live roster current k).2 (ready.live k changed)
    · intro k touched
      obtain ⟨e, made⟩ := exists_mapM_eq_ok_iff.1 ⟨_, mapM_eq_ok_iff.2 ready.modified⟩ k touched
      obtain ⟨own, _, _, _, held, _⟩ := modification_eq_ok_iff.1 made
      simp [held]
  · rintro ⟨fresh, listed, held⟩
    have live (k : K) (changed : k ∈ d.touched ∨ k ∈ d.removed) : s.isLive k = true :=
      (kept.live roster current k).1 (listed k changed)
    have valid : s.validate d = .ok () := by
      refine validate_eq_ok_iff.2 ⟨fun k added => ?_, live⟩
      have unlisted := fresh k added
      rw [kept.live roster current k] at unlisted
      simpa using unlisted
    obtain ⟨added, additions⟩ := exists_mapM_eq_ok_iff.2 fun k member =>
      exists_addition total (staged.added_held k member)
    obtain ⟨modified, modifications⟩ := exists_mapM_eq_ok_iff.2 fun k member =>
      exists_modification kept total (held k member) (live k (.inl member))
    have prepared : ∃ p, s.prepare reconciler d = .ok p := by
      simp only [prepare, valid, additions, modifications, currentRoster_eq_ok_iff.2 current]
      exact ⟨_, rfl⟩
    obtain ⟨p, prepared⟩ := prepared
    exact ⟨_, commit_eq_ok_iff.2 ⟨p, prepared, rfl⟩⟩

end Store

end RevisionStore
