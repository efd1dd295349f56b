import RevisionStore.Proofs.Draft.Conflicts
import RevisionStore.Proofs.Draft.Indexed

/-!
# The collections of a draft

Whatever is asked of a draft, its five collections fit together, and the index sets beside its
lists agree with them (`serve_collections`). `Draft.outcome` is how a request ends. One that fails
changes nothing (`after_of_outcome_error`); only a merge that gives up can strike when there is
something written.
-/

namespace RevisionStore

namespace Draft

variable {K V : Type} [DecidableEq K]

/-- How a request ends. -/
def outcome (d : Draft K V) : Request K V → Except Failure Unit
  | .add _ _ => .ok ()
  | .replace k v => ((d.replace k v).mapError .rule).map fun _ => ()
  | .remove k => ((d.remove k).mapError .rule).map fun _ => ()
  | .revert => .ok ()
  | .read fetch k => (d.read fetch k).map fun _ => ()
  | .readIndex fetch i => (d.readIndex fetch i).map fun _ => ()
  | .edit fetch k v => (d.edit fetch k v).map fun _ => ()
  | .editIndex fetch i v => (d.editIndex fetch i v).map fun _ => ()
  | .step fetch c _ => (c.next d fetch).1.map fun _ => ()
  | .walk fetch => (d.walk fetch).1.map fun _ => ()
  | .update options reconciler live => (d.update options reconciler live).1

variable {d d' : Draft K V} {request : Request K V} {failure : Failure} {k : K}
  {fetch : K → Except Failure (Option V)}

/-! ## Requests that fail -/

omit [DecidableEq K] in
theorem settled_of_map_error {ε α : Type} {outcome : Except ε (α × Draft K V)} {cause : ε}
    (failed : outcome.map (fun _ => ()) = .error cause) : d.settled outcome = d := by
  cases outcome with
  | error refusal => rfl
  | ok answer => cases failed

/-- A read that finds no value holds none. -/
theorem eq_of_read_none (read : d.read fetch k = .ok (none, d')) : d' = d := by
  simp only [Draft.read] at read
  split at read
  next => cases read; rfl
  next =>
    split at read
    next => cases read
    next =>
      split at read
      next => split at read <;> cases read
      next => cases read; rfl

/-- A step of a cursor that fails leaves the draft as it was. -/
theorem eq_of_next_error {c : Cursor} (failed : (c.next d fetch).1 = .error failure) :
    (c.next d fetch).2.2 = d := by
  revert failed
  simp only [Cursor.next]
  split
  next =>
    split
    next => rintro ⟨⟩
    next =>
      split
      next => exact fun _ => rfl
      next d' nothing => exact fun _ => eq_of_read_none nothing
      next => rintro ⟨⟩
  next => exact fun _ => rfl

theorem after_step_of_error {c : Cursor} {value? : Option V}
    (failed : (c.next d fetch).1 = .error failure) : d.after (.step fetch c value?) = d := by
  simp only [after, failed]
  exact eq_of_next_error failed

/-- A refresh that fails leaves the draft as it was, unless a merge gives up. -/
theorem update_of_failed {options : Refresh.Options} {reconciler : Reconciler V}
    {live : List K → Except Failure (List (K × V))}
    (failed : (d.update options reconciler live).1 = .error failure) :
    (d.update options reconciler live).2 = d ∨
      ∃ v own fault, reconciler.merge v own = .error fault ∧ failure = .fault fault := by
  have updates := d.updates_update options reconciler live
  generalize d.update options reconciler live = outcome at updates failed
  cases updates with
  | idle => exact .inl rfl
  | unserved => exact .inl rfl
  | refused => exact .inl rfl
  | refreshed => exact .inr (exists_merge_of_refreshAll failed)

/-- A walk is some steps, one after the other. -/
theorem exists_steps_of_walk (limit : Nat) (c : Cursor) (seen : List (K × V)) :
    ∃ cursors : List Cursor,
      (c.walk d fetch limit seen).2 = d.serve (cursors.map fun c => .step fetch c none) := by
  induction limit generalizing c d seen with
  | zero => exact ⟨[], rfl⟩
  | succ limit ih =>
    have first : d.after (.step fetch c none) = (c.next d fetch).2.2 := by
      simp only [after]
      split
      next valued => cases valued
      next => rfl
    simp only [Cursor.walk]
    split
    next stepped => exact ⟨[c], by simp [serve, first, stepped]⟩
    next stepped => exact ⟨[c], by simp [serve, first, stepped]⟩
    next stepped =>
      obtain ⟨cursors, rest⟩ := ih _ _
      rw [rest]
      refine ⟨c :: cursors, ?_⟩
      rw [List.map_cons, serve_cons, first, stepped]

/-- A request that fails leaves the draft as it was. This is so of each step of a walk, which takes
many of them; and a refresh may have written when a merge gives up. -/
theorem after_of_outcome_error (failed : d.outcome request = .error failure) :
    d.after request = d ∨
      (∃ fetch, request = .walk fetch ∧
        ∃ cursors : List Cursor,
          d.after request = d.serve (cursors.map fun c => .step fetch c none)) ∨
      ∃ options reconciler live v own fault, request = .update options reconciler live ∧
        reconciler.merge v own = .error fault ∧ failure = .fault fault := by
  cases request with
  | add k v => cases failed
  | replace k v =>
    left
    simp only [outcome, after] at failed ⊢
    cases replaced : d.replace k v with
    | error rule => rfl
    | ok d' => simp [replaced, Except.mapError, Except.map] at failed
  | remove k =>
    left
    simp only [outcome, after] at failed ⊢
    cases removed : d.remove k with
    | error rule => rfl
    | ok answer => simp [removed, Except.mapError, Except.map] at failed
  | revert => cases failed
  | read fetch k => exact .inl (settled_of_map_error failed)
  | readIndex fetch i => exact .inl (settled_of_map_error failed)
  | edit fetch k v => exact .inl (settled_of_map_error failed)
  | editIndex fetch i v => exact .inl (settled_of_map_error failed)
  | step fetch c value? =>
    left
    cases answer : (c.next d fetch).1 with
    | error cause => exact after_step_of_error answer
    | ok found => simp [outcome, answer, Except.map] at failed
  | walk fetch => exact .inr (.inl ⟨fetch, rfl, exists_steps_of_walk _ _ _⟩)
  | update options reconciler live =>
    obtain unchanged | ⟨v, own, fault, gaveUp, struck⟩ := update_of_failed failed
    · exact .inl unchanged
    · exact .inr (.inr ⟨options, reconciler, live, v, own, fault, rfl, gaveUp, struck⟩)

/-! ## Everything that is asked of a draft -/

/-- Whatever the mutations of a draft are, the index sets beside its lists have the keys that are
listed and no others, and decide as the lists do; and what requests leave of a draft is what some
mutations leave of it. After any requests to a fresh draft each list has its keys once. No removed
key is added or touched; removed and touched keys are base keys; added keys hold a value, and
values are held for added and touched keys only. A request that fails leaves the draft as it was,
unless it is a walk, which is many steps, or a refresh in which a merge gives up; and so does a
removal that answers `false`. -/
theorem serve_collections (base : Roster K) (requests : List (Request K V)) :
    let d : Draft K V := (Draft.new base).serve requests
    (∀ mutations : List (Mutation K V),
      let x := mutations.foldl IndexedDraft.mutate (.new base)
      x.plain = mutations.foldl mutate (.new base) ∧ ∀ k,
        (k ∈ x.added.index ↔ k ∈ x.added.order) ∧ (k ∈ x.touched.index ↔ k ∈ x.touched.order) ∧
        (k ∈ x.removed.index ↔ k ∈ x.removed.order)) ∧
    (∃ mutations : List (Mutation K V), d = mutations.foldl mutate (.new base)) ∧
    d.added.Nodup ∧ d.touched.Nodup ∧ d.removed.Nodup ∧
    (∀ k ∈ d.removed, k ∉ d.added ∧ k ∉ d.touched) ∧
    (∀ k ∈ d.removed, k ∈ base.keys) ∧ (∀ k ∈ d.touched, k ∈ base.keys) ∧
    (∀ k ∈ d.added, (d.local? k).isSome = true) ∧
    (∀ k, (d.local? k).isSome = true → k ∈ d.added ∨ k ∈ d.touched) ∧
    (∀ request failure, d.outcome request = .error failure → d.after request = d ∨
      (∃ fetch, request = .walk fetch ∧
        ∃ cursors : List Cursor,
          d.after request = d.serve (cursors.map fun c => .step fetch c none)) ∨
      ∃ options reconciler live v own fault, request = .update options reconciler live ∧
        reconciler.merge v own = .error fault ∧ failure = .fault fault) ∧
    ∀ k d', d.remove k = .ok (false, d') → d' = d := by
  intro d
  have evolved : (Draft.new base).Evolves d := evolves_serve requests
  have staged : d.WellStaged := (WellStaged.new base).evolves evolved
  have same : d.base = base := evolved.base
  refine ⟨fun mutations => ?_, exists_mutations_of_evolves evolved, staged.added_nodup,
    staged.touched_nodup, staged.removed_nodup, fun k removed => ?_, ?_, ?_, staged.added_held,
    staged.held_staged, fun request failure => after_of_outcome_error,
    fun k d' => eq_of_remove_false⟩
  · obtain ⟨agrees, plain⟩ :=
      IndexedDraft.simulates (IndexedDraft.agrees_new (V := V) base) mutations
    exact ⟨plain, fun k => ⟨agrees.added.mem_iff k, agrees.touched.mem_iff k,
      agrees.removed.mem_iff k⟩⟩
  · exact ⟨staged.not_added k removed, staged.not_touched k removed⟩
  · exact same ▸ staged.removed_base
  · exact same ▸ staged.touched_base

end Draft

end RevisionStore
