import RevisionStore.Proofs.Store.Tracks

/-!
# Lookups at revisions that nobody watches

Such a lookup is answered by whatever change pruning has left at or before its revision. If
that is not the last change of the log there, the answer is out of date: it is a value that
the key had at an earlier revision. If no change is left, and the archive recalls nothing,
there is no value.
-/

namespace RevisionStore

namespace Store

variable {K V : Type} [DecidableEq K] {s : Store K V} {log : List (Commit K V)} {r : Revision}
  {k : K} {v : V} {c : Change K V} {recollect : Recollection K V}

/-- The resident change that answers a lookup. -/
def selected? (s : Store K V) (r : Revision) (k : K) : Option (Change K V) :=
  (s.histories.get? k).bind (·.select? s.lookup r)

/-- A lookup at an expired revision for which no change is left is up to the archive alone. -/
theorem WellKept.visible_of_expired (kept : s.WellKept) (bounded : r ≤ s.revision)
    (expired : r ∉ s.retained) (nothing : s.selected? r k = none) :
    s.visible recollect r k = .ok (((recollect k r).bind (·.value?)).map .retrieved) := by
  have within : s.checkRange r = .ok () := if_neg (Nat.not_lt_of_le bounded)
  have gone : s.roster? r = none := by simpa [roster?, retained] using expired
  simp only [visible, within, gone, Option.any_none]
  cases filed : s.histories.get? k with
  | none => rfl
  | some h =>
    have unanswered : h.select? s.lookup r = none := by simpa [selected?, filed] using nothing
    simp [History.readAt, unanswered, (kept.filed k h filed).key]

namespace Tracks

/-- A watched lookup for which no change is left is for a key that is not there. -/
theorem contentsAt_of_unselected (tracks : s.Tracks log) (watched : s.Watched r)
    (nothing : s.selected? r k = none) : contentsAt log r k = none := by
  cases there : contentsAt log r k with
  | none => rfl
  | some v =>
    obtain ⟨h, c, filed, selected, _⟩ := tracks.answered r watched k v there
    simp [selected?, filed, selected] at nothing

/-- What answers a lookup says what was under the key when it was recorded. -/
theorem of_selected? (tracks : s.Tracks log) (selected : s.selected? r k = some c) :
    c.revision ≤ r ∧ contentsAt log c.revision k = c.value? := by
  obtain ⟨h, filed, selected⟩ := Option.bind_eq_some_iff.1 selected
  have member := History.mem_of_select? selected
  exact ⟨History.le_of_select? selected, tracks.recorded k h filed c member⟩

/-- Under `latestPrior` a watched lookup is never out of date. -/
theorem selected?_of_watched (tracks : s.Tracks log) (latest : s.lookup = .latestPrior)
    (watched : s.Watched r) (there : contentsAt log r k = some v)
    (selected : s.selected? r k = some c) : c.value? = some v := by
  obtain ⟨h, c', filed, selected', valued⟩ := tracks.answered r watched k v there
  have same : s.selected? r k = some c' := by simp [selected?, filed, selected']
  obtain rfl := Option.some.inj (same.symm.trans selected)
  exact valued latest

/-- With an archive that recalls nothing, the answer is up to the resident changes. -/
theorem visible_of_silent (tracks : s.Tracks log) (silent : ∀ k r, recollect k r = none)
    (bounded : r ≤ s.revision) (there : (contentsAt log r k).isSome = true) :
    s.visible recollect r k =
      .ok (((s.selected? r k).bind (·.value?)).map .resident) := by
  have within : s.checkRange r = .ok () := if_neg (Nat.not_lt_of_le bounded)
  have listed : ((s.roster? r).any fun roster => !roster.contains k) = false := by
    cases found : s.roster? r with
    | none => rfl
    | some roster => simp [tracks.contains_roster found, there]
  simp only [visible, within, listed, selected?]
  cases filed : s.histories.get? k with
  | none => simp [silent]
  | some h => cases selected : h.select? s.lookup r <;> simp [History.readAt, selected, silent]

theorem getAt_of_silent (tracks : s.Tracks log) (silent : ∀ k r, recollect k r = none)
    (reconciler : Reconciler V) (bounded : r ≤ s.revision)
    (there : (contentsAt log r k).isSome = true) :
    s.getAt reconciler recollect r k =
      match (s.selected? r k).bind (·.value?) with
      | none => .ok none
      | some v => (reconciler.cloned v).map some := by
  rw [getAt, tracks.visible_of_silent silent bounded there]
  cases (s.selected? r k).bind (·.value?) <;> rfl

end Tracks

end Store

end RevisionStore
