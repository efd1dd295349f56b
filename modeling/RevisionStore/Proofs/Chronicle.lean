import RevisionStore.Proofs.Timeline
import Mathlib.Data.List.Basic
import Mathlib.Data.List.Induction

/-!
# The changes of a log

`changesOf log k` is the history that `k` would have if nothing were ever pruned: every change
that the commits of the log make to `k`, oldest first. `lastChange?` is the last of them at or
before a revision, and the contents of the log are what it records
(`contentsAt_eq_lastChange?`).
-/

namespace RevisionStore

variable {K V : Type} [DecidableEq K]

/-- The changes that the commits of a log make to `k`, oldest first. -/
def changesOf (log : List (Commit K V)) (k : K) : List (Change K V) :=
  log.zipIdx.filterMap fun (c, n) => c.change? (contentsAt log n) (n + 1) k

/-- The last change that a log makes to `k` at or before revision `r`. -/
def lastChange? (log : List (Commit K V)) (r : Revision) (k : K) : Option (Change K V) :=
  ((changesOf log k).filter fun change => change.revision ≤ r).getLast?

variable {log : List (Commit K V)} {c : Commit K V} {change : Change K V} {r : Revision} {k : K}

theorem mem_changesOf :
    change ∈ changesOf log k ↔ ∃ (n : Nat) (c : Commit K V), log[n]? = some c ∧
      c.change? (contentsAt log n) (n + 1) k = some change := by
  simp only [changesOf, List.mem_filterMap, Prod.exists, List.mk_mem_zipIdx_iff_getElem?]
  exact exists_comm

/-- The changes of a log lie within the log. -/
theorem revision_le_of_mem_changesOf (made : change ∈ changesOf log k) :
    change.revision ≤ log.length := by
  obtain ⟨n, c, found, does⟩ := mem_changesOf.1 made
  rw [(Commit.of_change?_eq_some does).2.2.1]
  exact (List.getElem?_eq_some_iff.1 found).1

/-- A further commit adds its change at the end. -/
theorem changesOf_concat (log : List (Commit K V)) (c : Commit K V) (k : K) :
    changesOf (log ++ [c]) k =
      changesOf log k ++ (c.change? (contentsAt log log.length) (log.length + 1) k).toList := by
  have before : ∀ entry ∈ log.zipIdx,
      entry.1.change? (contentsAt (log ++ [c]) entry.2) (entry.2 + 1) k =
        entry.1.change? (contentsAt log entry.2) (entry.2 + 1) k := by
    intro entry member
    have found := List.mem_zipIdx_iff_getElem?.1 member
    have bound : entry.2 < log.length := (List.getElem?_eq_some_iff.1 found).1
    rw [contentsAt_append_of_le (Nat.le_of_lt bound)]
  simp only [changesOf, List.zipIdx_append, List.filterMap_append, List.zipIdx_singleton,
    Nat.zero_add]
  rw [List.filterMap_congr before]
  cases does : c.change? (contentsAt log log.length) (log.length + 1) k <;>
    simp [contentsAt_append_of_le (Nat.le_refl _), does]

/-- Further commits leave the last change at an earlier revision alone. -/
theorem lastChange?_concat_of_le (earlier : r ≤ log.length) :
    lastChange? (log ++ [c]) r k = lastChange? log r k := by
  simp only [lastChange?, changesOf_concat, List.filter_append]
  cases does : c.change? (contentsAt log log.length) (log.length + 1) k with
  | none => simp
  | some change =>
    have later : ¬ change.revision ≤ r := by
      rw [(Commit.of_change?_eq_some does).2.2.1]
      exact Nat.not_le_of_lt (Nat.lt_succ_of_le earlier)
    simp [later]

/-- At the revision of a commit its own change is the last one, if it makes any. -/
theorem lastChange?_concat_succ :
    lastChange? (log ++ [c]) (log.length + 1) k =
      (c.change? (contentsAt log log.length) (log.length + 1) k).or
        (lastChange? log log.length k) := by
  have old : ∀ change ∈ changesOf log k,
      decide (change.revision ≤ log.length + 1) = decide (change.revision ≤ log.length) := by
    intro change member
    have bound := revision_le_of_mem_changesOf member
    simp [bound, Nat.le_succ_of_le bound]
  simp only [lastChange?, changesOf_concat, List.filter_append, List.filter_congr old]
  cases does : c.change? (contentsAt log log.length) (log.length + 1) k with
  | none => simp
  | some change => simp [(Commit.of_change?_eq_some does).2.2.1]

/-- What is under a key is what its last change records. -/
theorem contentsAt_eq_lastChange? (bound : r ≤ log.length) :
    contentsAt log r k = (lastChange? log r k).bind (·.value?) := by
  induction log using List.reverseRecOn generalizing r with
  | nil => simp [contentsAt, lastChange?, changesOf]
  | append_singleton log c ih =>
    rw [List.length_append, List.length_singleton] at bound
    obtain rfl | earlier := Nat.eq_or_lt_of_le bound
    · rw [contentsAt_append_succ, lastChange?_concat_succ]
      cases does : c.change? (contentsAt log log.length) (log.length + 1) k with
      | none => rw [Commit.after_of_change?_eq_none does, Option.none_or, ih (Nat.le_refl _)]
      | some change => simp [(Commit.of_change?_eq_some does).2.2.2]
    · have earlier := Nat.le_of_lt_succ earlier
      rw [contentsAt_append_of_le earlier, lastChange?_concat_of_le earlier, ih earlier]

end RevisionStore
