import RevisionStore.Draft
import RevisionStore.Reconciler
import RevisionStore.Change
import Mathlib.Tactic.SplitIfs

/-!
# Timelines

The reference against which stores are measured. A `Commit` is a draft as it stood when
it was committed, with the reconciler in force; a list of them, oldest first, is a log.
`contentsAt log r` is what the first `r` commits of a log leave under each key, computed
from nothing but the commits: no history, no roster, no expiry.
-/

namespace RevisionStore

/-- A draft as it stood when it was committed, with the reconciler in force. -/
structure Commit (K : Type) (V : Type) where
  reconciler : Reconciler V
  draft : Draft K V

namespace Commit

variable {K V : Type}

/-- A clone of a value, if the reconciler gives one. -/
def clone? (c : Commit K V) (v : V) : Option V :=
  (c.reconciler.clone v).toOption

/-- The merge of two values, if the reconciler gives one. -/
def merge? (c : Commit K V) (repository own : V) : Option V :=
  (c.reconciler.merge repository own).toOption

variable [DecidableEq K]

/-- What a commit does to a key, if it does anything. -/
def kind? (c : Commit K V) (k : K) : Option ChangeKind :=
  if k ∈ c.draft.removed then some .deleted
  else if k ∈ c.draft.added then some .added
  else if k ∈ c.draft.touched then some .modified
  else none

/-- What is under `k` after a commit, if `contents` is what was there before: removed keys
are gone, an added key has a clone of the held value, and a modified key a clone of the
merge of what was there with the held value. -/
def after (c : Commit K V) (contents : K → Option V) (k : K) : Option V :=
  match c.kind? k with
  | none => contents k
  | some .deleted => none
  | some .added => (c.draft.local? k).bind c.clone?
  | some .modified =>
    (contents k).bind fun repository =>
      (c.draft.local? k).bind fun own => (c.merge? repository own).bind c.clone?

/-- The change that a commit records for `k` at `r`, if it records any. -/
def change? (c : Commit K V) (contents : K → Option V) (r : Revision) (k : K) :
    Option (Change K V) :=
  (c.kind? k).map fun kind => ⟨k, c.after contents k, kind, r⟩

variable {c : Commit K V} {contents contents' : K → Option V} {r : Revision} {k : K}

theorem kind?_eq_none_iff :
    c.kind? k = none ↔ k ∉ c.draft.removed ∧ k ∉ c.draft.added ∧ k ∉ c.draft.touched := by
  simp only [kind?]
  split_ifs <;> simp_all

theorem kind?_eq_deleted_iff : c.kind? k = some .deleted ↔ k ∈ c.draft.removed := by
  simp only [kind?]
  split_ifs <;> simp_all

theorem kind?_eq_added_iff :
    c.kind? k = some .added ↔ k ∉ c.draft.removed ∧ k ∈ c.draft.added := by
  simp only [kind?]
  split_ifs <;> simp_all

theorem kind?_eq_modified_iff :
    c.kind? k = some .modified ↔
      k ∉ c.draft.removed ∧ k ∉ c.draft.added ∧ k ∈ c.draft.touched := by
  simp only [kind?]
  split_ifs <;> simp_all

theorem after_of_change?_eq_none (unchanged : c.change? contents r k = none) :
    c.after contents k = contents k := by
  have nothing : c.kind? k = none := by simpa [change?] using unchanged
  simp [after, nothing]

/-- A recorded change is of the key and revision it is recorded for, and carries what is
under the key afterwards. -/
theorem of_change?_eq_some {change : Change K V} (changed : c.change? contents r k = some change) :
    c.kind? k = some change.kind ∧ change.key = k ∧ change.revision = r ∧
      change.value? = c.after contents k := by
  obtain ⟨kind, does, rfl⟩ := Option.map_eq_some_iff.1 changed
  exact ⟨does, rfl, rfl, rfl⟩

end Commit

variable {K V : Type} [DecidableEq K]

/-- What the first `r` commits of a log leave under each key. -/
def contentsAt (log : List (Commit K V)) (r : Revision) : K → Option V :=
  (log.take r).foldl (fun contents c => c.after contents) fun _ => none

variable {log : List (Commit K V)} {c : Commit K V} {r : Revision}

@[simp] theorem contentsAt_zero (log : List (Commit K V)) : contentsAt log 0 = fun _ => none := by
  simp [contentsAt]

/-- Further commits leave the earlier contents alone. -/
theorem contentsAt_append_of_le {more : List (Commit K V)} (earlier : r ≤ log.length) :
    contentsAt (log ++ more) r = contentsAt log r := by
  simp [contentsAt, List.take_append_of_le_length earlier]

theorem contentsAt_succ (next : log[r]? = some c) :
    contentsAt log (r + 1) = c.after (contentsAt log r) := by
  simp [contentsAt, List.take_add_one, next]

theorem contentsAt_succ_of_none (ended : log[r]? = none) :
    contentsAt log (r + 1) = contentsAt log r := by
  simp [contentsAt, List.take_add_one, ended]

/-- No commit changes `k` after revision `a` and up to `b`. -/
def Untouched (log : List (Commit K V)) (k : K) (a b : Revision) : Prop :=
  ∀ (n : Nat) (c : Commit K V), a ≤ n → n < b → log[n]? = some c → c.kind? k = none

/-- What is not touched stays as it is. -/
theorem contentsAt_eq_of_untouched {k : K} {a b : Revision} (untouched : Untouched log k a b)
    (before : a ≤ b) : contentsAt log a k = contentsAt log b k := by
  induction before with
  | refl => rfl
  | @step b before ih =>
    have same := ih fun n c later earlier => untouched n c later (Nat.lt_succ_of_lt earlier)
    rw [same]
    cases found : log[b]? with
    | none => rw [contentsAt_succ_of_none found]
    | some c =>
      have nothing := untouched b c before (Nat.lt_succ_self b) found
      simp [contentsAt_succ found, Commit.after, nothing]

theorem contentsAt_append_succ :
    contentsAt (log ++ [c]) (log.length + 1) = c.after (contentsAt log log.length) := by
  have next : (log ++ [c])[log.length]? = some c := by simp
  rw [contentsAt_succ next, contentsAt_append_of_le (Nat.le_refl _)]

end RevisionStore
