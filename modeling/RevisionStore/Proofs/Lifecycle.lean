import RevisionStore.Proofs.Draft.Staging
import RevisionStore.Proofs.Timeline
import RevisionStore.Draft.Update
import Mathlib.Computability.RegularExpressions

/-!
# Lives of keys

A key is added, modified any number of times and removed, and then it can be added again:
`ChangeKind.lives` is that protocol as a regular expression. A log is `Orderly` if each of
its commits `Fits` the contents it was made on, which is what a store checks. In an orderly
log the kinds of the changes of every key are the beginning of a word of the protocol
(`Orderly.lifecycle`), where the key is alive exactly if there is something under it.
-/

namespace RevisionStore

/-! ## The protocol -/

namespace ChangeKind

open RegularExpression

/-- An addition and modifications. -/
def growth : RegularExpression ChangeKind :=
  char added * star (char modified)

/-- Any number of times an addition, modifications and a removal. -/
def lives : RegularExpression ChangeKind :=
  star (growth * char deleted)

/-- The kinds of the changes of a key that is alive, or is not. -/
def Lifecycle (alive : Bool) (kinds : List ChangeKind) : Prop :=
  kinds ∈ (if alive then lives * growth else lives).matches'

variable {alive : Bool} {kinds : List ChangeKind}

theorem append_mem_star {l : Language ChangeKind} {word : List ChangeKind}
    (done : kinds ∈ KStar.kstar l) (next : word ∈ l) : kinds ++ word ∈ KStar.kstar l :=
  Set.mem_of_mem_of_subset (Language.append_mem_mul done next) (kstar_mul_le_kstar (a := l))

namespace Lifecycle

theorem nil : Lifecycle false [] :=
  Language.nil_mem_kstar _

theorem added (past : Lifecycle false kinds) : Lifecycle true (kinds ++ [.added]) := by
  have begun : [.added] ∈ growth.matches' :=
    Language.append_mem_mul (Set.mem_singleton [ChangeKind.added]) (Language.nil_mem_kstar _)
  exact Language.append_mem_mul past begun

theorem modified (living : Lifecycle true kinds) : Lifecycle true (kinds ++ [.modified]) := by
  obtain ⟨before, past, _, ⟨first, begun, later, grown, rfl⟩, rfl⟩ := living
  have grown' : later ++ [.modified] ∈ (star (char ChangeKind.modified)).matches' :=
    append_mem_star grown (Set.mem_singleton _)
  rw [List.append_assoc, List.append_assoc]
  exact Language.append_mem_mul past (Language.append_mem_mul begun grown')

theorem deleted (living : Lifecycle true kinds) : Lifecycle false (kinds ++ [.deleted]) := by
  obtain ⟨before, past, life, grown, rfl⟩ := living
  have ended : life ++ [.deleted] ∈ (growth * char ChangeKind.deleted).matches' :=
    Language.append_mem_mul grown (Set.mem_singleton _)
  rw [List.append_assoc]
  exact append_mem_star past ended

/-- The life of a key that is alive can be completed. -/
theorem exists_word (lifecycle : Lifecycle alive kinds) :
    ∃ word ∈ lives.matches', kinds <+: word := by
  cases alive with
  | false => exact ⟨kinds, lifecycle, List.prefix_rfl⟩
  | true => exact ⟨_, lifecycle.deleted, List.prefix_append _ _⟩

end Lifecycle

end ChangeKind

open ChangeKind (Lifecycle)

variable {K V : Type} [DecidableEq K]

/-! ## Orderly logs -/

/-- What a store sees to before it takes a commit: additions are of keys that are not there,
other changes of keys that are, and a value is there unless the key is removed. -/
structure Commit.Fits (c : Commit K V) (contents : K → Option V) : Prop where
  staged : c.draft.WellStaged
  fresh : ∀ k ∈ c.draft.added, contents k = none
  live : ∀ k, k ∈ c.draft.touched ∨ k ∈ c.draft.removed → (contents k).isSome = true
  lasting : ∀ k kind, c.kind? k = some kind →
    (c.after contents k).isSome = decide (kind ≠ .deleted)

/-- Every commit fits the contents it was made on. -/
def Orderly (log : List (Commit K V)) : Prop :=
  ∀ (n : Nat) (c : Commit K V), log[n]? = some c → c.Fits (contentsAt log n)

variable {log : List (Commit K V)} {c c' : Commit K V} {contents : K → Option V} {k : K}
  {kinds : List ChangeKind} {m n : Nat}

namespace Commit.Fits

/-- No key is staged twice, be it in one list or in two. -/
theorem nodup_staged (fits : c.Fits contents) : c.draft.staged.Nodup := by
  have staged := fits.staged
  have untouched : ∀ k ∈ c.draft.added, k ∉ c.draft.touched := by
    intro k added touched
    have live := fits.live k (.inl touched)
    rw [fits.fresh k added] at live
    cases live
  rw [Draft.staged, List.nodup_append, List.nodup_append]
  refine ⟨⟨staged.added_nodup, staged.touched_nodup, ?_⟩, staged.removed_nodup, ?_⟩
  · rintro k added _ touched rfl
    exact untouched k added touched
  · rintro k changed _ removed rfl
    cases List.mem_append.1 changed with
    | inl added => exact staged.not_added k removed added
    | inr touched => exact staged.not_touched k removed touched

/-- A commit that fits carries the life of every key on. -/
theorem lifecycle_after (fits : c.Fits contents) (k : K)
    (lifecycle : Lifecycle (contents k).isSome kinds) :
    Lifecycle (c.after contents k).isSome (kinds ++ (c.kind? k).toList) := by
  cases does : c.kind? k with
  | none => simpa [Commit.after, does] using lifecycle
  | some kind =>
    rw [fits.lasting k kind does]
    cases kind with
    | added =>
      have added := (Commit.kind?_eq_added_iff.1 does).2
      rw [fits.fresh k added] at lifecycle
      exact lifecycle.added
    | modified =>
      have touched := (Commit.kind?_eq_modified_iff.1 does).2.2
      rw [fits.live k (.inl touched)] at lifecycle
      exact lifecycle.modified
    | deleted =>
      rw [fits.live k (.inr (Commit.kind?_eq_deleted_iff.1 does))] at lifecycle
      exact lifecycle.deleted

end Commit.Fits

namespace Orderly

theorem nil : Orderly ([] : List (Commit K V)) := by
  intro n c found
  simp at found

theorem concat (orderly : Orderly log) (fits : c.Fits (contentsAt log log.length)) :
    Orderly (log ++ [c]) := by
  intro n c' found
  have bound : n ≤ log.length := by
    have inside := (List.getElem?_eq_some_iff.1 found).1
    simp at inside
    omega
  rw [contentsAt_append_of_le bound]
  cases Nat.lt_or_eq_of_le bound with
  | inl inside =>
    rw [List.getElem?_append_left inside] at found
    exact orderly n c' found
  | inr last =>
    subst last
    have same : c = c' := by simpa using found
    exact same ▸ fits

/-- The kinds of the changes of a key up to some revision follow the protocol. -/
theorem lifecycle (orderly : Orderly log) (k : K) (r : Revision) :
    Lifecycle (contentsAt log r k).isSome ((log.take r).filterMap (·.kind? k)) := by
  induction r with
  | zero => simpa using Lifecycle.nil
  | succ r ih =>
    rw [List.take_add_one, List.filterMap_append]
    cases found : log[r]? with
    | none => simpa [contentsAt_succ_of_none found] using ih
    | some c =>
      have one : [c].filterMap (·.kind? k) = (c.kind? k).toList := by
        cases does : c.kind? k <;> simp [does]
      rw [contentsAt_succ found, Option.toList_some, one]
      exact (orderly r c found).lifecycle_after k ih

/-- What has been there and is gone was removed in between. -/
theorem exists_removal (orderly : Orderly log) (before : m ≤ n)
    (there : (contentsAt log m k).isSome = true) (gone : contentsAt log n k = none) :
    ∃ j c, m ≤ j ∧ j < n ∧ log[j]? = some c ∧ k ∈ c.draft.removed := by
  induction n, before using Nat.le_induction with
  | base => simp [gone] at there
  | succ n before ih =>
    cases found : log[n]? with
    | none =>
      rw [contentsAt_succ_of_none found] at gone
      obtain ⟨j, c, after, earlier, rest⟩ := ih gone
      exact ⟨j, c, after, Nat.lt_succ_of_lt earlier, rest⟩
    | some c =>
      rw [contentsAt_succ found] at gone
      cases does : c.kind? k with
      | none =>
        obtain ⟨j, c, after, earlier, rest⟩ := ih (by simpa [Commit.after, does] using gone)
        exact ⟨j, c, after, Nat.lt_succ_of_lt earlier, rest⟩
      | some kind =>
        have lasting := (orderly n c found).lasting k kind does
        have removed : kind = .deleted := by simpa [gone] using lasting
        subst removed
        exact ⟨n, c, before, Nat.lt_succ_self n, found, Commit.kind?_eq_deleted_iff.1 does⟩

/-- Between two additions of a key lies a removal. -/
theorem exists_removal_of_additions (orderly : Orderly log) (before : m < n)
    (first : log[m]? = some c) (second : log[n]? = some c') (added : k ∈ c.draft.added)
    (added' : k ∈ c'.draft.added) :
    ∃ j c, m < j ∧ j < n ∧ log[j]? = some c ∧ k ∈ c.draft.removed := by
  have fits := orderly m c first
  have unremoved : k ∉ c.draft.removed := fun removed => fits.staged.not_added k removed added
  have does : c.kind? k = some .added := Commit.kind?_eq_added_iff.2 ⟨unremoved, added⟩
  have there : (contentsAt log (m + 1) k).isSome = true := by
    rw [contentsAt_succ first, fits.lasting k _ does]
    rfl
  exact orderly.exists_removal before there ((orderly n c' second).fresh k added')

end Orderly

end RevisionStore
