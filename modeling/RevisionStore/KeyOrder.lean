/-!
# Keys in order of arrival

A set of keys that remembers the order in which its members arrived is a list
without repetition. `insert` leaves a member where it stands and puts a newcomer
last; `erase` closes the gap. Both keep a repetition-free list repetition-free.
-/

namespace RevisionStore

namespace KeyOrder

variable {K : Type} [DecidableEq K]

/-- Put `k` last unless it is already a member. -/
def insert (keys : List K) (k : K) : List K :=
  if k ∈ keys then keys else keys ++ [k]

/-- Take `k` out, keeping the order of the others. -/
def erase (keys : List K) (k : K) : List K :=
  keys.filter fun k' => k' ≠ k

@[simp] theorem mem_insert {keys : List K} {k k' : K} :
    k' ∈ insert keys k ↔ k' ∈ keys ∨ k' = k := by
  unfold insert
  split
  · rename_i h
    exact ⟨Or.inl, fun o => o.elim id (fun e => e ▸ h)⟩
  · simp

@[simp] theorem mem_erase {keys : List K} {k k' : K} :
    k' ∈ erase keys k ↔ k' ∈ keys ∧ k' ≠ k := by
  simp [erase]

theorem erase_of_not_mem {keys : List K} {k : K} (h : k ∉ keys) : erase keys k = keys := by
  refine List.filter_eq_self.2 fun k' member => ?_
  have : k' ≠ k := fun e => h (e ▸ member)
  simpa using this

theorem nodup_insert {keys : List K} (distinct : keys.Nodup) (k : K) : (insert keys k).Nodup := by
  unfold insert
  split
  · exact distinct
  · rename_i h
    refine List.nodup_append.2 ⟨distinct, by simp, ?_⟩
    intro a ha b hb e
    have : b = k := by simpa using hb
    exact h (this ▸ e ▸ ha)

theorem nodup_erase {keys : List K} (distinct : keys.Nodup) (k : K) : (erase keys k).Nodup :=
  distinct.filter _

end KeyOrder

end RevisionStore
