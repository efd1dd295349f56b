import Mathlib.Data.Finset.Basic
import RevisionStore.Proofs.Draft.Requests

/-!
# Drafts with index sets

The three lists of a draft answer whether a key is among them by being searched. `IndexedDraft`
keeps an index set beside each list and asks nothing else: whether a key is put, taken out or
found is up to the index alone. As long as the indexes agree with the lists, which no operation
ever changes (`IndexedDraft.Agrees.mutate`), this is the same draft (`plain_mutate`).

`Mutation` lists what drafts are asked to do with their collections. Every request comes down to
some of them (`exists_mutations_of_evolves`).
-/

namespace RevisionStore

variable {K V : Type} [DecidableEq K]

/-! ## Indexed keys -/

/-- Keys in order of arrival, with an index of those that there are. -/
structure IndexedKeys (K : Type) where
  order : List K
  index : Finset K

namespace IndexedKeys

def empty : IndexedKeys K :=
  ⟨[], ∅⟩

def contains (keys : IndexedKeys K) (k : K) : Bool :=
  k ∈ keys.index

/-- Put `k` last unless it is in the index. -/
def insert (keys : IndexedKeys K) (k : K) : IndexedKeys K :=
  if keys.contains k then keys else ⟨keys.order ++ [k], Insert.insert k keys.index⟩

/-- Take `k` out if it is in the index; answers whether it was. -/
def erase (keys : IndexedKeys K) (k : K) : Bool × IndexedKeys K :=
  if keys.contains k then
    (true, ⟨keys.order.filter fun k' => k' ≠ k, keys.index.erase k⟩)
  else
    (false, keys)

/-- The index has the listed keys, and the list has each of them once. -/
structure Agrees (keys : IndexedKeys K) : Prop where
  distinct : keys.order.Nodup
  mem_iff : ∀ k, k ∈ keys.index ↔ k ∈ keys.order

variable {keys : IndexedKeys K} {k : K}

omit [DecidableEq K] in
theorem agrees_empty : (empty : IndexedKeys K).Agrees :=
  ⟨.nil, fun k => by simp [empty]⟩

namespace Agrees

theorem contains_eq (agrees : keys.Agrees) : keys.contains k = decide (k ∈ keys.order) := by
  simp [contains, agrees.mem_iff]

theorem order_insert (agrees : keys.Agrees) :
    (keys.insert k).order = KeyOrder.insert keys.order k := by
  simp only [insert, KeyOrder.insert, agrees.contains_eq, decide_eq_true_eq]
  split <;> rfl

theorem insert (agrees : keys.Agrees) : (keys.insert k).Agrees where
  distinct := agrees.order_insert ▸ KeyOrder.nodup_insert agrees.distinct k
  mem_iff k' := by
    rw [agrees.order_insert, KeyOrder.mem_insert]
    simp only [IndexedKeys.insert, agrees.contains_eq, decide_eq_true_eq]
    split
    next there =>
      rw [agrees.mem_iff]
      exact ⟨.inl, fun either => either.elim id fun same => same ▸ there⟩
    next => rw [Finset.mem_insert, agrees.mem_iff, or_comm]

theorem erase_fst (agrees : keys.Agrees) : (keys.erase k).1 = decide (k ∈ keys.order) := by
  rw [← agrees.contains_eq, IndexedKeys.erase]
  split
  next there => exact there.symm
  next absent => simpa using absent

theorem order_erase (agrees : keys.Agrees) :
    (keys.erase k).2.order = KeyOrder.erase keys.order k := by
  simp only [erase, agrees.contains_eq, decide_eq_true_eq]
  split
  next => rfl
  next absent => exact (KeyOrder.erase_of_not_mem absent).symm

theorem erase (agrees : keys.Agrees) : (keys.erase k).2.Agrees where
  distinct := agrees.order_erase ▸ KeyOrder.nodup_erase agrees.distinct k
  mem_iff k' := by
    rw [agrees.order_erase, KeyOrder.mem_erase]
    simp only [IndexedKeys.erase, agrees.contains_eq, decide_eq_true_eq]
    split
    next => rw [Finset.mem_erase, agrees.mem_iff, and_comm]
    next absent =>
      rw [agrees.mem_iff]
      exact ⟨fun there => ⟨there, fun same => absent (same ▸ there)⟩, And.left⟩

end Agrees

end IndexedKeys

/-! ## Indexed drafts -/

/-- Staged changes over a base revision, with an index beside each list of keys. -/
structure IndexedDraft (K : Type) (V : Type) where
  base : Roster K
  added : IndexedKeys K
  removed : IndexedKeys K
  touched : IndexedKeys K
  held : Dict K V
  version : Nat

/-- What a draft can be asked to do with its collections. -/
inductive Mutation (K : Type) (V : Type) where
  | add (k : K) (v : V)
  | replace (k : K) (v : V)
  | remove (k : K)
  | revert
  -- a value is read through
  | holdRead (k : K) (v : V)
  -- a refresh
  | setLocal (k : K) (v : V)
  -- an edit in place
  | overwrite (k : K) (v : V)

/-- What a mutation leaves of a draft: one that is refused leaves all of it. -/
def Draft.mutate (d : Draft K V) : Mutation K V → Draft K V
  | .add k v => d.add k v
  | .replace k v => (d.replace k v).toOption.getD d
  | .remove k => d.settled (d.remove k)
  | .revert => d.revert
  | .holdRead k v => d.holdRead k v
  | .setLocal k v => d.setLocal k v
  | .overwrite k v => d.overwrite k v

namespace IndexedDraft

def new (base : Roster K) : IndexedDraft K V :=
  ⟨base, .empty, .empty, .empty, .empty, 0⟩

def add (x : IndexedDraft K V) (k : K) (v : V) : IndexedDraft K V :=
  let (restored, removed) := x.removed.erase k
  if restored then
    { x with
      removed := removed
      touched := x.touched.insert k
      held := x.held.put k v
      version := x.version + 1 }
  else
    { x with added := x.added.insert k, held := x.held.put k v, version := x.version + 1 }

def replace (x : IndexedDraft K V) (k : K) (v : V) : Except Violation (IndexedDraft K V) :=
  if x.added.contains k then
    .ok { x with held := x.held.put k v, version := x.version + 1 }
  else if x.removed.contains k then
    .error .replaceRemoved
  else if x.base.contains k then
    .ok { x with
      touched := x.touched.insert k
      held := x.held.put k v
      version := x.version + 1 }
  else
    .error (.replaceAbsent x.base.revision)

def remove (x : IndexedDraft K V) (k : K) : Except Violation (Bool × IndexedDraft K V) :=
  let (unstaged, added) := x.added.erase k
  if unstaged then
    .ok (true, { x with added := added, held := x.held.erase k, version := x.version + 1 })
  else if x.removed.contains k then
    .ok (false, x)
  else if x.base.contains k then
    .ok (true, { x with
      removed := x.removed.insert k
      touched := (x.touched.erase k).2
      held := x.held.erase k
      version := x.version + 1 })
  else
    .error (.removeAbsent x.base.revision)

def mutate (x : IndexedDraft K V) : Mutation K V → IndexedDraft K V
  | .add k v => x.add k v
  | .replace k v => (x.replace k v).toOption.getD x
  | .remove k => ((x.remove k).toOption.map Prod.snd).getD x
  | .revert =>
    { x with
      added := .empty
      removed := .empty
      touched := .empty
      held := .empty
      version := x.version + 1 }
  | .holdRead k v =>
    { x with
      touched := x.touched.insert k
      held := if x.held.contains k then x.held else x.held.put k v }
  | .setLocal k v => { x with held := x.held.put k v, version := x.version + 1 }
  | .overwrite k v => if x.held.contains k then { x with held := x.held.put k v } else x

/-- The draft without its indexes. -/
def plain (x : IndexedDraft K V) : Draft K V :=
  ⟨x.base, x.added.order, x.removed.order, x.touched.order, x.held, x.version⟩

/-- Every index agrees with its list. -/
structure Agrees (x : IndexedDraft K V) : Prop where
  added : x.added.Agrees
  removed : x.removed.Agrees
  touched : x.touched.Agrees

variable {x : IndexedDraft K V} {k : K} {v : V}

omit [DecidableEq K] in
theorem agrees_new (base : Roster K) : (new base : IndexedDraft K V).Agrees :=
  ⟨IndexedKeys.agrees_empty, IndexedKeys.agrees_empty, IndexedKeys.agrees_empty⟩

section Simulation

variable (agrees : x.Agrees)
include agrees

/-! ## The indexes decide as the lists do -/

theorem plain_add : (x.add k v).plain = x.plain.add k v := by
  simp only [add, Draft.add, Draft.isRemoved, plain, agrees.removed.erase_fst]
  by_cases gone : k ∈ x.removed.order
  · simp [gone, agrees.removed.order_erase, agrees.touched.order_insert]
  · simp [gone, agrees.added.order_insert]

theorem plain_replace : (x.replace k v).map plain = x.plain.replace k v := by
  simp only [replace, Draft.replace, Draft.isAdded, Draft.isRemoved, Draft.revision, plain,
    agrees.added.contains_eq, agrees.removed.contains_eq]
  by_cases staged : k ∈ x.added.order
  · simp [staged, Except.map, plain]
  by_cases gone : k ∈ x.removed.order
  · simp [staged, gone, Except.map]
  by_cases listed : x.base.contains k = true
  · simp [staged, gone, listed, Except.map, plain, agrees.touched.order_insert]
  · simp [staged, gone, listed, Except.map]

theorem plain_remove :
    (x.remove k).map (fun (b, x') => (b, x'.plain)) = x.plain.remove k := by
  simp only [remove, Draft.remove, Draft.isAdded, Draft.isRemoved, Draft.revision, plain,
    agrees.added.erase_fst, agrees.removed.contains_eq]
  by_cases staged : k ∈ x.added.order
  · simp [staged, Except.map, agrees.added.order_erase]
  by_cases gone : k ∈ x.removed.order
  · simp [staged, gone, Except.map]
  by_cases listed : x.base.contains k = true
  · simp [staged, gone, listed, Except.map, agrees.removed.order_insert,
      agrees.touched.order_erase]
  · simp [staged, gone, listed, Except.map]

theorem plain_mutate (m : Mutation K V) : (x.mutate m).plain = x.plain.mutate m := by
  cases m with
  | add k v => exact plain_add agrees
  | replace k v =>
    simp only [mutate, Draft.mutate, ← plain_replace agrees]
    cases x.replace k v <;> rfl
  | remove k =>
    simp only [mutate, Draft.mutate, ← plain_remove agrees]
    cases x.remove k <;> rfl
  | revert => rfl
  | holdRead k v =>
    simp only [mutate, Draft.mutate, Draft.holdRead, plain, agrees.touched.order_insert]
    rfl
  | setLocal k v => rfl
  | overwrite k v =>
    simp only [mutate, Draft.mutate, Draft.overwrite, plain]
    by_cases held : x.held.contains k = true
    · simp only [held, if_true]
    · simp only [held, if_false, Bool.false_eq_true]

/-! ## The indexes go on agreeing -/

theorem Agrees.add : (x.add k v).Agrees := by
  simp only [IndexedDraft.add]
  split
  next => exact ⟨agrees.added, agrees.removed.erase, agrees.touched.insert⟩
  next => exact ⟨agrees.added.insert, agrees.removed, agrees.touched⟩

theorem Agrees.replace {x' : IndexedDraft K V} (replaced : x.replace k v = .ok x') :
    x'.Agrees := by
  simp only [IndexedDraft.replace] at replaced
  split at replaced
  next => cases replaced; exact ⟨agrees.added, agrees.removed, agrees.touched⟩
  next =>
    split at replaced
    next => cases replaced
    next =>
      split at replaced
      next => cases replaced; exact ⟨agrees.added, agrees.removed, agrees.touched.insert⟩
      next => cases replaced

theorem Agrees.remove {b : Bool} {x' : IndexedDraft K V} (removed : x.remove k = .ok (b, x')) :
    x'.Agrees := by
  simp only [IndexedDraft.remove] at removed
  split at removed
  next => cases removed; exact ⟨agrees.added.erase, agrees.removed, agrees.touched⟩
  next =>
    split at removed
    next => cases removed; exact agrees
    next =>
      split at removed
      next => cases removed; exact ⟨agrees.added, agrees.removed.insert, agrees.touched.erase⟩
      next => cases removed

theorem Agrees.mutate (m : Mutation K V) : (x.mutate m).Agrees := by
  cases m with
  | add k v => exact agrees.add
  | replace k v =>
    simp only [IndexedDraft.mutate]
    cases replaced : x.replace k v with
    | error rule => exact agrees
    | ok x' => exact agrees.replace replaced
  | remove k =>
    simp only [IndexedDraft.mutate]
    cases removed : x.remove k with
    | error rule => exact agrees
    | ok answer => exact agrees.remove removed
  | revert =>
    have empty : (IndexedKeys.empty : IndexedKeys K).Agrees := IndexedKeys.agrees_empty
    exact ⟨empty, empty, empty⟩
  | holdRead k v => exact ⟨agrees.added, agrees.removed, agrees.touched.insert⟩
  | setLocal k v => exact ⟨agrees.added, agrees.removed, agrees.touched⟩
  | overwrite k v =>
    simp only [IndexedDraft.mutate]
    split
    next => exact ⟨agrees.added, agrees.removed, agrees.touched⟩
    next => exact agrees

/-- Any number of mutations lead to the same draft with the indexes and without them. -/
theorem simulates (mutations : List (Mutation K V)) :
    (mutations.foldl mutate x).Agrees ∧
      (mutations.foldl mutate x).plain = mutations.foldl Draft.mutate x.plain := by
  induction mutations generalizing x with
  | nil => exact ⟨agrees, rfl⟩
  | cons m rest ih =>
    rw [List.foldl_cons, List.foldl_cons, ← plain_mutate agrees]
    exact ih (agrees.mutate m)

end Simulation

end IndexedDraft

/-! ## Requests come down to mutations -/

namespace Draft

variable {d d' : Draft K V}

theorem exists_mutation_of_step (step : Step d d') : ∃ m, d' = d.mutate m := by
  cases step with
  | add k v => exact ⟨.add k v, rfl⟩
  | @replace _ k v replaced => exact ⟨.replace k v, by simp [mutate, replaced, Except.toOption]⟩
  | @remove _ k _ removed => exact ⟨.remove k, by simp [mutate, removed, settled]⟩
  | revert => exact ⟨.revert, rfl⟩
  | glance glance =>
    cases glance with
    | hold v => exact ⟨.holdRead _ v, rfl⟩
    | overwrite k v => exact ⟨.overwrite k v, rfl⟩
  | rewrite rewrite =>
    cases rewrite with
    | refresh v => exact ⟨.setLocal _ v, rfl⟩

theorem exists_mutations_of_evolves (evolves : Evolves d d') :
    ∃ mutations : List (Mutation K V), d' = mutations.foldl mutate d := by
  induction evolves with
  | refl => exact ⟨[], rfl⟩
  | tail _ step ih =>
    obtain ⟨mutations, rfl⟩ := ih
    obtain ⟨m, rfl⟩ := exists_mutation_of_step step
    exact ⟨mutations ++ [m], by simp⟩

end Draft

end RevisionStore
