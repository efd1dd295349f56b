import Mathlib.Data.List.Nodup
import RevisionStore.Draft.Update
import RevisionStore.Proofs.Draft.Staging

/-!
# Refreshing a draft from the store's values

A refresh overwrites nothing but what is held for touched keys (`Draft.Refreshed`). Each touched
key for which the store has a value is refreshed as often as it comes up among the keys that are
asked for (`Draft.reconciled_refreshAll`), which is once, or twice if it is added as well.

A refresh in the mode `replace` writes the store's value, however often it does so. It is refused
exactly if a staged key for which the store has a value counts as a conflict (`update_replace`).
-/

namespace RevisionStore

variable {K V : Type}

/-- Those of some keys that have a value, with their values, in the order of the keys. -/
def pairsOf (value? : K → Option V) (keys : List K) : List (K × V) :=
  keys.filterMap fun k => (value? k).map fun v => (k, v)

section pairsOf

variable {value? : K → Option V} {keys : List K} {k : K} {v : V}

theorem pairsOf_cons_of_none (none' : value? k = none) :
    pairsOf value? (k :: keys) = pairsOf value? keys := by
  simp [pairsOf, none']

theorem pairsOf_cons_of_some (some' : value? k = some v) :
    pairsOf value? (k :: keys) = (k, v) :: pairsOf value? keys := by
  simp [pairsOf, some']

theorem mem_pairsOf : (k, v) ∈ pairsOf value? keys ↔ k ∈ keys ∧ value? k = some v := by
  simp only [pairsOf, List.mem_filterMap, Option.map_eq_some_iff, Prod.mk.injEq]
  constructor
  · rintro ⟨_, member, _, found, rfl, rfl⟩
    exact ⟨member, found⟩
  · rintro ⟨member, found⟩
    exact ⟨k, member, v, found, rfl, rfl⟩

/-- If all keys have values, they are the keys of the pairs. -/
theorem map_fst_pairsOf (all : ∀ k ∈ keys, (value? k).isSome = true) :
    (pairsOf value? keys).map Prod.fst = keys := by
  induction keys with
  | nil => rfl
  | cons k keys ih =>
    obtain ⟨v, found⟩ := Option.isSome_iff_exists.1 (all k List.mem_cons_self)
    rw [pairsOf_cons_of_some found, List.map_cons, ih fun k' member =>
      all k' (List.mem_cons_of_mem k member)]

end pairsOf

namespace Draft

variable [DecidableEq K] {value? : K → Option V} {reconciler : Reconciler V}

omit [DecidableEq K] in
theorem touched_eq_nil_of_staged {d : Draft K V} (nothing : d.staged = []) : d.touched = [] := by
  simp only [staged, List.append_eq_nil_iff] at nothing
  exact nothing.1.2

/-! ## What a refresh leaves alone -/

/-- A draft before and after a refresh, which overwrites nothing but what is held for touched
keys. -/
structure Refreshed (d d' : Draft K V) : Prop extends SameKeys d d' where
  touched : d'.touched = d.touched
  spared : ∀ k, k ∉ d.touched → d'.local? k = d.local? k
  -- no value is lost
  unheld : ∀ k, d'.local? k = none → d.local? k = none

namespace Refreshed

variable {d d' d'' : Draft K V} {k : K}

theorem refl (d : Draft K V) : d.Refreshed d :=
  ⟨.refl d, rfl, fun _ _ => rfl, fun _ unheld => unheld⟩

theorem trans (first : d.Refreshed d') (second : d'.Refreshed d'') : d.Refreshed d'' where
  toSameKeys := first.toSameKeys.trans second.toSameKeys
  touched := second.touched.trans first.touched
  spared k untouched :=
    (second.spared k (first.touched ▸ untouched)).trans (first.spared k untouched)
  unheld k unheld := first.unheld k (second.unheld k unheld)

theorem setLocal (touched : k ∈ d.touched) (v : V) : d.Refreshed (d.setLocal k v) where
  toSameKeys := ⟨rfl, rfl, rfl⟩
  touched := rfl
  spared k' untouched := by
    have other : k' ≠ k := fun same => untouched (same ▸ touched)
    simp [Draft.setLocal, local?, Dict.get?_put, other]
  unheld k' unheld := by
    by_cases same : k' = k <;> simp_all [Draft.setLocal, local?, Dict.get?_put]

theorem of_rewrites (rewrites : d.Rewrites d') : d.Refreshed d' := by
  induction rewrites with
  | refl => exact .refl d
  | tail _ rewrite ih =>
    obtain ⟨v, touched⟩ := rewrite
    exact ih.trans (setLocal touched v)

end Refreshed

/-! ## What a refresh writes -/

/-- What a touched key holds before and after it is refreshed from the store's value `w`. -/
inductive Reconciles (reconciler : Reconciler V) (w : V) :
    Refresh.Mode → Option V → Option V → Prop
  | merged {own v : V} (merges : reconciler.merge w own = .ok v) :
      Reconciles reconciler w .merge (some own) (some v)
  -- nothing is held that could be merged
  | unheld : Reconciles reconciler w .merge none none
  | replaced (own? : Option V) : Reconciles reconciler w .replace own? (some w)
  | ignored (own? : Option V) : Reconciles reconciler w .ignore own? own?

/-- What a touched key holds before and after some refreshes in a row. -/
inductive Reconciled (reconciler : Reconciler V) (w : V) (mode : Refresh.Mode) :
    Nat → Option V → Option V → Prop
  | none (own? : Option V) : Reconciled reconciler w mode 0 own? own?
  | again {n : Nat} {own? once? last? : Option V}
      (first : Reconciles reconciler w mode own? once?)
      (rest : Reconciled reconciler w mode n once? last?) :
      Reconciled reconciler w mode (n + 1) own? last?

variable {mode : Refresh.Mode} {d : Draft K V} {k : K} {v w : V}

theorem reconciles_merge_iff {own : V} {last? : Option V} :
    Reconciles reconciler w .merge (some own) last? ↔
      ∃ v, reconciler.merge w own = .ok v ∧ last? = some v := by
  constructor
  · rintro ⟨⟩
    next merges => exact ⟨_, merges, rfl⟩
  · rintro ⟨v, merges, rfl⟩
    exact .merged merges

theorem reconciled_one_iff {own? last? : Option V} :
    Reconciled reconciler w mode 1 own? last? ↔ Reconciles reconciler w mode own? last? := by
  constructor
  · rintro ⟨⟩
    next first rest => cases rest; exact first
  · exact fun once => .again once (.none _)

theorem reconciled_two_iff {own? last? : Option V} :
    Reconciled reconciler w mode 2 own? last? ↔
      ∃ once?, Reconciles reconciler w mode own? once? ∧
        Reconciles reconciler w mode once? last? := by
  constructor
  · rintro ⟨⟩
    next first rest => exact ⟨_, first, reconciled_one_iff.1 rest⟩
  · rintro ⟨_, first, second⟩
    exact .again first (reconciled_one_iff.2 second)

/-- What is held after any number of replacements, one at least, is the store's value. -/
theorem Reconciled.eq_of_replace {n : Nat} {own? last? : Option V}
    (reconciled : Reconciled reconciler w .replace n own? last?) :
    last? = if n = 0 then own? else some w := by
  induction reconciled with
  | none => rfl
  | @again n _ _ _ first _ ih =>
    cases first
    rw [ih]
    simp

theorem reconciles_of_refreshed? {w? : Option V} (touched : k ∈ d.touched)
    (written : d.refreshed? mode reconciler k v = .ok w?) :
    Reconciles reconciler v mode (d.local? k) (w?.or (d.local? k)) := by
  simp only [refreshed?, isModified_iff.2 touched, if_true] at written
  cases mode with
  | merge =>
    cases held : d.local? k with
    | none =>
      simp only [held, Except.ok.injEq] at written
      subst written
      exact .unheld
    | some own =>
      cases merges : reconciler.merge v own with
      | error cause =>
        simp [held, Reconciler.merged, merges, Except.mapError, Except.map] at written
      | ok m =>
        simp only [held, Reconciler.merged, merges, Except.mapError, Except.map,
          Except.ok.injEq] at written
        subst written
        exact .merged merges
  | replace => cases written; exact .replaced _
  | ignore => cases written; exact .ignored _

/-- A refresh of some keys does nothing to a key without a value. -/
theorem local?_refreshAll_of_none (valueless : value? k = none) (keys : List K) (d : Draft K V) :
    (refreshAll mode reconciler (pairsOf value? keys) d).2.local? k = d.local? k := by
  induction keys generalizing d with
  | nil => rfl
  | cons k' keys ih =>
    cases found : value? k' with
    | none => rw [pairsOf_cons_of_none found, ih]
    | some v =>
      have other : k ≠ k' := by
        rintro rfl
        simp [found] at valueless
      rw [pairsOf_cons_of_some found, refreshAll]
      split
      next => rfl
      next => exact ih d
      next w _ => rw [ih]; simp [setLocal, local?, Dict.get?_put, other]

/-- A refresh of some keys that succeeds refreshes a touched key with a value as often as it
comes up. -/
theorem reconciled_refreshAll (touched : k ∈ d.touched) (valued : value? k = some w)
    {keys : List K} (succeeded : (refreshAll mode reconciler (pairsOf value? keys) d).1 = .ok ()) :
    Reconciled reconciler w mode (keys.count k) (d.local? k)
      ((refreshAll mode reconciler (pairsOf value? keys) d).2.local? k) := by
  induction keys generalizing d with
  | nil => exact .none _
  | cons k' keys ih =>
    cases found : value? k' with
    | none =>
      have other : k' ≠ k := by
        rintro rfl
        simp [found] at valued
      rw [pairsOf_cons_of_none found] at succeeded ⊢
      rw [List.count_cons_of_ne other]
      exact ih touched succeeded
    | some v =>
      rw [pairsOf_cons_of_some found, refreshAll] at succeeded ⊢
      by_cases same : k' = k
      · subst same
        obtain rfl := Option.some.inj (found.symm.trans valued)
        rw [List.count_cons_self]
        split at succeeded
        next => cases succeeded
        next written =>
          exact .again (reconciles_of_refreshed? touched written) (ih touched succeeded)
        next w' written =>
          have rest := ih (d := d.setLocal k' w') touched succeeded
          have held : (d.setLocal k' w').local? k' = some w' := by simp [setLocal, local?]
          rw [held] at rest
          exact .again (reconciles_of_refreshed? touched written) rest
      · rw [List.count_cons_of_ne same]
        split at succeeded
        next => cases succeeded
        next => exact ih touched succeeded
        next w' _ =>
          have rest := ih (d := d.setLocal k' w') touched succeeded
          have held : (d.setLocal k' w').local? k = d.local? k := by
            simp [setLocal, local?, Dict.get?_put, Ne.symm same]
          rwa [held] at rest

/-- Refreshing some keys in the mode `replace` never fails, and replaces what is held for the
touched ones that have a value. -/
theorem refreshAll_replace (reconciler : Reconciler V) (value? : K → Option V) (keys : List K)
    (d : Draft K V) :
    (refreshAll .replace reconciler (pairsOf value? keys) d).1 = .ok () ∧
      ∀ k, (refreshAll .replace reconciler (pairsOf value? keys) d).2.local? k =
        if k ∈ d.touched ∧ k ∈ keys then (value? k).or (d.local? k) else d.local? k := by
  have succeeds (live : List (K × V)) : ∀ d : Draft K V,
      (refreshAll .replace reconciler live d).1 = .ok () := by
    induction live with
    | nil => exact fun _ => rfl
    | cons entry live ih =>
      intro d
      by_cases touched : entry.1 ∈ d.touched <;>
        simp [refreshAll, refreshed?, isModified, touched, ih]
  refine ⟨succeeds _ _, fun k => ?_⟩
  by_cases touched : k ∈ d.touched
  · cases valued : value? k with
    | none => simp [local?_refreshAll_of_none valued]
    | some w =>
      rw [(reconciled_refreshAll touched valued (succeeds _ _)).eq_of_replace]
      by_cases member : k ∈ keys <;> simp [touched, member, List.count_eq_zero]
  · simp [touched, (Refreshed.of_rewrites (rewrites_refreshAll _ _ _)).spared k touched]

variable {options : Refresh.Options}

/-- A key that is not staged is no conflict. -/
theorem conflict?_of_not_staged (unstaged : k ∉ d.staged) : d.conflict? options k = none := by
  have apart : k ∉ d.added ∧ k ∉ d.touched ∧ k ∉ d.removed := by
    simpa [staged, not_or, and_assoc] using unstaged
  simp [conflict?, isAdded, isModified, isRemoved, apart]

theorem findSome?_conflict?_eq_none_iff :
    ((pairsOf value? d.staged).findSome? fun entry => d.conflict? options entry.1) = none ↔
      ∀ k, (value? k).isSome = true → d.conflict? options k = none := by
  rw [List.findSome?_eq_none_iff]
  constructor
  · intro peaceful k valued
    obtain ⟨v, found⟩ := Option.isSome_iff_exists.1 valued
    by_cases staged : k ∈ d.staged
    · exact peaceful (k, v) (mem_pairsOf.2 ⟨staged, found⟩)
    · exact conflict?_of_not_staged staged
  · rintro peaceful ⟨k, v⟩ member
    exact peaceful k (Option.isSome_iff_exists.2 ⟨v, (mem_pairsOf.1 member).2⟩)

/-- A refresh in the mode `replace` from some values is refused for conflicts only, and
otherwise replaces what is held for the touched keys that have a value. -/
theorem update_replace (d : Draft K V) (reconciler : Reconciler V) (value? : K → Option V)
    (replaces : options.mode = .replace) :
    ((d.update options reconciler fun keys => .ok (pairsOf value? keys)).1 = .ok () ↔
        ∀ k, (value? k).isSome = true → d.conflict? options k = none) ∧
      ((d.update options reconciler fun keys => .ok (pairsOf value? keys)).1 = .ok () →
        ∀ k, (d.update options reconciler fun keys => .ok (pairsOf value? keys)).2.local? k =
          if k ∈ d.touched then (value? k).or (d.local? k) else d.local? k) := by
  rw [← findSome?_conflict?_eq_none_iff]
  simp only [update]
  split
  next empty =>
    have nothing : d.staged = [] := by simpa using empty
    simp [nothing, touched_eq_nil_of_staged nothing, pairsOf]
  next =>
    split
    next staging conflict => simp [conflict, Failure.rule]
    next peaceful =>
      obtain ⟨succeeds, held⟩ := refreshAll_replace reconciler value? d.staged d
      rw [replaces]
      simp only [peaceful, succeeds, forall_const]
      refine ⟨trivial, fun k => ?_⟩
      rw [held k]
      have staged : k ∈ d.touched → k ∈ d.staged := by simp +contextual [staged]
      by_cases touched : k ∈ d.touched
      · simp [touched, staged touched]
      · simp [touched]

/-! ## Refreshes that succeed -/

section Update

variable {live : List K → Except Failure (List (K × V))}

/-- A touched key comes up twice if it is added as well. -/
theorem WellStaged.count_staged (staged : d.WellStaged) (touched : k ∈ d.touched) :
    d.staged.count k = if k ∈ d.added then 2 else 1 := by
  have kept : k ∉ d.removed := fun removed => staged.not_touched k removed touched
  rw [Draft.staged, List.count_append, List.count_append,
    List.count_eq_one_of_mem staged.touched_nodup touched, List.count_eq_zero_of_not_mem kept]
  split
  next added => rw [List.count_eq_one_of_mem staged.added_nodup added]
  next unadded => rw [List.count_eq_zero_of_not_mem unadded]

/-- A refresh that succeeds found no conflict. -/
theorem update_eq_of_ok {found : List (K × V)} (some' : d.staged ≠ [])
    (asked : live d.staged = .ok found)
    (succeeded : (d.update options reconciler live).1 = .ok ()) :
    d.update options reconciler live = refreshAll options.mode reconciler found d := by
  have some' : d.staged.isEmpty = false := by simpa using some'
  simp only [update, some', asked, Bool.false_eq_true, if_false] at succeeded ⊢
  split at succeeded
  next => cases succeeded
  next => rfl

/-- A refresh of a draft in which something is staged succeeds only if it has been offered
values. -/
theorem exists_live_of_update (some' : d.staged ≠ [])
    (succeeded : (d.update options reconciler live).1 = .ok ()) :
    ∃ found, live d.staged = .ok found := by
  have some' : d.staged.isEmpty = false := by simpa using some'
  cases asked : live d.staged with
  | ok found => exact ⟨found, rfl⟩
  | error failure => simp [update, some', asked] at succeeded

variable (asked : live d.staged = .ok (pairsOf value? d.staged))
  (succeeded : (d.update options reconciler live).1 = .ok ())
include asked succeeded

/-- A refresh that succeeds refreshes a touched key with a value once, or twice if the key is
added as well. -/
theorem WellStaged.reconciled_update (staged : d.WellStaged) (touched : k ∈ d.touched)
    (valued : value? k = some w) :
    Reconciled reconciler w options.mode (if k ∈ d.added then 2 else 1) (d.local? k)
      ((d.update options reconciler live).2.local? k) := by
  have some' : d.staged ≠ [] := List.ne_nil_of_mem (a := k) (by simp [Draft.staged, touched])
  have same := update_eq_of_ok some' asked succeeded
  rw [same] at succeeded ⊢
  rw [← staged.count_staged touched]
  exact reconciled_refreshAll touched valued succeeded

/-- It does nothing to a key without a value. -/
theorem local?_update_of_none (valueless : value? k = none) :
    (d.update options reconciler live).2.local? k = d.local? k := by
  by_cases some' : d.staged = []
  · simp [update, some']
  · rw [update_eq_of_ok some' asked succeeded]
    exact local?_refreshAll_of_none valueless _ _

end Update

end Draft

end RevisionStore
