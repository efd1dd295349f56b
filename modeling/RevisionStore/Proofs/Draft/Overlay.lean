import Mathlib.Data.Set.Card
import RevisionStore.Proofs.Draft.Refreshing
import RevisionStore.Proofs.Draft.Requests

/-!
# Drafts as overlays

The keys seen through a draft are those of its base, with what was staged laid over them. What
the last request that concerns a key says of it (`Draft.said?`) decides whether it is visible,
and the keys of a draft are the visible ones, in the order of the base and then of arrival
(`serve_overlays`).

A base key can be added too, as the check for that is left to the commit. It stands in both
places then, and it is still visible in the base when its addition is taken back.
-/

namespace RevisionStore

namespace Draft

variable {K V : Type} [DecidableEq K]

/-- Whether a request makes `k` visible or hides it, if it does either. -/
def Request.says? (d : Draft K V) (k : K) : Request K V → Option Bool
  | .add k' _ => if k' = k then some true else none
  | .replace k' v => if k' = k ∧ (d.replace k' v).isOk then some true else none
  -- what is taken back is an addition, if there is one, and the base shows again
  | .remove k' =>
    if k' = k ∧ (d.remove k').isOk then some (d.isAdded k && d.base.contains k) else none
  | .revert => some (d.base.contains k)
  | _ => none

/-- What the last of some requests that says anything of `k` says. -/
def said? (d : Draft K V) (k : K) : List (Request K V) → Option Bool
  | [] => none
  | request :: rest => ((d.after request).said? k rest).or (request.says? d k)

variable {d d' : Draft K V} {k k' : K} {v : V} {request : Request K V}

/-! ## Which keys are visible -/

theorem containsKey_iff :
    d.containsKey k = true ↔ k ∈ d.added ∨ k ∉ d.removed ∧ k ∈ d.base.keys := by
  simp [containsKey, isRemoved]

theorem SameKeys.containsKey (same : d.SameKeys d') (k : K) :
    d'.containsKey k = d.containsKey k := by
  simp only [Draft.containsKey, isAdded, isRemoved, same.base, same.added, same.removed]

/-- A replacement that succeeds was of a visible key, and changes no other than its value. -/
theorem sameKeys_of_replace (replaced : d.replace k v = .ok d') :
    d.SameKeys d' ∧ d.containsKey k = true := by
  cases replacement_of_replace replaced with
  | ofAdded added => exact ⟨⟨rfl, rfl, rfl⟩, containsKey_iff.2 (.inl added)⟩
  | ofListed _ kept listed => exact ⟨⟨rfl, rfl, rfl⟩, containsKey_iff.2 (.inr ⟨kept, listed⟩)⟩

theorem containsKey_add (staged : d.WellStaged) (k' : K) (v : V) (k : K) :
    (d.add k' v).containsKey k = if k' = k then true else d.containsKey k := by
  rw [Bool.eq_iff_iff]
  simp only [Draft.add]
  split
  next removed =>
    have member := isRemoved_iff.1 removed
    have listed := staged.removed_base k' member
    by_cases same : k' = k
    · subst same
      simp [containsKey_iff, listed]
    · have other : k ≠ k' := Ne.symm same
      simp [containsKey_iff, same, other]
  next =>
    by_cases same : k' = k
    · simp [containsKey_iff, same]
    · have other : k ≠ k' := Ne.symm same
      simp [containsKey_iff, same, other]

/-- A removal that succeeds hides its key, unless it takes back the addition of a base key. -/
theorem containsKey_of_remove {b : Bool} (staged : d.WellStaged)
    (removed : d.remove k' = .ok (b, d')) (k : K) :
    d'.containsKey k = if k' = k then d.isAdded k && d.base.contains k else d.containsKey k := by
  rw [Bool.eq_iff_iff]
  by_cases same : k' = k
  · subst same
    cases removal_of_remove removed with
    | ofAdded added =>
      have kept : k' ∉ d.removed := fun member => staged.not_added k' member added
      simp [containsKey_iff, isAdded, added, kept]
    | ofRemoved unadded gone => simp [containsKey_iff, isAdded, unadded, gone]
    | ofListed unadded kept listed => simp [containsKey_iff, isAdded, unadded]
  · have other : k ≠ k' := Ne.symm same
    cases removal_of_remove removed <;> simp [containsKey_iff, same, other]

/-- Whether a key is visible after a request is what the request says, or as it was. -/
theorem containsKey_after (staged : d.WellStaged) (request : Request K V) (k : K) :
    (d.after request).containsKey k = (request.says? d k).getD (d.containsKey k) := by
  cases request with
  | add k' v =>
    rw [after, containsKey_add staged, Request.says?]
    split <;> rfl
  | replace k' v =>
    simp only [after, Request.says?]
    cases replaced : d.replace k' v with
    | error rule => simp [Except.toOption, Except.isOk, Except.toBool]
    | ok d' =>
      obtain ⟨sameKeys, visible⟩ := sameKeys_of_replace replaced
      by_cases same : k' = k
      · subst same
        simp [Except.toOption, Except.isOk, Except.toBool, sameKeys.containsKey, visible]
      · simp [Except.toOption, same, sameKeys.containsKey]
  | remove k' =>
    simp only [after, Request.says?]
    cases removed : d.remove k' with
    | error rule => simp [settled, Except.isOk, Except.toBool]
    | ok answer =>
      rw [settled, containsKey_of_remove staged removed]
      by_cases same : k' = k <;> simp [same, Except.isOk, Except.toBool]
  | revert => simp [after, Request.says?, revert, containsKey, isAdded, isRemoved]
  | update options reconciler live =>
    exact (Refreshed.of_rewrites (rewrites_update options reconciler live)).containsKey k
  | _ => exact (glances_after rfl).sameKeys.containsKey k

/-- Whether a key is visible after some requests is what the last one that says anything of it
says, or as it was. -/
theorem containsKey_serve (staged : d.WellStaged) (requests : List (Request K V)) (k : K) :
    (d.serve requests).containsKey k = (d.said? k requests).getD (d.containsKey k) := by
  induction requests generalizing d with
  | nil => rfl
  | cons request rest ih =>
    rw [serve_cons, ih (staged.after request), said?, containsKey_after staged]
    cases (d.after request).said? k rest <;> rfl

/-! ## The keys of a draft -/

theorem mem_keys_iff : k ∈ d.keys ↔ d.containsKey k = true := by
  simp [keys, containsKey_iff, isRemoved, and_comm, or_comm]

namespace WellStaged

variable (staged : d.WellStaged)
include staged

/-- The keys are the visible ones of the base, in its order, and then the additions. -/
theorem keys_eq : d.keys = d.base.keys.filter (d.containsKey ·) ++ d.added := by
  rw [keys]
  congr 1
  refine List.filter_congr fun k listed => ?_
  rw [Bool.eq_iff_iff, containsKey_iff]
  have apart := staged.not_added k
  by_cases added : k ∈ d.added
  · have kept : k ∉ d.removed := fun removed => apart removed added
    simp [isRemoved, added, kept]
  · simp [isRemoved, added, listed]

variable (distinct : d.base.keys.Nodup)
include distinct

/-- A visible key is listed once, unless it is both a base key and added. -/
theorem count_keys (visible : d.containsKey k = true)
    (apart : ¬ (k ∈ d.added ∧ k ∈ d.base.keys)) : d.keys.count k = 1 := by
  rw [keys, List.count_append]
  by_cases added : k ∈ d.added
  · have unlisted : k ∉ d.base.keys := fun listed => apart ⟨added, listed⟩
    rw [List.count_eq_one_of_mem staged.added_nodup added, List.count_eq_zero_of_not_mem]
    simp [unlisted]
  · obtain ⟨kept, listed⟩ := (containsKey_iff.1 visible).resolve_left added
    rw [List.count_eq_zero_of_not_mem added, List.count_eq_one_of_mem (distinct.filter _)]
    simp [isRemoved, kept, listed]

theorem nodup_keys (apart : ∀ k ∈ d.added, k ∉ d.base.keys) : d.keys.Nodup := by
  rw [List.nodup_iff_count_eq_one]
  intro k member
  exact staged.count_keys distinct (mem_keys_iff.1 member) fun both => apart k both.1 both.2

/-- The count of keys is right, as no key is removed that is not in the base. -/
theorem size_eq : d.size = d.keys.length := by
  have removed : (d.base.keys.filter (d.isRemoved ·)).Perm d.removed := by
    rw [List.perm_ext_iff_of_nodup (distinct.filter _) staged.removed_nodup]
    intro k
    have listed := staged.removed_base k
    simp only [List.mem_filter, isRemoved_iff]
    exact ⟨And.right, fun member => ⟨listed member, member⟩⟩
  have split := (List.filter_append_perm (d.isRemoved ·) d.base.keys).length_eq
  rw [List.length_append, removed.length_eq] at split
  simp only [size, keys, Roster.size, List.length_append]
  omega

end WellStaged

/-- In a sequence of requests to a fresh draft what the last one that concerns a key says
decides whether the key is visible. The keys of the draft are the visible ones, those of the
base in its order and then the additions. All of them are listed once, except for those that
are in the base and added as well; if there are none, their count is that of the visible keys. -/
theorem serve_overlays (base : Roster K) (distinct : base.keys.Nodup)
    (requests : List (Request K V)) (d : Draft K V) (served : (Draft.new base).serve requests = d) :
    (∀ k, d.containsKey k =
        ((Draft.new base : Draft K V).said? k requests).getD (base.contains k)) ∧
      (∀ k, k ∈ d.keys ↔ d.containsKey k = true) ∧
      d.keys = base.keys.filter (d.containsKey ·) ++ d.added ∧
      (∀ k, d.containsKey k = true → ¬ (k ∈ d.added ∧ k ∈ base.keys) → d.keys.count k = 1) ∧
      ((∀ k ∈ d.added, k ∉ base.keys) →
        d.keys.Nodup ∧ d.size = {k | d.containsKey k = true}.ncard) := by
  have fresh : (Draft.new base : Draft K V).WellStaged := .new base
  have evolved : (Draft.new base).Evolves d := served ▸ evolves_serve requests
  have staged := fresh.evolves evolved
  have same : d.base = base := evolved.base
  rw [← same] at distinct
  refine ⟨fun k => ?_, fun k => mem_keys_iff, ?_, fun k visible apart => ?_, fun apart => ?_⟩
  · rw [← served, containsKey_serve fresh]
    simp [containsKey, new, isAdded, isRemoved]
  · exact same ▸ staged.keys_eq
  · exact staged.count_keys distinct visible (same ▸ apart)
  · have nodup := staged.nodup_keys distinct (same ▸ apart)
    have listed : {k | d.containsKey k = true} = ↑d.keys.toFinset := by
      ext k
      simp [mem_keys_iff]
    refine ⟨nodup, ?_⟩
    rw [listed, Set.ncard_coe_finset, List.toFinset_card_of_nodup nodup, staged.size_eq distinct]

/-- Requests that hide a base key, replace another one and take one of two additions back. -/
def trialRequests : List (Request Nat Nat) :=
  [.remove 2, .replace 1 5, .add 4 9, .add 5 6, .remove 4]

/-- Three keys, with these requests laid over them. -/
def overlaid : Draft Nat Nat :=
  (Draft.new ⟨3, 0, [1, 2, 3]⟩).serve trialRequests

theorem serve_overlays_trial :
    [1, 2, 3].Nodup ∧ overlaid.containsKey 2 = false ∧ overlaid.containsKey 4 = false ∧
      overlaid.keys = [1, 3, 5] ∧ {k | overlaid.containsKey k = true}.ncard = 3 := by
  obtain ⟨said, -, keys, -, counted⟩ :=
    serve_overlays ⟨3, 0, [1, 2, 3]⟩ (by decide) trialRequests overlaid rfl
  have apart : ∀ k ∈ overlaid.added, k ∉ [1, 2, 3] := by decide
  refine ⟨by decide, ?_, ?_, ?_, (counted apart).2.symm⟩
  · rw [said]
    rfl
  · rw [said]
    rfl
  · rw [keys]
    rfl

/-- A base key that is added as well. -/
def doubled : Draft Nat Nat :=
  (Draft.new ⟨1, 0, [1]⟩).serve [.add 1 5]

/-- The one visible key is listed and counted twice, and it stays visible when it is removed. -/
theorem doubled_stays_visible :
    doubled.keys = [1, 1] ∧ doubled.size = 2 ∧ {k | doubled.containsKey k = true}.ncard = 1 ∧
      (doubled.remove 1).map (·.1) = .ok true ∧
      (doubled.serve [.remove 1]).containsKey 1 = true := by
  have visible : {k | doubled.containsKey k = true} = {1} := by
    ext k
    exact mem_keys_iff.symm.trans (by simp : k ∈ [1, 1] ↔ k = 1)
  exact ⟨rfl, rfl, Set.ncard_eq_one.2 ⟨1, visible⟩, rfl, rfl⟩

end Draft

end RevisionStore
