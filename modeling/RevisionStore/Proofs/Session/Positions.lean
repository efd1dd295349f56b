import RevisionStore.Proofs.Draft.Overlay
import RevisionStore.Proofs.Session.Conflicts

/-!
# Keys by position

The keys of a draft stand at the positions below its size. A key that is visible is found at the
first of its positions, and no other key is found at all (`keyIndex?_eq_some_iff`,
`keyIndex?_eq_none_iff`). Reading or editing an open copy at a position is doing so to the key
that stands there (`perform_readIndex`, `perform_editIndex`).

The size is computed from three counts. It is right because what is removed was once in the base,
so that nothing is cut short when it is taken off (`WellStaged.size_add_removed`).
-/

namespace RevisionStore

variable {K V : Type}

namespace Draft

variable [DecidableEq K] {d : Draft K V} {k : K} {i : Nat}

section Counts

variable (staged : d.WellStaged) (distinct : d.base.keys.Nodup)
include staged

/-- The count of the removed keys can be taken off in full. -/
theorem WellStaged.size_add_removed :
    d.size + d.removed.length = d.base.size + d.added.length := by
  have removed : d.removed.length ≤ d.base.keys.length :=
    (List.subperm_of_subset staged.removed_nodup staged.removed_base).length_le
  simp only [size, Roster.size]
  omega

include distinct

theorem keyAt?_eq_none_iff : d.keyAt? i = none ↔ d.size ≤ i := by
  rw [keyAt?, List.getElem?_eq_none_iff, staged.size_eq distinct]

end Counts

theorem keyIndex?_eq_none_iff : d.keyIndex? k = none ↔ d.containsKey k = false := by
  rw [keyIndex?, List.findIdx?_eq_none_iff, ← Bool.not_eq_true, ← mem_keys_iff]
  constructor
  · intro nowhere member
    simpa using nowhere k member
  · intro absent k' member
    have other : k' ≠ k := fun same => absent (same ▸ member)
    simpa using other

/-- A key is found at the first of its positions. -/
theorem keyIndex?_eq_some_iff :
    d.keyIndex? k = some i ↔ d.keyAt? i = some k ∧ ∀ j < i, d.keyAt? j ≠ some k := by
  simp only [keyIndex?, keyAt?, List.findIdx?_eq_some_iff_getElem, decide_eq_true_eq]
  constructor
  · rintro ⟨bound, here, first⟩
    refine ⟨List.getElem?_eq_some_iff.2 ⟨bound, here⟩, fun j before there => ?_⟩
    obtain ⟨_, same⟩ := List.getElem?_eq_some_iff.1 there
    exact first j before same
  · rintro ⟨there, first⟩
    obtain ⟨bound, here⟩ := List.getElem?_eq_some_iff.1 there
    refine ⟨bound, here, fun j before same => first j before ?_⟩
    exact List.getElem?_eq_some_iff.2 ⟨Nat.lt_trans before bound, same⟩

end Draft

namespace Session

variable [DecidableEq K] {s : Session K V} {name : String} {lent : Lent (WorkingCopy K V)}

/-! ## Open copies -/

/-- What is done to an open copy at a position is done to the key there. -/
theorem onDraft_at (opened : s.copies.get? name = some lent) (i : Nat)
    (work : K → Draft K V → (K → Except Failure (Option V)) →
      Except Failure (Option V × Draft K V)) :
    (s.onDraft name fun d fetch =>
        settle d (match d.keyAt? i with
          | some k => work k d fetch
          | none => .ok (none, d))) =
      match lent.item.draft.keyAt? i with
      | some k => s.onDraft name fun d fetch => settle d (work k d fetch)
      | none => (.ok none, s) := by
  simp only [onDraft, named_eq_ok_iff.2 opened]
  cases lent.item.draft.keyAt? i with
  | some k => rfl
  | none =>
    simp only [settle, putDraft_self opened]
    rfl

/-- Reading a copy at a position is reading the key there, and nothing beyond the last one. -/
theorem perform_readIndex (opened : s.copies.get? name = some lent) (i : Nat) :
    s.perform (.readIndex name i) =
      match lent.item.draft.keyAt? i with
      | some k => s.perform (.read name k)
      | none => (.ok (.value none), s) := by
  have here : (s.onDraft name fun d fetch => settle d (d.readIndex fetch i)) = _ :=
    onDraft_at opened i fun k d fetch => d.read fetch k
  simp only [perform, answered, here]
  cases lent.item.draft.keyAt? i <;> rfl

/-- Editing a copy at a position is editing the key there, and nothing beyond the last one. -/
theorem perform_editIndex (opened : s.copies.get? name = some lent) (i : Nat) (v : V) :
    s.perform (.editIndex name i v) =
      match lent.item.draft.keyAt? i with
      | some k => s.perform (.edit name k v)
      | none => (.ok (.value none), s) := by
  have here : (s.onDraft name fun d fetch => settle d (d.editIndex fetch i v)) = _ :=
    onDraft_at opened i fun k d fetch => d.edit fetch k v
  simp only [perform, answered, here]
  cases lent.item.draft.keyAt? i <;> rfl

end Session

namespace Draft

variable [DecidableEq K]

/-- Whatever is asked of a fresh draft, its size is the number of its keys, for which the removed
ones are taken off in full. The key at a position is the one that stands there in the list of the
keys, and there is none exactly from the size on. A key is found at the first of its positions,
and it is not found exactly if it is not visible. To read or edit an open copy with this draft at a
position is to do so to the key there; beyond the last one there is no value, and nothing
changes. -/
theorem serve_positions (base : Roster K) (distinct : base.keys.Nodup)
    (requests : List (Request K V)) (d : Draft K V) (served : (Draft.new base).serve requests = d) :
    (d.size = d.keys.length ∧ d.size + d.removed.length = base.size + d.added.length) ∧
      (∀ i, d.keyAt? i = d.keys[i]? ∧ (d.keyAt? i = none ↔ d.size ≤ i)) ∧
      (∀ k, (d.keyIndex? k = none ↔ d.containsKey k = false) ∧
        ∀ i, d.keyIndex? k = some i ↔ d.keyAt? i = some k ∧ ∀ j < i, d.keyAt? j ≠ some k) ∧
      ∀ (s : Session K V) (name : String) (lent : Lent (WorkingCopy K V)),
        s.copies.get? name = some lent → lent.item.draft = d → ∀ i,
          (∀ k, d.keyAt? i = some k →
            s.perform (.readIndex name i) = s.perform (.read name k) ∧
              ∀ v, s.perform (.editIndex name i v) = s.perform (.edit name k v)) ∧
          (d.keyAt? i = none →
            s.perform (.readIndex name i) = (.ok (.value none), s) ∧
              ∀ v, s.perform (.editIndex name i v) = (.ok (.value none), s)) := by
  have fresh : (Draft.new base : Draft K V).WellStaged := .new base
  have evolved : (Draft.new base).Evolves d := served ▸ evolves_serve requests
  have staged := fresh.evolves evolved
  have same : d.base = base := evolved.base
  rw [← same] at distinct
  refine ⟨⟨staged.size_eq distinct, same ▸ staged.size_add_removed⟩,
    fun i => ⟨rfl, keyAt?_eq_none_iff staged distinct⟩,
    fun k => ⟨keyIndex?_eq_none_iff, fun i => keyIndex?_eq_some_iff⟩, ?_⟩
  rintro s name lent opened rfl i
  refine ⟨fun k there => ⟨?_, fun v => ?_⟩, fun nowhere => ⟨?_, fun v => ?_⟩⟩
  · rw [Session.perform_readIndex opened, there]
  · rw [Session.perform_editIndex opened, there]
  · rw [Session.perform_readIndex opened, nowhere]
  · rw [Session.perform_editIndex opened, nowhere]

/-- Three keys, of which the second is removed, and a fourth one that is added. -/
def gapped : Draft Nat Nat :=
  (Draft.new ⟨1, 0, [1, 2, 3]⟩).serve [.remove 2, .add 4 9]

/-- The draft of a copy. -/
def gappedSession : Session Nat Nat :=
  (Session.start (Session.trialSpecs .latestPrior) 0).run
    [.checkout 0 "a", .add "a" 1 5, .add "a" 2 6, .add "a" 3 7, .commit "a" none,
      .checkout 0 "b", .remove "b" 2, .add "b" 4 9]

/-- The third key moves up to the second position, where the copy reads its value. -/
theorem serve_positions_gapped :
    [1, 2, 3].Nodup ∧ gapped.size = 3 ∧ gapped.keyIndex? 2 = none ∧ gapped.keyIndex? 3 = some 1 ∧
      (gappedSession.perform (.readIndex "b" 1)).1 = .ok (.value (some 7)) ∧
      gappedSession.perform (.readIndex "b" 3) = (.ok (.value none), gappedSession) := by
  have distinct : [1, 2, 3].Nodup := by decide
  obtain ⟨⟨size, -⟩, places, keys, copies⟩ :=
    serve_positions ⟨1, 0, [1, 2, 3]⟩ distinct [.remove 2, .add 4 9] gapped rfl
  obtain ⟨lent, opened⟩ : ∃ lent, gappedSession.copies.get? "b" = some lent := ⟨_, rfl⟩
  have draft : lent.item.draft = gapped := by
    have same : (gappedSession.copies.get? "b").map (·.item.draft) = some gapped := rfl
    simpa [opened] using same
  have reads := copies gappedSession "b" lent opened draft
  refine ⟨distinct, size, (keys 2).1.2 rfl, ((keys 3).2 1).2 ⟨rfl, by decide⟩, ?_, ?_⟩
  · rw [((reads 1).1 3 rfl).1]
    rfl
  · exact ((reads 3).2 ((places 3).2.2 (by decide))).1

end Draft

end RevisionStore
