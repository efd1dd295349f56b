import RevisionStore.Proofs.Draft.Staging

/-!
# What a draft fetches

A draft fetches keys of its base only. So everything that is read through it is the same
for two ways of fetching that agree on those keys.
-/

namespace RevisionStore

namespace Draft

variable {K V : Type} [DecidableEq K] {d : Draft K V} {fetch fetch' : K → Except Failure (Option V)}

theorem read_congr (agree : ∀ k ∈ d.base.keys, fetch' k = fetch k) (k : K) :
    d.read fetch' k = d.read fetch k := by
  by_cases listed : k ∈ d.base.keys
  · simp only [Draft.read, agree k listed]
  · have unlisted : d.base.contains k = false := by simpa [Roster.contains] using listed
    simp [Draft.read, unlisted]

theorem edit_congr (agree : ∀ k ∈ d.base.keys, fetch' k = fetch k) (k : K) (v : V) :
    d.edit fetch' k v = d.edit fetch k v := by
  simp only [Draft.edit, read_congr agree k]

theorem readIndex_congr (agree : ∀ k ∈ d.base.keys, fetch' k = fetch k) (i : Nat) :
    d.readIndex fetch' i = d.readIndex fetch i := by
  simp only [Draft.readIndex, read_congr agree]

theorem editIndex_congr (agree : ∀ k ∈ d.base.keys, fetch' k = fetch k) (i : Nat) (v : V) :
    d.editIndex fetch' i v = d.editIndex fetch i v := by
  simp only [Draft.editIndex, edit_congr agree]

theorem next_congr (agree : ∀ k ∈ d.base.keys, fetch' k = fetch k) (c : Cursor) :
    c.next d fetch' = c.next d fetch := by
  simp only [Cursor.next, read_congr agree]

theorem cursorWalk_congr (agree : ∀ k ∈ d.base.keys, fetch' k = fetch k) (limit : Nat) (c : Cursor)
    (seen : List (K × V)) : c.walk d fetch' limit seen = c.walk d fetch limit seen := by
  induction limit generalizing c d seen with
  | zero => rfl
  | succ limit ih =>
    have base : (c.next d fetch).2.2.base = d.base := (evolves_next c).base
    simp only [Cursor.walk, next_congr agree c]
    split
    next => rfl
    next => rfl
    next entry c' d' stepped =>
      -- a step leaves the base alone, so the agreement goes on
      have same : d'.base = d.base := by simpa [stepped] using base
      exact ih (fun k listed => agree k (same ▸ listed)) c' _

theorem walk_congr (agree : ∀ k ∈ d.base.keys, fetch' k = fetch k) : d.walk fetch' = d.walk fetch :=
  cursorWalk_congr agree _ _ _

end Draft

end RevisionStore
