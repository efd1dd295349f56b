import RevisionStore.Proofs.Store.Tracks

/-!
# Keys that a lookup misses

Under `earliestPrior` the oldest earlier change answers. Pruning may have taken the oldest
changes away, and what is oldest then may be a tombstone that lies before the key was added
again. Such a key is `obscured`: rosters list it, and no lookup finds its value. This is
the only way in which a lookup of a listed key can come back without a value
(`getAt_of_listed`), and it never happens under `latestPrior`.
-/

namespace RevisionStore

variable {K V : Type} [DecidableEq K]

/-- Whether the answer to a lookup of `k` at `r` is a tombstone from before `r`, because the
oldest earlier change answers. -/
def Store.obscured (s : Store K V) (r : Revision) (k : K) : Bool :=
  s.lookup == .earliestPrior &&
    (s.histories.get? k).any fun h =>
      (h.changeAt? r).isNone && (h.prior? .earliestPrior r).any (·.isTombstone)

/-- Whether a read of `k` has to be looked up in the store, which lists `k` but misses it. -/
def Draft.Loses (d : Draft K V) (s : Store K V) (k : K) : Prop :=
  k ∈ d.base.keys ∧ k ∉ d.removed ∧ d.local? k = none ∧ s.obscured d.revision k = true

namespace Store

variable {s : Store K V} {log : List (Commit K V)} {k : K} {v : V} {r : Revision}
  {roster : Roster K} {reconciler : Reconciler V} {recollect : Recollection K V}

theorem obscured_of_latestPrior (latest : s.lookup = .latestPrior) (r : Revision) (k : K) :
    s.obscured r k = false := by
  simp [obscured, latest]

namespace Tracks

/-- The change that answers a watched lookup of a key that is there is a tombstone exactly if
the key is obscured. -/
theorem isTombstone_of_select? {h : History K V} {c : Change K V} (tracks : s.Tracks log)
    (kept : s.WellKept) (there : contentsAt log r k = some v)
    (filed : s.histories.get? k = some h) (selected : h.select? s.lookup r = some c)
    (valued : s.lookup = .latestPrior → c.value? = some v) : c.isTombstone = s.obscured r k := by
  have coherent := (kept.filed k h filed).coherent c (History.mem_of_select? selected)
  have live (value : c.value? = some v) : c.isTombstone = false := by
    simpa [Change.Coherent, value] using coherent
  cases rule : s.lookup with
  | latestPrior => rw [obscured_of_latestPrior rule, live (valued rule)]
  | earliestPrior =>
    rw [rule, History.select?] at selected
    cases recorded : h.changeAt? r with
    | some e =>
      -- the change at `r` itself records what is there
      obtain rfl : e = c := by simpa [recorded] using selected
      obtain ⟨member, rfl⟩ := History.changeAt?_eq_some_iff.1 recorded
      rw [live ((tracks.recorded k h filed e member).symm.trans there)]
      simp [obscured, rule, filed, recorded]
    | none =>
      have oldest : h.prior? .earliestPrior r = some c := by simpa [recorded] using selected
      simp [obscured, rule, filed, recorded, oldest]

/-- A watched lookup of a key that is there finds a resident value unless the key is obscured. -/
theorem visible_of_listed (tracks : s.Tracks log) (kept : s.WellKept)
    (recollect : Recollection K V) (watched : s.Watched r)
    (listed : (contentsAt log r k).isSome = true) :
    ∃ v? : Option V, s.visible recollect r k = .ok (v?.map .resident) ∧
      v?.isSome = !s.obscured r k := by
  obtain ⟨v, there⟩ := Option.isSome_iff_exists.1 listed
  obtain ⟨h, c, filed, selected, valued, visible⟩ :=
    tracks.visible_of_contents recollect watched there
  refine ⟨c.value?, visible, ?_⟩
  have coherent := (kept.filed k h filed).coherent c (History.mem_of_select? selected)
  rw [coherent, tracks.isTombstone_of_select? kept there filed selected valued]

/-- A watched read of a key that is there gives a clone of a resident value unless the key is
obscured, and then it gives nothing. -/
theorem getAt_of_listed (tracks : s.Tracks log) (kept : s.WellKept) (reconciler : Reconciler V)
    (recollect : Recollection K V) (watched : s.Watched r)
    (listed : (contentsAt log r k).isSome = true) :
    (s.obscured r k = true ∧ s.getAt reconciler recollect r k = .ok none) ∨
      (s.obscured r k = false ∧
        ∃ v, s.getAt reconciler recollect r k = (reconciler.cloned v).map some) := by
  obtain ⟨v?, visible, found⟩ := tracks.visible_of_listed kept recollect watched listed
  cases v? with
  | none =>
    have obscured : s.obscured r k = true := by simpa using found.symm
    exact .inl ⟨obscured, by simp [getAt, visible]⟩
  | some v =>
    have clear : s.obscured r k = false := by simpa using found.symm
    exact .inr ⟨clear, v, by simp [getAt, visible, handOut]⟩

/-- The pairs of current keys leave out exactly the obscured ones. -/
theorem map_fst_currentPairs (tracks : s.Tracks log) (kept : s.WellKept) {keys : List K}
    (listed : ∀ k ∈ keys, (contentsAt log s.revision k).isSome = true) {pairs : List (K × V)}
    (read : s.currentPairs reconciler recollect keys = .ok pairs) :
    pairs.map Prod.fst = keys.filter fun k => !s.obscured s.revision k := by
  induction keys generalizing pairs with
  | nil =>
    cases read
    rfl
  | cons k keys ih =>
    have listed' : ∀ k' ∈ keys, (contentsAt log s.revision k').isSome = true :=
      fun k' member => listed k' (List.mem_cons_of_mem k member)
    rw [currentPairs, get] at read
    obtain ⟨obscured, nothing⟩ | ⟨clear, v, something⟩ :=
      tracks.getAt_of_listed kept reconciler recollect kept.watched_revision
        (listed k List.mem_cons_self)
    · rw [nothing] at read
      rw [List.filter_cons, obscured]
      exact ih listed' read
    · rw [something] at read
      cases cloned : reconciler.cloned v with
      | error failure => simp [cloned, Except.map] at read
      | ok w =>
        cases others : s.currentPairs reconciler recollect keys with
        | error failure => simp [cloned, others, Except.map] at read
        | ok pairs' =>
          obtain rfl : (k, w) :: pairs' = pairs := by simpa [cloned, others, Except.map] using read
          rw [List.filter_cons, clear, List.map_cons, ih listed' others]
          rfl

/-- If values can be cloned, current keys can be read one and all. -/
theorem exists_currentPairs (tracks : s.Tracks log) (kept : s.WellKept)
    (recollect : Recollection K V) (clones : ∀ v, ∃ w, reconciler.clone v = .ok w) {keys : List K}
    (listed : ∀ k ∈ keys, (contentsAt log s.revision k).isSome = true) :
    ∃ pairs, s.currentPairs reconciler recollect keys = .ok pairs := by
  induction keys with
  | nil => exact ⟨[], rfl⟩
  | cons k keys ih =>
    obtain ⟨pairs, rest⟩ := ih fun k' member => listed k' (List.mem_cons_of_mem k member)
    rw [currentPairs, get, rest]
    obtain ⟨_, nothing⟩ | ⟨_, v, something⟩ :=
      tracks.getAt_of_listed kept reconciler recollect kept.watched_revision
        (listed k List.mem_cons_self)
    · rw [nothing]
      exact ⟨pairs, rfl⟩
    · obtain ⟨w, cloned⟩ := clones v
      rw [something, Reconciler.cloned_eq_ok_iff.2 cloned]
      exact ⟨(k, w) :: pairs, rfl⟩

end Tracks

/-- If values can be cloned, a map of the current values has the current keys that are not
obscured, in their order. -/
theorem asMap_order (tracks : s.Tracks log) (kept : s.WellKept)
    (current : s.roster? s.revision = some roster) :
    (∀ m, s.asMap reconciler recollect = .ok m →
      m.order = roster.keys.filter fun k => !s.obscured s.revision k) ∧
    ((∀ v, ∃ w, reconciler.clone v = .ok w) → ∃ m, s.asMap reconciler recollect = .ok m) := by
  obtain ⟨member, same⟩ := mem_of_roster? current
  have listed : ∀ k ∈ roster.keys, (contentsAt log s.revision k).isSome = true :=
    fun k member' => same ▸ (tracks.listed roster member k).1 member'
  simp only [asMap]
  rw [currentRoster_eq_ok_iff.2 current]
  constructor
  · intro m read
    cases pairs : s.currentPairs reconciler recollect roster.keys with
    | error failure => simp [pairs, Except.map] at read
    | ok entries =>
      obtain rfl : ValueMap.ofPairs s.revision entries = m := by
        simpa [pairs, Except.map] using read
      exact tracks.map_fst_currentPairs kept listed pairs
  · intro clones
    obtain ⟨pairs, read⟩ := tracks.exists_currentPairs kept recollect clones listed
    exact ⟨ValueMap.ofPairs s.revision pairs, by simp [read, Except.map]⟩

end Store

/-! ## Drafts -/

namespace Draft

variable {d : Draft K V} {s : Store K V} {fetch : K → Except Failure (Option V)} {k : K}

/-- A read loses a value exactly when it has to fetch and what it fetches does. -/
theorem read_eq_valueLost_iff :
    d.read fetch k = .error (.rule (.valueLost d.revision)) ↔
      k ∈ d.base.keys ∧ k ∉ d.removed ∧ d.local? k = none ∧
        (fetch k = .ok none ∨ fetch k = .error (.rule (.valueLost d.revision))) := by
  simp only [Draft.read]
  by_cases removed : k ∈ d.removed
  · simp [removed]
  · cases held : d.local? k with
    | some v => simp [removed]
    | none =>
      by_cases listed : k ∈ d.base.keys
      · simp only [isRemoved_iff, removed, if_false, Roster.contains_iff, listed, if_true, true_and,
          not_false_eq_true]
        cases fetch k with
        | error failure => simp
        | ok v? => cases v? <;> simp
      · simp [removed, listed]

/-- A cursor step loses a value exactly when the read of its key does. -/
theorem next_eq_valueLost_iff {c : Cursor} :
    (c.next d fetch).1 = .error (.rule (.valueLost d.revision)) ↔
      d.version = c.stamp ∧ ∃ k, (c.advance d).1 = some k ∧
        d.read fetch k = .error (.rule (.valueLost d.revision)) := by
  simp only [Cursor.next]
  by_cases current : d.version = c.stamp
  · rw [if_pos current]
    obtain ⟨key?, c'⟩ := c.advance d
    cases key? with
    | none => simp
    | some k =>
      simp only [current, true_and, Option.some.injEq, exists_eq_left']
      cases d.read fetch k with
      | error failure => simp
      | ok answer =>
        obtain ⟨v?, d'⟩ := answer
        cases v? <;> simp [Failure.rule]
  · simp [current, Failure.rule]

/-- Over a watched base with the contents of the log, exactly those reads lose a value that
have to be looked up under an obscured key. -/
theorem read_eq_valueLost_iff_loses {log : List (Commit K V)} {reconciler : Reconciler V}
    {recollect : Recollection K V} (tracks : s.Tracks log) (kept : s.WellKept)
    (watched : s.Watched d.revision)
    (listed : ∀ k, k ∈ d.base.keys ↔ (contentsAt log d.revision k).isSome = true) :
    d.read (s.getAt reconciler recollect d.revision) k = .error (.rule (.valueLost d.revision)) ↔
      d.Loses s k := by
  rw [read_eq_valueLost_iff]
  refine and_congr_right fun member => and_congr_right fun _ => and_congr_right fun _ => ?_
  obtain ⟨obscured, nothing⟩ | ⟨clear, v, something⟩ :=
    tracks.getAt_of_listed kept reconciler recollect watched ((listed k).1 member)
  · simp [nothing, obscured]
  · rw [something, clear, Reconciler.cloned]
    cases reconciler.clone v <;> simp [Except.mapError, Except.map, Failure.rule]

end Draft

end RevisionStore
