import RevisionStore.Proofs.Draft.Refreshing
import RevisionStore.Proofs.Store.Acceptance
import RevisionStore.Proofs.Store.Sound

/-!
# The current values of a store

There are two ways to the current value of a key: a lookup at the current revision, which goes
by the key set and the lookup rule, and the most recent change of the key's history. Under
`latestPrior` they lead to the same value (`getAt_revision`). `Store.shown` is a clone of it,
and everything that gives out current values gives out these: maps of the whole store
(`asMap_eq`) and what refreshes are offered (`liveValues_eq`).
-/

namespace RevisionStore

variable {K V : Type} [DecidableEq K]

/-! ## Maps of pairs -/

section Pairs

variable {value? : K → Option V} {keys : List K} {k : K}

/-- A map bound from pairs of keys with their values has these values, on top of what was
bound before. -/
theorem Dict.get?_foldl_put_pairsOf (d : Dict K V) :
    ((pairsOf value? keys).foldl (fun d e => d.put e.1 e.2) d).get? k =
      if k ∈ keys then (value? k).or (d.get? k) else d.get? k := by
  induction keys generalizing d with
  | nil => simp [pairsOf]
  | cons k' keys ih =>
    cases found : value? k' with
    | none =>
      rw [pairsOf_cons_of_none found, ih]
      by_cases same : k = k'
      · simp [same, found]
      · simp [same]
    | some v =>
      rw [pairsOf_cons_of_some found, List.foldl_cons, ih]
      by_cases same : k = k'
      · simp [same, found]
      · simp [same, Dict.get?_put]

theorem Dict.get?_ofList_pairsOf :
    (Dict.ofList (pairsOf value? keys)).get? k = if k ∈ keys then value? k else none := by
  rw [Dict.ofList, Dict.get?_foldl_put_pairsOf]
  simp

end Pairs

theorem except_map_eq_ok_iff {ε α β : Type} {f : α → β} {outcome : Except ε α} {b : β} :
    outcome.map f = .ok b ↔ ∃ a, outcome = .ok a ∧ f a = b := by
  cases outcome <;> simp [Except.map]

namespace Store

/-- A clone of the value in which the history of `k` ends, if it ends in one. -/
def shown (s : Store K V) (reconciler : Reconciler V) (k : K) : Option V :=
  (s.leading? k).bind fun v => (reconciler.clone v).toOption

variable {s : Store K V} {log : List (Commit K V)} {reconciler : Reconciler V}
  {recollect : Recollection K V} {roster : Roster K} {keys : List K} {k : K} {v w : V}

omit [DecidableEq K] in
theorem toOption_eq_some_iff {outcome : Except Fault V} :
    outcome.toOption = some w ↔ outcome = .ok w := by
  cases outcome <;> simp [Except.toOption]

theorem shown_of_leading? (leading : s.leading? k = some v) (cloned : reconciler.clone v = .ok w) :
    s.shown reconciler k = some w := by
  simp [shown, leading, cloned, Except.toOption]

/-- What is shown is a clone of the value of the most recent change. -/
theorem shown_eq_some_iff :
    s.shown reconciler k = some w ↔ ∃ h c v, s.histories.get? k = some h ∧ h.head? = some c ∧
      c.value? = some v ∧ reconciler.clone v = .ok w := by
  simp only [shown, Store.leading?, History.leading?, Option.bind_eq_some_iff, toOption_eq_some_iff]
  constructor
  · rintro ⟨v, ⟨h, filed, c, head, value⟩, cloned⟩
    exact ⟨h, c, v, filed, head, value, cloned⟩
  · rintro ⟨h, c, v, filed, head, value, cloned⟩
    exact ⟨v, ⟨h, filed, c, head, value⟩, cloned⟩

/-- With a reconciler that never gives up exactly the current keys are shown. -/
theorem isSome_shown (kept : s.WellKept) (total : reconciler.Total)
    (current : s.roster? s.revision = some roster) :
    (s.shown reconciler k).isSome = true ↔ k ∈ roster.keys := by
  rw [kept.live roster current k, ← kept.isSome_leading?]
  cases leading : s.leading? k with
  | none => simp [shown, leading]
  | some v =>
    obtain ⟨w, cloned⟩ := total.1 v
    simp [shown_of_leading? leading cloned]

/-- Under `latestPrior` a read at the current revision gives what is shown. -/
theorem getAt_revision (sound : s.Sound log) (latest : s.lookup = .latestPrior)
    (total : reconciler.Total) (recollect : Recollection K V) (k : K) :
    s.getAt reconciler recollect s.revision k = .ok (s.shown reconciler k) := by
  have leading := sound.tracks.leading k
  cases there : contentsAt log s.revision k with
  | none =>
    obtain ⟨roster, current⟩ := sound.kept.current
    rw [sound.tracks.getAt_of_not_contents current there]
    simp [shown, leading, there]
  | some v =>
    obtain ⟨w, cloned⟩ := total.1 v
    rw [sound.tracks.getAt_of_contents latest sound.kept.watched_revision there,
      Reconciler.cloned_eq_ok_iff.2 cloned, shown_of_leading? (leading.trans there) cloned]
    rfl

theorem currentPairs_eq {value? : K → Option V}
    (reads : ∀ k, s.get reconciler recollect k = .ok (value? k)) (keys : List K) :
    s.currentPairs reconciler recollect keys = .ok (pairsOf value? keys) := by
  induction keys with
  | nil => rfl
  | cons k keys ih =>
    rw [currentPairs, reads k, ih]
    cases found : value? k with
    | none => rw [pairsOf_cons_of_none found]
    | some v => rw [pairsOf_cons_of_some found]; rfl

/-- A map of the store has the current keys in their order, each with what is shown. -/
theorem asMap_eq (sound : s.Sound log) (latest : s.lookup = .latestPrior)
    (total : reconciler.Total) (current : s.roster? s.revision = some roster)
    (recollect : Recollection K V) :
    ∃ m, s.asMap reconciler recollect = .ok m ∧ m.order = roster.keys ∧
      m.toList.map Prod.fst = roster.keys ∧ ∀ k, m.get? k = s.shown reconciler k := by
  have all : ∀ k ∈ roster.keys, (s.shown reconciler k).isSome = true :=
    fun k member => (isSome_shown sound.kept total current).2 member
  obtain ⟨m, same⟩ : ∃ m, m = ValueMap.ofPairs s.revision
    (pairsOf (s.shown reconciler) roster.keys) := ⟨_, rfl⟩
  have order : m.order = roster.keys := by
    rw [same]
    exact map_fst_pairsOf all
  have values (k : K) : m.get? k = s.shown reconciler k := by
    simp only [same, ValueMap.get?, ValueMap.ofPairs, Dict.get?_ofList_pairsOf]
    split
    next => rfl
    next absent =>
      have nothing := mt (isSome_shown sound.kept total current).1 absent
      exact (Option.not_isSome_iff_eq_none.1 nothing).symm
  have pairs : m.toList = pairsOf m.get? m.order := rfl
  refine ⟨m, ?_, order, ?_, values⟩
  · simp only [asMap, currentRoster_eq_ok_iff.2 current, same]
    rw [currentPairs_eq fun k => getAt_revision sound latest total recollect k]
    rfl
  · rw [pairs, funext values, order]
    exact map_fst_pairsOf all

/-- What a refresh is offered, if all the values can be cloned: of the keys it asks for the
current ones, with what is shown. -/
theorem liveValues_eq_ok_iff (kept : s.WellKept) {found : List (K × V)} :
    s.liveValues reconciler keys = .ok found ↔ found = pairsOf (s.shown reconciler) keys ∧
      ∀ k ∈ keys, ∀ v, s.leading? k = some v → (s.shown reconciler k).isSome = true := by
  obtain ⟨roster, current⟩ := kept.current
  -- a key that is not listed does not end in a value either
  have leads (k : K) : (if roster.contains k then s.leading? k else none) = s.leading? k := by
    have live := kept.live roster current k
    rw [← kept.isSome_leading?, ← Roster.contains_iff] at live
    cases leading : s.leading? k <;> simp_all
  simp only [liveValues, currentRoster_eq_ok_iff.2 current]
  induction keys generalizing found with
  | nil =>
    constructor
    · rintro ⟨⟩
      exact ⟨rfl, by simp⟩
    · rintro ⟨rfl, -⟩
      rfl
  | cons k keys ih =>
    rw [liveAmong, leads, List.forall_mem_cons]
    cases leading : s.leading? k with
    | none =>
      have nothing : s.shown reconciler k = none := by simp [shown, leading]
      simp [pairsOf_cons_of_none nothing, ih]
    | some v =>
      cases cloned : reconciler.clone v with
      | error cause =>
        simp [Reconciler.cloned, cloned, Except.mapError, shown, leading, Except.toOption]
      | ok w =>
        have shows := shown_of_leading? leading cloned
        simp only [Reconciler.cloned_eq_ok_iff.2 cloned, except_map_eq_ok_iff, ih,
          pairsOf_cons_of_some shows]
        constructor
        · rintro ⟨_, ⟨rfl, all⟩, rfl⟩
          exact ⟨rfl, by simp [shows], all⟩
        · rintro ⟨rfl, -, all⟩
          exact ⟨_, ⟨rfl, all⟩, rfl⟩

/-- With a reconciler that never gives up they can. -/
theorem liveValues_eq (kept : s.WellKept) (total : reconciler.Total) :
    s.liveValues reconciler = fun keys => .ok (pairsOf (s.shown reconciler) keys) := by
  funext keys
  refine (liveValues_eq_ok_iff kept).2 ⟨rfl, fun k _ v leading => ?_⟩
  obtain ⟨w, cloned⟩ := total.1 v
  simp [shown_of_leading? leading cloned]

end Store

end RevisionStore
