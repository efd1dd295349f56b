import RevisionStore.Proofs.Store.Sound

/-!
# Stores under sparing policies

A sparing policy gives up the revisions below the base of every open copy and no others. What
a store keeps under such policies is a window (`Store.Windowed`): from some revision on
everything is retained, the bases of all open copies included. A pass gives up what lies
below everything that it guards (`lt_of_mem_doomed_unused`), which is what spares histories.

`Store.Upkeep` lists what happens to a store between commits when its keeper is known.
-/

namespace RevisionStore

/-! ## Sparing policies -/

namespace Retention.Policy

variable {K : Type}

/-- The policies that give up only what no open copy can come back to. -/
inductive Sparing : Policy K → Prop
  | never : Sparing .never
  | noLongerUsed (every : Nat) : Sparing (.noLongerUsed every)

end Retention.Policy

namespace Store

variable {K V : Type}

/-- Whether a roster lies below the base of every open copy. -/
def unused (s : Store K V) (roster : Roster K) : Bool :=
  s.active.all fun registration => roster.revision < registration.revision

variable {s s' : Store K V} {roster : Roster K} {r : Revision}

theorem noLongerUsed_expires (every asked now : Nat) :
    (Retention.Policy.noLongerUsed every).expires asked now s.view roster = s.unused roster := by
  simp only [Retention.Policy.noLongerUsed, view, Retention.View.oldest?, unused]
  cases least : (s.active.map (·.revision)).min? with
  | none =>
    have idle : s.active = [] := by simpa using least
    simp [idle]
  | some oldest =>
    obtain ⟨member, lowest⟩ := List.min?_eq_some_iff.1 least
    obtain ⟨registration, registered, rfl⟩ := List.mem_map.1 member
    rw [Bool.eq_iff_iff]
    simp only [decide_eq_true_eq, List.all_eq_true]
    constructor
    · intro below other member
      exact Nat.lt_of_lt_of_le below (lowest _ (List.mem_map_of_mem member))
    · intro below
      exact below registration registered

variable [DecidableEq K] {keeper : Retention.Keeper K V} {now : Nat}

/-- What becomes of a store when its keeper is asked to run a pass. -/
theorem expire_store_eq (s : Store K V) (keeper : Retention.Keeper K V) (now : Nat) :
    (s.expire keeper now).2.1 =
      if (keeper.warden.ask s.view).1 = true then
        s.sweep (s.doomed ((keeper.warden.ask s.view).2.expires now s.view))
      else s := by
  simp only [expire]
  split <;> rfl

omit [DecidableEq K] in
/-- A pass that runs under a sparing policy gives up what is unused. -/
theorem expires_of_sparing (sparing : keeper.warden.policy.Sparing)
    (run : (keeper.warden.ask s.view).1 = true) :
    (keeper.warden.ask s.view).2.expires now s.view = s.unused := by
  obtain ⟨⟨policy, asked⟩, archive⟩ := keeper
  cases sparing with
  | never => cases run
  | noLongerUsed every => exact funext fun roster => noLongerUsed_expires every (asked + 1) now

theorem expire_store_of_sparing (s : Store K V) (sparing : keeper.warden.policy.Sparing)
    (now : Nat) :
    (s.expire keeper now).2.1 = s ∨ (s.expire keeper now).2.1 = s.sweep (s.doomed s.unused) := by
  rw [expire_store_eq]
  split
  next run => exact .inr (by rw [expires_of_sparing sparing run])
  next => exact .inl rfl

omit [DecidableEq K] in
/-- What a pass guards that gives up unused rosters: nothing below every base. -/
theorem eq_or_le_of_mem_guarded (guards : r ∈ s.guarded (s.doomed s.unused)) :
    r = s.revision ∨ ∃ registration ∈ s.active, registration.revision ≤ r := by
  simp only [guarded, List.mem_append, List.mem_filter, List.mem_map, List.mem_singleton,
    retained] at guards
  obtain (⟨⟨roster, member, rfl⟩, stays⟩ | ⟨registration, member, rfl⟩) | rfl := guards
  · by_cases current : roster.revision = s.revision
    · exact .inl current
    · have used : s.unused roster ≠ true := by
        intro unused
        have gone := mem_doomed.2 ⟨member, current, unused⟩
        have apart : ∀ other ∈ s.doomed s.unused, other.revision ≠ roster.revision := by
          simpa [isAmong] using stays
        exact apart roster gone rfl
      simpa [unused, current] using used
  · exact .inr ⟨registration, member, Nat.le_refl _⟩
  · exact .inl rfl

/-- What such a pass gives up lies below all that it guards. -/
theorem lt_of_mem_doomed_unused (kept : s.WellKept) (gone : roster ∈ s.doomed s.unused)
    (guards : r ∈ s.guarded (s.doomed s.unused)) : roster.revision < r := by
  obtain ⟨member, other, unused⟩ := mem_doomed.1 gone
  obtain rfl | ⟨registration, registered, le⟩ := eq_or_le_of_mem_guarded guards
  · exact Nat.lt_of_le_of_ne (kept.bounded roster member) other
  · have below : roster.revision < registration.revision := by
      simpa using List.all_eq_true.1 unused registration registered
    exact Nat.lt_of_lt_of_le below le

/-- What it leaves is the current revision and what is not below every base. -/
theorem mem_retained_sweep_unused :
    r ∈ (s.sweep (s.doomed s.unused)).retained ↔ r ∈ s.retained ∧
      (r = s.revision ∨ ∃ registration ∈ s.active, registration.revision ≤ r) := by
  constructor
  · intro left
    obtain ⟨roster, member, rfl⟩ := List.mem_map.1 left
    refine ⟨List.mem_map_of_mem (mem_rosters_sweep.1 member).1, ?_⟩
    exact eq_or_le_of_mem_guarded (mem_guarded_of_watched (.inl ⟨roster, member, rfl⟩))
  · rintro ⟨retained, used⟩
    obtain ⟨roster, member, rfl⟩ := List.mem_map.1 retained
    refine List.mem_map_of_mem (mem_rosters_sweep.2 ⟨member, fun other gone same => ?_⟩)
    obtain ⟨_, notCurrent, unused⟩ := mem_doomed.1 gone
    obtain current | ⟨registration, registered, le⟩ := used
    · exact notCurrent (same.trans current)
    · have below : other.revision < registration.revision := by
        simpa using List.all_eq_true.1 unused registration registered
      exact Nat.not_le_of_lt below (same ▸ le)

/-! ## Between commits -/

/-- What happens to a store between commits, if `keeper` has its retention in hand. -/
inductive Upkeep (keeper : Retention.Keeper K V) (now : Nat) : Store K V → Store K V → Prop
  | opened {s s' : Store K V} {id : CheckoutId} {base : Roster K}
      (made : s.checkout = .ok ((id, base), s')) : Upkeep keeper now s s'
  | released (s : Store K V) (id : CheckoutId) : Upkeep keeper now s (s.release id)
  | passed (s : Store K V) : Upkeep keeper now s (s.expire keeper now).2.1

theorem Upkeep.sound {log : List (Commit K V)} (upkeep : Upkeep keeper now s s')
    (sound : s.Sound log) : s'.Sound log := by
  cases upkeep with
  | opened made => exact (sound.checkout made).1
  | released id => exact sound.release id
  | passed => exact (sound.expire keeper now).1

/-- A commit makes its revision a retained one. -/
theorem Extended.retained {c : Commit K V} (extended : s.Extended c s') :
    s'.retained = s.retained ++ [s.revision + 1] := by
  obtain ⟨_, now, _, rosters⟩ := extended.rosters
  simp [Store.retained, rosters]

theorem WellKept.revision_mem_retained (kept : s.WellKept) : s.revision ∈ s.retained := by
  obtain ⟨current, found⟩ := kept.current
  obtain ⟨member, same⟩ := mem_of_roster? found
  exact List.mem_map.2 ⟨current, member, same⟩

/-! ## Windows -/

/-- From some revision on every one is retained, and so are the bases of open copies. -/
structure Windowed (s : Store K V) : Prop where
  contiguous : ∀ r ∈ s.retained, ∀ r', r ≤ r' → r' ≤ s.revision → r' ∈ s.retained
  based : ∀ registration ∈ s.active, registration.revision ∈ s.retained

namespace Windowed

omit [DecidableEq K] in
theorem fresh (lookup : Lookup) (now : Nat) : (Store.fresh lookup now : Store K V).Windowed where
  contiguous r _ r' _ le := by
    have first : r' = 0 := Nat.le_zero.1 le
    simp [Store.fresh, retained, first]
  based registration member := nomatch member

theorem sweep_unused (windowed : s.Windowed) :
    (s.sweep (s.doomed s.unused)).Windowed where
  contiguous r left r' le bound := by
    obtain ⟨retained, used⟩ := mem_retained_sweep_unused.1 left
    refine mem_retained_sweep_unused.2 ⟨windowed.contiguous r retained r' le bound, ?_⟩
    obtain rfl | ⟨registration, registered, below⟩ := used
    · exact .inl (Nat.le_antisymm bound le)
    · exact .inr ⟨registration, registered, Nat.le_trans below le⟩
  based registration registered :=
    mem_retained_sweep_unused.2
      ⟨windowed.based registration registered, .inr ⟨registration, registered, Nat.le_refl _⟩⟩

theorem upkeep (windowed : s.Windowed) (sparing : keeper.warden.policy.Sparing)
    (upkeep : Upkeep keeper now s s') : s'.Windowed := by
  cases upkeep with
  | opened made =>
    obtain ⟨current, _, rfl⟩ := checkout_eq_ok_iff.1 made
    refine ⟨windowed.contiguous, fun registration member => ?_⟩
    obtain old | new := List.mem_append.1 member
    · exact windowed.based registration old
    · rw [List.mem_singleton.1 new]
      exact List.mem_map_of_mem (mem_of_roster? current).1
  | released id =>
    exact ⟨windowed.contiguous, fun registration member =>
      windowed.based registration (List.mem_filter.1 member).1⟩
  | passed =>
    obtain same | swept := s.expire_store_of_sparing sparing now
    · rw [same]
      exact windowed
    · rw [swept]
      exact windowed.sweep_unused

theorem extended {c : Commit K V} (windowed : s.Windowed) (extended : s.Extended c s') :
    s'.Windowed := by
  constructor
  · intro r there r' le bound
    rw [extended.revision] at bound
    rw [extended.retained, List.mem_append, List.mem_singleton] at there ⊢
    obtain rfl | earlier := Nat.eq_or_lt_of_le bound
    · exact .inr rfl
    · have earlier := Nat.le_of_lt_succ earlier
      obtain old | rfl := there
      · exact .inl (windowed.contiguous r old r' le earlier)
      · exact absurd (Nat.le_trans le earlier) (Nat.not_succ_le_self _)
  · intro registration member
    rw [extended.active] at member
    rw [extended.retained]
    exact List.mem_append_left _ (windowed.based registration member)

end Windowed

end Store

end RevisionStore
