import RevisionStore.WorkingCopy
import RevisionStore.Proofs.Store.Tracks

/-!
# Stores with their register

`Store.Sound` adds the register to `WellKept` and `Tracks`: numbers of open copies have been
given out. Every operation of a store keeps it sound for its log, a commit for the log with
the commit at its end. `WorkingCopy.Registered` is what a copy has from its store as long as
it is open.
-/

namespace RevisionStore

variable {K V : Type} [DecidableEq K]

/-- A store that is well kept, tracks its log and gives out fresh numbers. -/
structure Store.Sound (s : Store K V) (log : List (Commit K V)) : Prop where
  kept : s.WellKept
  tracks : s.Tracks log
  -- the numbers of open copies have been given out
  numbered : ∀ registration ∈ s.active, registration.id.number < s.nextCheckout

/-- A copy that is registered with a store, over a base with the contents of its log. -/
structure WorkingCopy.Registered (c : WorkingCopy K V) (s : Store K V) (log : List (Commit K V)) :
    Prop where
  staged : c.draft.WellStaged
  registered : ⟨c.id, c.draft.revision⟩ ∈ s.active
  listed : ∀ k, k ∈ c.draft.base.keys ↔ (contentsAt log c.draft.revision k).isSome = true

namespace Store

variable {s : Store K V} {log : List (Commit K V)}

theorem Sound.fresh (lookup : Lookup) (now : Nat) :
    (Store.fresh lookup now : Store K V).Sound [] where
  kept := .fresh lookup now
  tracks := .fresh lookup now
  numbered _ member := nomatch member

theorem Sound.release (sound : s.Sound log) (id : CheckoutId) : (s.release id).Sound log where
  kept := sound.kept.of_register rfl rfl rfl
  tracks := sound.tracks.of_register rfl rfl rfl rfl fun registration member =>
    .inr ⟨registration, (List.mem_filter.1 member).1, rfl⟩
  numbered registration member := sound.numbered registration (List.mem_filter.1 member).1

/-- Giving up rosters keeps a store sound. -/
theorem Sound.sweep (sound : s.Sound log) (expires : Roster K → Bool) :
    (s.sweep (s.doomed expires)).Sound log := by
  have spared : ∀ roster ∈ s.doomed expires, roster.revision ≠ s.revision :=
    fun roster member => (mem_doomed.1 member).2.1
  exact ⟨sound.kept.sweep spared, sound.tracks.sweep sound.kept _, sound.numbered⟩

/-- A pass keeps a store sound and leaves its register alone. -/
theorem Sound.expire (sound : s.Sound log) (keeper : Retention.Keeper K V) (now : Nat) :
    (s.expire keeper now).2.1.Sound log ∧ (s.expire keeper now).2.1.active = s.active := by
  obtain same | ⟨expires, swept⟩ := s.expire_store keeper now
  · rw [same]
    exact ⟨sound, rfl⟩
  · rw [swept]
    exact ⟨sound.sweep expires, rfl⟩

omit [DecidableEq K] in
/-- What a checkout does: the current roster is handed out under the next number. -/
theorem checkout_eq_ok_iff {s' : Store K V} {id : CheckoutId} {base : Roster K} :
    s.checkout = .ok ((id, base), s') ↔
      s.roster? s.revision = some base ∧ id = ⟨s.nextCheckout⟩ ∧
        s' = { s with
          active := s.active ++ [⟨⟨s.nextCheckout⟩, base.revision⟩]
          nextCheckout := s.nextCheckout + 1 } := by
  simp only [Store.checkout]
  cases current : s.currentRoster with
  | error failure =>
    have absent : s.roster? s.revision ≠ some base := by
      rw [Ne, ← currentRoster_eq_ok_iff, current]
      simp
    simp [absent]
  | ok roster =>
    rw [currentRoster_eq_ok_iff.1 current]
    simp only [Except.ok.injEq, Prod.mk.injEq, Option.some.injEq]
    constructor
    · rintro ⟨⟨rfl, rfl⟩, rfl⟩
      exact ⟨rfl, rfl, rfl⟩
    · rintro ⟨rfl, rfl, rfl⟩
      exact ⟨⟨rfl, rfl⟩, rfl⟩

/-- A checkout keeps a store sound and registers a copy of the current roster. -/
theorem Sound.checkout {s' : Store K V} {id : CheckoutId} {base : Roster K} (sound : s.Sound log)
    (made : s.checkout = .ok ((id, base), s')) :
    s'.Sound log ∧ (⟨id, .new base⟩ : WorkingCopy K V).Registered s' log ∧
      (∀ registration ∈ s.active, registration ∈ s'.active ∧ registration.id ≠ id) := by
  obtain ⟨current, rfl, rfl⟩ := checkout_eq_ok_iff.1 made
  obtain ⟨member, same⟩ := mem_of_roster? current
  refine ⟨⟨sound.kept.of_register rfl rfl rfl, ?_, ?_⟩, ⟨.new base, ?_, ?_⟩, ?_⟩
  · refine sound.tracks.of_register rfl rfl rfl rfl fun registration member => ?_
    obtain old | new := List.mem_append.1 member
    · exact .inr ⟨registration, old, rfl⟩
    · rw [List.mem_singleton.1 new, same]
      exact sound.kept.watched_revision
  · intro registration member
    obtain old | new := List.mem_append.1 member
    · exact Nat.lt_succ_of_lt (sound.numbered registration old)
    · rw [List.mem_singleton.1 new]
      exact Nat.lt_succ_self _
  · exact List.mem_append_right _ List.mem_cons_self
  · exact sound.tracks.listed base member
  · intro registration old
    refine ⟨List.mem_append_left _ old, fun equal => ?_⟩
    have spent := sound.numbered registration old
    rw [equal] at spent
    exact Nat.lt_irrefl _ spent

theorem Sound.commit {s' : Store K V} {reconciler : Reconciler V} {now : Nat} {d : Draft K V}
    (sound : s.Sound log) (staged : d.WellStaged)
    (committed : s.commit reconciler now d = .ok s') :
    s'.Sound (log ++ [⟨reconciler, d⟩]) ∧ s'.active = s.active := by
  have extended := extended_of_commit sound.kept staged committed
  refine ⟨⟨extended.wellKept sound.kept staged, sound.tracks.extended sound.kept staged extended,
    fun registration member => ?_⟩, extended.active⟩
  rw [extended.nextCheckout]
  exact sound.numbered registration (extended.active ▸ member)

end Store

/-! ## Copies -/

namespace WorkingCopy.Registered

variable {c : WorkingCopy K V} {s s' : Store K V} {log log' : List (Commit K V)}

/-- The base of a registered copy is watched. -/
theorem watched (registered : c.Registered s log) : s.Watched c.draft.revision :=
  .inr ⟨_, registered.registered, rfl⟩

/-- A copy stays registered while its entry stays and the contents at its base do. -/
theorem of_active (registered : c.Registered s log)
    (stays : ⟨c.id, c.draft.revision⟩ ∈ s'.active)
    (same : contentsAt log' c.draft.revision = contentsAt log c.draft.revision) :
    c.Registered s' log' :=
  ⟨registered.staged, stays, fun k => same ▸ registered.listed k⟩

theorem evolves {d : Draft K V} (registered : c.Registered s log)
    (evolves : c.draft.Evolves d) : { c with draft := d }.Registered s log := by
  have base := evolves.base
  refine ⟨registered.staged.evolves evolves, ?_, ?_⟩
  · simpa [Draft.revision, base] using registered.registered
  · simpa [Draft.revision, base] using registered.listed

end WorkingCopy.Registered

end RevisionStore
