import RevisionStore.Store.Expire
import RevisionStore.Proofs.Store.Sound

/-!
# Twin stores

Two stores with the rule `latestPrior` are twins if they went through the same commits and
have the same copies open, but one of them, the whole one, has given up nothing that the
other still has. Histories do not occur in this relation: both stores are sound for one
log, and the log decides what they end in and what their lookups find. So twins cannot be
told apart by commits, by refreshes or by reads at a revision that both retain.
-/

namespace RevisionStore

namespace Store

variable {K V : Type} [DecidableEq K] {s t : Store K V}

/-- `t` is at the revision of `s`, has the same copies open and every roster of `s`, and both
look up the newest earlier change. -/
structure Mirrors (t s : Store K V) : Prop where
  revision : t.revision = s.revision
  active : t.active = s.active
  nextCheckout : t.nextCheckout = s.nextCheckout
  rosters : s.rosters ⊆ t.rosters
  latest : s.lookup = .latestPrior
  latest' : t.lookup = .latestPrior

/-- A store that mirrors another one and is sound for the same log. -/
structure Twins (t s : Store K V) (log : List (Commit K V)) : Prop where
  mirrors : t.Mirrors s
  whole : t.Sound log
  pruned : s.Sound log

/-! ## Operations -/

namespace Mirrors

omit [DecidableEq K] in
theorem refl (latest : s.lookup = .latestPrior) : s.Mirrors s :=
  ⟨rfl, rfl, rfl, fun _ => id, latest, latest⟩

omit [DecidableEq K] in
theorem release (mirrors : t.Mirrors s) (id : CheckoutId) : (t.release id).Mirrors (s.release id) :=
  { mirrors with active := by simp only [Store.release, mirrors.active] }

/-- A pass takes nothing away but rosters and changes. -/
theorem expire (mirrors : t.Mirrors s) (keeper : Retention.Keeper K V) (now : Nat) :
    t.Mirrors (s.expire keeper now).2.1 := by
  cases s.expire_store keeper now with
  | inl same => rwa [same]
  | inr swept =>
    obtain ⟨expires, swept⟩ := swept
    rw [swept]
    exact { mirrors with
      rosters := fun roster member => mirrors.rosters (mem_rosters_sweep.1 member).1 }

theorem publish (mirrors : t.Mirrors s) (now : Nat) (p : Publication K V) :
    (t.publish now p).Mirrors (s.publish now p) where
  revision := by simp only [Store.publish, mirrors.revision]
  active := mirrors.active
  nextCheckout := mirrors.nextCheckout
  rosters roster member := by
    simp only [Store.publish, mirrors.revision, List.mem_append] at member ⊢
    exact member.imp_left fun old => mirrors.rosters old
  latest := mirrors.latest
  latest' := mirrors.latest'

omit [DecidableEq K] in
theorem register (mirrors : t.Mirrors s) (registration : Registration) :
    Mirrors
      { t with active := t.active ++ [registration], nextCheckout := t.nextCheckout + 1 }
      { s with active := s.active ++ [registration], nextCheckout := s.nextCheckout + 1 } :=
  { mirrors with
    active := by simp only [mirrors.active]
    nextCheckout := by simp only [mirrors.nextCheckout] }

end Mirrors

namespace Twins

variable {log : List (Commit K V)} {reconciler : Reconciler V} {r : Revision} {roster : Roster K}

/-! ## What twins have in common -/

theorem roster? (twins : t.Twins s log) (found : s.roster? r = some roster) :
    t.roster? r = some roster := by
  obtain ⟨member, rfl⟩ := mem_of_roster? found
  exact roster?_of_mem twins.whole.kept.ascending (twins.mirrors.rosters member)

theorem currentRoster (twins : t.Twins s log) : t.currentRoster = s.currentRoster := by
  obtain ⟨roster, current⟩ := twins.pruned.kept.current
  have current' := twins.roster? current
  rw [← twins.mirrors.revision] at current'
  rw [currentRoster_eq_ok_iff.2 current, currentRoster_eq_ok_iff.2 current']

theorem leading? (twins : t.Twins s log) (k : K) : t.leading? k = s.leading? k := by
  rw [twins.whole.tracks.leading, twins.pruned.tracks.leading, twins.mirrors.revision]

theorem isLive (twins : t.Twins s log) (k : K) : t.isLive k = s.isLive k := by
  rw [← twins.whole.kept.isSome_leading?, ← twins.pruned.kept.isSome_leading?, twins.leading?]

/-! ## Commits and checkouts -/

theorem prepare (twins : t.Twins s log) (reconciler : Reconciler V) (d : Draft K V) :
    t.prepare reconciler d = s.prepare reconciler d := by
  have valid : t.validate d = s.validate d := by
    simp only [validate, twins.isLive, twins.mirrors.revision]
  have modified : t.modification reconciler d = s.modification reconciler d := by
    funext k
    simp only [modification, twins.leading?]
  simp only [Store.prepare, valid, modified, twins.currentRoster]

/-- Twins refuse a commit for the same reason or take it both. -/
theorem commit (twins : t.Twins s log) (reconciler : Reconciler V) (now : Nat) (d : Draft K V) :
    (∃ failure, t.commit reconciler now d = .error failure ∧
        s.commit reconciler now d = .error failure) ∨
      ∃ t' s', t.commit reconciler now d = .ok t' ∧ s.commit reconciler now d = .ok s' ∧
        t'.Mirrors s' := by
  simp only [Store.commit, twins.prepare reconciler d]
  cases s.prepare reconciler d with
  | error failure => exact .inl ⟨failure, rfl, rfl⟩
  | ok p => exact .inr ⟨_, _, rfl, rfl, twins.mirrors.publish now p⟩

/-- Twins hand out the same copy. -/
theorem checkout (twins : t.Twins s log) :
    ∃ id base t' s', t.checkout = .ok ((id, base), t') ∧ s.checkout = .ok ((id, base), s') ∧
      t'.Mirrors s' := by
  obtain ⟨base, current⟩ := twins.pruned.kept.current
  have here := currentRoster_eq_ok_iff.2 current
  have there := twins.currentRoster.trans here
  refine ⟨⟨s.nextCheckout⟩, base, _, _, ?_, by simp only [Store.checkout, here],
    twins.mirrors.register ⟨⟨s.nextCheckout⟩, base.revision⟩⟩
  simp only [Store.checkout, there, twins.mirrors.nextCheckout]

/-! ## Reads -/

/-- Twins find the same at a revision that both retain, whatever their archives recall. -/
theorem visible (twins : t.Twins s log) (recollect recollect' : Recollection K V)
    (found : s.roster? r = some roster) (k : K) :
    t.visible recollect' r k = s.visible recollect r k := by
  rw [twins.whole.tracks.visible_retained twins.mirrors.latest' _ (twins.roster? found),
    twins.pruned.tracks.visible_retained twins.mirrors.latest _ found]

theorem getAt (twins : t.Twins s log) (recollect recollect' : Recollection K V)
    (found : s.roster? r = some roster) (k : K) :
    t.getAt reconciler recollect' r k = s.getAt reconciler recollect r k := by
  simp only [Store.getAt, twins.visible recollect recollect' found]

/-- Twins read the same under the keys of the base of an open copy, retained or not. -/
theorem getAt_registered (twins : t.Twins s log) (recollect recollect' : Recollection K V)
    {c : WorkingCopy K V} (registered : c.Registered s log) {k : K}
    (listed : k ∈ c.draft.base.keys) :
    t.getAt reconciler recollect' c.draft.revision k =
      s.getAt reconciler recollect c.draft.revision k := by
  obtain ⟨v, there⟩ := Option.isSome_iff_exists.1 ((registered.listed k).1 listed)
  have watched : t.Watched c.draft.revision :=
    .inr ⟨_, twins.mirrors.active ▸ registered.registered, rfl⟩
  rw [twins.whole.tracks.getAt_of_contents twins.mirrors.latest' watched there,
    twins.pruned.tracks.getAt_of_contents twins.mirrors.latest registered.watched there]

theorem get (twins : t.Twins s log) (recollect recollect' : Recollection K V) (k : K) :
    t.get reconciler recollect' k = s.get reconciler recollect k := by
  obtain ⟨roster, current⟩ := twins.pruned.kept.current
  rw [Store.get, Store.get, twins.mirrors.revision, twins.getAt recollect recollect' current]

theorem containsAt (twins : t.Twins s log) (recollect recollect' : Recollection K V)
    (found : s.roster? r = some roster) (k : K) :
    t.containsAt recollect' r k = s.containsAt recollect r k := by
  rw [Store.containsAt, Store.containsAt, twins.visible recollect recollect' found]

theorem contains (twins : t.Twins s log) (recollect recollect' : Recollection K V) (k : K) :
    t.contains recollect' k = s.contains recollect k := by
  obtain ⟨roster, current⟩ := twins.pruned.kept.current
  rw [Store.contains, Store.contains, twins.mirrors.revision,
    twins.containsAt recollect recollect' current]

theorem rosterAt (twins : t.Twins s log) (found : s.roster? r = some roster) :
    t.rosterAt r = s.rosterAt r := by
  simp only [Store.rosterAt, Store.checkRange, twins.mirrors.revision, found, twins.roster? found]

theorem currentPairs (twins : t.Twins s log) (recollect recollect' : Recollection K V)
    (keys : List K) :
    t.currentPairs reconciler recollect' keys = s.currentPairs reconciler recollect keys := by
  induction keys with
  | nil => rfl
  | cons k keys ih => simp only [Store.currentPairs, twins.get recollect recollect', ih]

theorem asMap (twins : t.Twins s log) (recollect recollect' : Recollection K V) :
    t.asMap reconciler recollect' = s.asMap reconciler recollect := by
  simp only [Store.asMap, twins.currentRoster, twins.currentPairs recollect recollect',
    twins.mirrors.revision]

theorem liveAmong (twins : t.Twins s log) (keys : List K) :
    t.liveAmong reconciler roster keys = s.liveAmong reconciler roster keys := by
  induction keys with
  | nil => rfl
  | cons k keys ih => simp only [Store.liveAmong, twins.leading?, ih]

theorem liveValues (twins : t.Twins s log) (reconciler : Reconciler V) :
    t.liveValues reconciler = s.liveValues reconciler := by
  funext candidates
  simp only [Store.liveValues, twins.currentRoster, twins.liveAmong]

end Twins

end Store

end RevisionStore
