import RevisionStore.Proofs.Session.Commits
import RevisionStore.Proofs.Session.Policies
import RevisionStore.Proofs.Store.Window

/-!
# What a run does to one store

Between two commits to a store its copies are checked out and released, and its keeper runs
passes (`Effect.tends`). `Session.Under P i` says of a run that the keeper of the site at `i`
follows a policy with `P` whenever something is done, which is so if only such policies are
installed (`under_of_installs`). What is preserved by commits and by upkeep under such a policy
then holds of the store after the run (`Under.holds`).
-/

namespace RevisionStore

variable {K V : Type} [DecidableEq K]

namespace Store

/-- `Q`, a property of stores with their logs, is preserved by commits and by upkeep under
policies with `P`. -/
structure Invariant (P : Retention.Policy K → Prop) (Q : Store K V → List (Commit K V) → Prop) :
    Prop where
  upkeep : ∀ {s s' log} {keeper : Retention.Keeper K V} {now}, P keeper.warden.policy →
    s.Sound log → Orderly log → Upkeep keeper now s s' → Q s log → Q s' log
  extended : ∀ {s s' log} {c : Commit K V}, s.Sound log → Orderly log → c.draft.WellStaged →
    s.Extended c s' → Q s log → Q s' (log ++ [c])

theorem Invariant.upkeeps {P : Retention.Policy K → Prop}
    {Q : Store K V → List (Commit K V) → Prop} {keeper : Retention.Keeper K V} {now : Nat}
    {s s' : Store K V} {log : List (Commit K V)} (invariant : Invariant P Q)
    (policy : P keeper.warden.policy) (sound : s.Sound log) (orderly : Orderly log)
    (upkeep : Relation.ReflTransGen (Upkeep keeper now) s s') (holds : Q s log) : Q s' log := by
  have both : s'.Sound log ∧ Q s' log := by
    induction upkeep with
    | refl => exact ⟨sound, holds⟩
    | tail _ step ih =>
      obtain ⟨sound, holds⟩ := ih
      exact ⟨step.sound sound, invariant.upkeep policy sound orderly step holds⟩
  exact both.2

end Store

namespace Session

/-! ## Between commits -/

/-- Every store of `s` is in `t` what upkeep by its keeper has made of it. -/
def Tends (s t : Session K V) : Prop :=
  ∀ (i : Nat) (site : Site K V), s.sites[i]? = some site →
    ∃ site' : Site K V, t.sites[i]? = some site' ∧
      Relation.ReflTransGen (Store.Upkeep (s.keeperOf site) s.clock) site.store site'.store

section Tends

variable {s t u : Session K V} {i : Nat} {site site' : Site K V}

theorem Tends.of_sites (sites : t.sites = s.sites) : s.Tends t :=
  fun _ site there => ⟨site, sites ▸ there, .refl⟩

theorem Tends.of_putSite (there : s.sites[i]? = some site)
    (sites : t.sites = (s.putSite i site').sites)
    (upkeep : Relation.ReflTransGen (Store.Upkeep (s.keeperOf site) s.clock)
      site.store site'.store) : s.Tends t := by
  intro j found there'
  rw [sites, getElem?_putSite there]
  by_cases same : j = i
  · subst same
    obtain rfl := Option.some.inj (there.symm.trans there')
    exact ⟨site', if_pos rfl, upkeep⟩
  · exact ⟨found, by simp [same, there'], .refl⟩

/-- The keepers of the sites of `s` are those of the sites of `t`. -/
structure SameKeepers (s t : Session K V) : Prop where
  clock : t.clock = s.clock
  keepers : ∀ (i : Nat) (site site' : Site K V), s.sites[i]? = some site →
    t.sites[i]? = some site' → t.keeperOf site' = s.keeperOf site

theorem Tends.trans (first : s.Tends t) (same : s.SameKeepers t) (second : t.Tends u) :
    s.Tends u := by
  intro i site there
  obtain ⟨site', there', upkeep⟩ := first i site there
  obtain ⟨site'', there'', further⟩ := second i site' there'
  rw [same.keepers i site site' there there', same.clock] at further
  exact ⟨site'', there'', upkeep.trans further⟩

end Tends

variable (s : Session K V)

theorem tends_without (name : String) (lent : Lent (WorkingCopy K V)) :
    s.Tends (s.without name lent) ∧ s.SameKeepers (s.without name lent) := by
  obtain ⟨home, usable, left⟩ | ⟨_, left⟩ := s.without_eq_or name lent
  · have there : { s with copies := s.copies.erase name }.sites[lent.home]? = some home :=
      (usable_eq_ok_iff.1 usable).1
    rw [left]
    refine ⟨.of_putSite there rfl (.single (.released home.store lent.item.id)), rfl, ?_⟩
    intro i site site' located located'
    rw [getElem?_putSite there] at located'
    split at located'
    next same =>
      subst same
      obtain rfl := Option.some.inj (there.symm.trans located)
      obtain rfl := Option.some.inj located'
      rfl
    next =>
      obtain rfl := Option.some.inj (located.symm.trans located')
      rfl
  · rw [left]
    refine ⟨.of_sites rfl, rfl, fun i site site' located located' => ?_⟩
    obtain rfl := Option.some.inj (located.symm.trans located')
    rfl

theorem tends_expire (i : Nat) : s.Tends (s.expire i).2 := by
  obtain ⟨site, usable, passed⟩ | same := s.expire_eq_or i
  · rw [passed]
    exact .of_putSite (usable_eq_ok_iff.1 usable).1 rfl (.single (.passed site.store))
  · rw [same]
    exact .of_sites rfl

variable {s} in
/-- An action leaves of a store to which it commits nothing what upkeep has made of it. -/
theorem Effect.tends {t : Session K V} {action : Action K V} {i : Nat} {site : Site K V}
    (effect : s.Effect action t) (there : s.sites[i]? = some site)
    (silent : s.committed? i action = none) :
    ∃ site', t.sites[i]? = some site' ∧
      Relation.ReflTransGen (Store.Upkeep (s.keeperOf site) s.clock) site.store site'.store := by
  have of_tends (tends : s.Tends t) := tends i site there
  cases effect with
  | aside calm sites archives copies => exact of_tends (.of_sites sites)
  | redrafted calm opened asks sites archives copies => exact of_tends (.of_sites sites)
  | refitted calm located refitted sites archives copies =>
    exact of_tends (.of_putSite located sites (by rw [refitted.store]))
  | reconciled located => exact of_tends (.of_putSite located rfl .refl)
  | opened located free made announced =>
    exact of_tends (.of_putSite located rfl (.single (.opened made)))
  | @committed name target lent _ store opened located succeeded logged =>
    have elsewhere : i ≠ lent.home := fun here => by simp [logged, here] at silent
    exact ⟨site, by rw [getElem?_putSite located, if_neg elsewhere, there], .refl⟩
  | left calm opened => exact of_tends (s.tends_without _ _).1
  | closed calm opened =>
    obtain ⟨released, same⟩ := s.tends_without _ _
    exact of_tends (released.trans same (tends_expire _ _))
  | passed j => exact of_tends (s.tends_expire j)
  | drained located recording => exact of_tends (.of_sites rfl)

/-! ## Runs -/

variable {s}

/-- Whenever something is done in a run, the keeper of the site at `i` follows a policy
with `P`. -/
def Under (P : Retention.Policy K → Prop) (i : Nat) : Session K V → List (Action K V) → Prop
  | _, [] => True
  | s, action :: rest =>
    (∀ site, s.sites[i]? = some site → P (s.keeperOf site).warden.policy) ∧
      Under P i (s.perform action).2 rest

/-- A run is under policies with `P` if there are no others to begin with and none is installed.
The standard policy is what a site without a warden would follow. -/
theorem under_of_policies {P : Retention.Policy K → Prop} {actions : List (Action K V)} (i : Nat)
    (standard : P Retention.Plan.standard.policy) (before : ∀ policy ∈ s.policies, P policy)
    (installs : ∀ action ∈ actions, ∀ policy, action.Installs policy → P policy) :
    Under P i s actions := by
  induction actions generalizing s with
  | nil => trivial
  | cons action rest ih =>
    obtain ⟨first, later⟩ := List.forall_mem_cons.1 installs
    refine ⟨fun site _ => ?_, ih (fun policy member => ?_) later⟩
    · obtain same | member := s.policy_keeperOf site
      · exact same ▸ standard
      · exact before _ member
    · exact (s.mem_policies_perform action member).elim (before policy) (first policy)

/-- A run of a fresh session is under policies with `P` if only such policies are installed. -/
theorem under_of_installs {P : Retention.Policy K → Prop} {specs : List (SiteSpec K V)}
    {actions : List (Action K V)} (clock i : Nat) (standard : P Retention.Plan.standard.policy)
    (specified : ∀ spec ∈ specs, P spec.policy)
    (installs : ∀ action ∈ actions, ∀ policy, action.Installs policy → P policy) :
    Under P i (start specs clock) actions := by
  refine under_of_policies i standard (fun policy member => ?_) installs
  simp only [policies, Session.start, List.map_map, List.mem_map] at member
  obtain ⟨spec, named, rfl⟩ := member
  exact specified spec named

/-- An action leaves under a site what upkeep or the commit it makes leave there. -/
theorem Sound.holds_perform {logs : Nat → List (Commit K V)} {P : Retention.Policy K → Prop}
    {Q : Store K V → List (Commit K V) → Prop} {i : Nat} {site : Site K V}
    (invariant : Store.Invariant P Q) (sound : s.Sound logs) (orderly : Orderly (logs i))
    (there : s.sites[i]? = some site) (policy : P (s.keeperOf site).warden.policy)
    (holds : Q site.store (logs i)) (action : Action K V) :
    ∃ site', (s.perform action).2.sites[i]? = some site' ∧
      Q site'.store (logs i ++ (s.committed? i action).toList) := by
  have store := sound.stores i site there
  cases committed : s.committed? i action with
  | some c =>
    obtain ⟨found, site', there', after, staged, extended⟩ :=
      sound.extended_of_committed? committed
    obtain rfl := Option.some.inj (there'.symm.trans there)
    exact ⟨site', after, invariant.extended store orderly staged extended holds⟩
  | none =>
    obtain ⟨site', there', upkeep⟩ := (s.perform_effect action).tends there committed
    rw [Option.toList_none, List.append_nil]
    exact ⟨site', there', invariant.upkeeps policy store orderly upkeep holds⟩

/-- What is invariant under policies with `P` holds after a run under such policies. -/
theorem Under.holds {logs : Nat → List (Commit K V)} {P : Retention.Policy K → Prop}
    {Q : Store K V → List (Commit K V) → Prop} {i : Nat} {site : Site K V}
    {actions : List (Action K V)} (under : Under P i s actions) (invariant : Store.Invariant P Q)
    (sound : s.Sound logs) (orderly : Orderly (logs i)) (there : s.sites[i]? = some site)
    (holds : Q site.store (logs i)) :
    ∃ site', (s.run actions).sites[i]? = some site' ∧
      Q site'.store (logs i ++ s.commits i actions) := by
  induction actions generalizing s logs site with
  | nil => exact ⟨site, there, by simpa [commits] using holds⟩
  | cons action rest ih =>
    obtain ⟨policy, under⟩ := under
    obtain ⟨site', there', holds'⟩ :=
      sound.holds_perform invariant orderly there (policy site there) holds action
    have orderly' : Orderly (logs i ++ (s.committed? i action).toList) := by
      simpa [commits] using sound.orderly_run orderly [action]
    simpa [commits, Session.run] using ih under (sound.perform action) orderly' there' holds'

/-- What is invariant under policies with `P` and holds of a fresh store, holds of a store after
a run of a fresh session under such policies. -/
theorem Under.holds_of_fresh {P : Retention.Policy K → Prop}
    {Q : Store K V → List (Commit K V) → Prop} {specs : List (SiteSpec K V)}
    {spec : SiteSpec K V} {clock i : Nat} {actions : List (Action K V)}
    (under : Under P i (start specs clock) actions) (invariant : Store.Invariant P Q)
    (specified : specs[i]? = some spec) (fresh : Q (.fresh spec.lookup clock) []) :
    ∃ site, ((start specs clock).run actions).sites[i]? = some site ∧
      Q site.store ((start specs clock).commits i actions) := by
  have there : (start specs clock).sites[i]? =
      some ⟨.fresh spec.lookup clock, spec.reconciler, i, i, false⟩ := by
    simp [Session.start, specified]
  simpa using under.holds invariant (.start specs clock) .nil there fresh

end Session

end RevisionStore
