import RevisionStore.Proofs.Session.Sound
import RevisionStore.Proofs.Store.Acceptance
import RevisionStore.Proofs.Store.Course

/-!
# Sites in service

A fault in a commit poisons its site for good, and it is the only thing that does. A site
whose reconcilers never give up therefore stays in service through every run
(`Serves.run`). Its lookup rule is that of its specification throughout.
-/

namespace RevisionStore

variable {K V : Type} [DecidableEq K]

/-- A site in working order, whose reconciler never gives up. -/
structure Site.InService (site : Site K V) (rule : Lookup) : Prop where
  sound : site.poisoned = false
  total : site.reconciler.Total
  lookup : site.store.lookup = rule

namespace Session

/-- The site at a place is in service. -/
def Serves (s : Session K V) (i : Nat) (rule : Lookup) : Prop :=
  ∃ site, s.sites[i]? = some site ∧ site.InService rule

variable {s t : Session K V} {i j : Nat} {rule : Lookup} {site site' : Site K V}

namespace Serves

omit [DecidableEq K] in
theorem of_sites (serves : s.Serves i rule) (sites : t.sites = s.sites) : t.Serves i rule := by
  obtain ⟨site, there, service⟩ := serves
  exact ⟨site, sites ▸ there, service⟩

omit [DecidableEq K] in
theorem putSite (serves : s.Serves i rule) (there : s.sites[j]? = some site)
    (stays : i = j → site.InService rule → site'.InService rule) :
    (s.putSite j site').Serves i rule := by
  obtain ⟨found, there', service⟩ := serves
  by_cases same : i = j
  · subst same
    obtain rfl := Option.some.inj (there.symm.trans there')
    exact ⟨site', by simp [getElem?_putSite there], stays rfl service⟩
  · exact ⟨found, by simp [getElem?_putSite there, same, there'], service⟩

omit [DecidableEq K] in
/-- What happens to a store leaves its site in service if its rule stays. -/
theorem putStore {store : Store K V} (serves : s.Serves i rule) (there : s.sites[j]? = some site)
    (lookup : store.lookup = site.store.lookup) :
    (s.putSite j { site with store := store }).Serves i rule :=
  serves.putSite there fun _ service => ⟨service.sound, service.total, lookup.trans service.lookup⟩

theorem move (serves : s.Serves i rule) (move : Move s t) : t.Serves i rule := by
  cases move with
  | aside sites copies => exact serves.of_sites sites
  | @handed _ j warden archive site there sites copies =>
    have handed : (s.putSite j { site with warden := warden, archive := archive }).Serves i rule :=
      serves.putSite there fun _ service => ⟨service.sound, service.total, service.lookup⟩
    exact handed.of_sites sites
  | poisoned there raised =>
    exact serves.putSite there fun _ service =>
      absurd raised (Store.commit_ne_fault service.total)
  | @opened j name site id base store there free made =>
    exact (serves.putStore there (Store.Step.opened made).lookup).of_sites rfl
  | redrafted opened evolves => exact serves.of_sites rfl
  | @left name lent opened =>
    have erased : { s with copies := s.copies.erase name }.Serves i rule := serves.of_sites rfl
    simp only [Session.release]
    split
    next => exact erased
    next site usable => exact erased.putStore (usable_eq_ok_iff.1 usable).1 rfl
  | passed there =>
    exact (serves.putStore there (Store.course_expire _ _ _).lookup).of_sites rfl

theorem moves (serves : s.Serves i rule) (moves : Moves s t) : t.Serves i rule := by
  induction moves with
  | refl => exact serves
  | tail _ step ih => exact ih.move step

/-- Every action leaves a site in service, unless it gives it a reconciler that may give up. -/
theorem perform (serves : s.Serves i rule) (action : Action K V)
    (totals : ∀ r, action = .setReconciler i r → r.Total) :
    (s.perform action).2.Serves i rule := by
  have turn := s.perform_turn action
  generalize (s.perform action).2 = t at turn
  cases turn with
  | moved moves silent => exact serves.moves moves
  | reconciled asked there =>
    refine serves.putSite there fun same service => ⟨service.sound, ?_, service.lookup⟩
    exact totals _ (same ▸ asked)
  | committed opened there succeeded logged =>
    exact serves.putStore there (Store.lookup_of_commit succeeded)

/-- A site whose reconcilers never give up is in service after every run. -/
theorem run (serves : s.Serves i rule) (actions : List (Action K V))
    (totals : ∀ r, .setReconciler i r ∈ actions → r.Total) : (s.run actions).Serves i rule := by
  induction actions generalizing s with
  | nil => exact serves
  | cons action rest ih =>
    refine ih (serves.perform action fun r asked => totals r ?_) fun r member => totals r ?_
    · rw [asked]
      exact List.mem_cons_self
    · exact List.mem_cons_of_mem _ member

omit [DecidableEq K] in
theorem start {specs : List (SiteSpec K V)} {spec : SiteSpec K V}
    (specified : specs[i]? = some spec) (total : spec.reconciler.Total) (clock : Nat) :
    (Session.start specs clock).Serves i spec.lookup := by
  refine ⟨⟨.fresh spec.lookup clock, spec.reconciler, i, i, false⟩, ?_, rfl, total, rfl⟩
  simp [Session.start, specified]

end Serves

end Session

end RevisionStore
