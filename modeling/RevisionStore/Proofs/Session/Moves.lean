import RevisionStore.Proofs.Session.Effects

/-!
# The moves of a session

`Session.Move` lists the ways in which stores and copies change, short of a commit or a new
reconciler, whatever the action that does it. An effect takes some moves, or a new reconciler,
or a commit (`perform_turn`), so that an invariant which each of these preserves is preserved
by every action.
-/

namespace RevisionStore

namespace Session

variable {K V : Type} [DecidableEq K]

/-! ## Moves -/

/-- A way in which an action changes a session, short of a commit or a new reconciler. -/
inductive Move : Session K V → Session K V → Prop
  -- snapshots, cursors, keepers and the clock are beside the point
  | aside {s t : Session K V} (sites : t.sites = s.sites) (copies : t.copies = s.copies) : Move s t
  -- a site changes hands
  | handed {s t : Session K V} {i warden archive : Nat} {site : Site K V}
      (there : s.sites[i]? = some site)
      (sites : t.sites = (s.putSite i { site with warden := warden, archive := archive }).sites)
      (copies : t.copies = s.copies) : Move s t
  -- a commit raises a fault in client code and poisons its site
  | poisoned {s : Session K V} {i : Nat} {site : Site K V} {d : Draft K V} {fault : Fault}
      (there : s.sites[i]? = some site)
      (raised : site.store.commit site.reconciler s.clock d = .error (.fault fault)) :
      Move s (s.putSite i { site with poisoned := true })
  -- a copy is checked out under a free name
  | opened {s : Session K V} {i : Nat} {name : String} {site : Site K V} {id : CheckoutId}
      {base : Roster K} {store : Store K V} (there : s.sites[i]? = some site)
      (free : s.copies.get? name = none) (made : site.store.checkout = .ok ((id, base), store)) :
      Move s { s.putSite i { site with store := store } with
        copies := s.copies.put name ⟨i, ⟨id, .new base⟩⟩ }
  -- the draft of a copy changes
  | redrafted {s : Session K V} {name : String} {lent : Lent (WorkingCopy K V)} {d : Draft K V}
      (opened : s.copies.get? name = some lent) (evolves : lent.item.draft.Evolves d) :
      Move s (s.putDraft name lent d)
  -- a copy is let go of
  | left {s : Session K V} {name : String} {lent : Lent (WorkingCopy K V)}
      (opened : s.copies.get? name = some lent) :
      Move s ({ s with copies := s.copies.erase name }.release lent)
  -- the keeper of a site runs a pass
  | passed {s : Session K V} {i : Nat} {site : Site K V} (there : s.sites[i]? = some site) :
      Move s
        ((s.putSite i
          { site with store := (site.store.expire (s.keeperOf site) s.clock).2.1 }).putKeeper site
            (site.store.expire (s.keeperOf site) s.clock).2.2)

/-- Any number of moves. -/
abbrev Moves : Session K V → Session K V → Prop :=
  Relation.ReflTransGen Move

/-- What one action can do. -/
inductive Turn (s : Session K V) (action : Action K V) : Session K V → Prop
  | moved {t : Session K V} (moves : Moves s t) (silent : ∀ i, s.committed? i action = none) :
      Turn s action t
  | reconciled {i : Nat} {site : Site K V} {reconciler : Reconciler V}
      (asked : action = .setReconciler i reconciler) (there : s.sites[i]? = some site) :
      Turn s action (s.putSite i { site with reconciler := reconciler })
  | committed {name : String} {lent : Lent (WorkingCopy K V)} {site : Site K V} {store : Store K V}
      (opened : s.copies.get? name = some lent) (there : s.sites[lent.home]? = some site)
      (succeeded : site.store.commit site.reconciler s.clock lent.item.draft = .ok store)
      (logged : ∀ i, s.committed? i action =
        if lent.home = i then some ⟨site.reconciler, lent.item.draft⟩ else none) :
      Turn s action (s.putSite lent.home { site with store := store })

/-! ## Effects take moves -/

variable {s t : Session K V} {action : Action K V}

theorem without_moves {name : String} {lent : Lent (WorkingCopy K V)}
    (opened : s.copies.get? name = some lent) : Moves s (s.without name lent) :=
  .single (.left opened)

theorem expire_moves (s : Session K V) (i : Nat) : Moves s (s.expire i).2 := by
  obtain ⟨site, usable, passed⟩ | same := s.expire_eq_or i
  · rw [passed]
    exact .single (.passed (usable_eq_ok_iff.1 usable).1)
  · rw [same]

theorem Effect.turn (effect : s.Effect action t) : Turn s action t := by
  cases effect with
  | aside calm sites archives copies =>
    exact .moved (.single (.aside sites copies)) calm.uncommitted
  | @redrafted _ _ name lent request calm opened asks sites archives copies =>
    have redrafted : Move s (s.putDraft name lent (lent.item.draft.after request)) :=
      .redrafted opened (Draft.evolves_after request)
    exact .moved (.tail (.single redrafted) (.aside sites copies)) calm.uncommitted
  | refitted calm there refitted sites archives copies =>
    refine .moved ?_ calm.uncommitted
    cases refitted with
    | handed whence => exact .single (.handed there sites copies)
    | poisoned raised =>
      exact .tail (.single (.poisoned there raised)) (.aside sites copies)
  | reconciled there => exact .reconciled rfl there
  | opened there free made announced =>
    exact .moved (.single (.opened there free made)) fun _ => rfl
  | committed opened there succeeded logged => exact .committed opened there succeeded logged
  | left calm opened => exact .moved (without_moves opened) calm.uncommitted
  | closed calm opened =>
    exact .moved ((without_moves opened).trans (expire_moves _ _)) calm.uncommitted
  | passed i => exact .moved (s.expire_moves i) fun _ => rfl
  | drained there recording => exact .moved (.single (.aside rfl rfl)) fun _ => rfl

/-- What an action can do to a session. -/
theorem perform_turn (s : Session K V) (action : Action K V) :
    Turn s action (s.perform action).2 :=
  (s.perform_effect action).turn

end Session

end RevisionStore
