import RevisionStore.Session.Action
import RevisionStore.Proofs.Draft.Requests
import RevisionStore.Proofs.Timeline

/-!
# The effect of an action

Most of the fifty actions leave the sites, the copies and the archives of a session alone, and
the rest change them in a few ways. `Session.Effect` says, by kind of action, what an action
writes (`perform_effect`); what it asks of a draft is in `Session.Asks`. What it yields besides,
a commit, a registration or drained rosters, is read off its answer; most actions are
`Uneventful`.

Invariants of sessions are proved by going through these cases, not through the actions.
-/

namespace RevisionStore

namespace Session

variable {K V : Type}

/-! ## Sites and names -/

section Views

variable {s : Session K V} {i j : Nat} {site site' : Site K V}

theorem site_eq_ok_iff : s.site i = .ok site ↔ s.sites[i]? = some site := by
  simp only [Session.site]
  cases s.sites[i]? <;> simp

theorem usable_eq_ok_iff :
    s.usable i = .ok site ↔ s.sites[i]? = some site ∧ site.poisoned = false := by
  simp only [usable]
  cases there : s.site i with
  | error refusal =>
    have absent : ¬ s.sites[i]? = some site := by
      rw [← site_eq_ok_iff, there]
      simp
    simp [absent]
  | ok found =>
    rw [site_eq_ok_iff] at there
    cases poisoned : found.poisoned with
    | true =>
      simp only [poisoned, if_true, there, Option.some.injEq]
      refine ⟨fun impossible => (nomatch impossible), ?_⟩
      rintro ⟨rfl, sound⟩
      simp [poisoned] at sound
    | false =>
      simp only [poisoned, Bool.false_eq_true, if_false, there, Except.ok.injEq, Option.some.injEq]
      exact ⟨fun same => ⟨same, same ▸ poisoned⟩, fun ⟨same, _⟩ => same⟩

theorem named_eq_ok_iff {α : Type} {handles : Dict String α} {name : String} {item : α} :
    named handles name = .ok item ↔ handles.get? name = some item := by
  simp only [named]
  cases handles.get? name <;> simp

/-- A site that is replaced is there, and the others are as before. -/
theorem getElem?_putSite (there : s.sites[i]? = some site) :
    (s.putSite i site').sites[j]? = if j = i then some site' else s.sites[j]? := by
  have bound : i < s.sites.length := (List.getElem?_eq_some_iff.1 there).1
  by_cases same : j = i
  · subst same
    simp [putSite, bound]
  · simp [putSite, same, Ne.symm same]

end Views

variable [DecidableEq K]

/-! ## What a run yields -/

/-- What an action commits to a site, if it does and the store takes it. -/
def committed? (s : Session K V) (i : Nat) : Action K V → Option (Commit K V)
  | .commit name target =>
    match (s.commit name target).1, s.copies.get? name, s.sites[i]? with
    | .ok _, some lent, some site =>
      if lent.home = i then some ⟨site.reconciler, lent.item.draft⟩ else none
    | _, _, _ => none
  | _ => none

/-- The successful commits to a site in a run, oldest first. -/
def commits (i : Nat) : Session K V → List (Action K V) → List (Commit K V)
  | _, [] => []
  | s, action :: rest => (s.committed? i action).toList ++ commits i (s.perform action).2 rest

/-- What the actions of a run yield, one after the other. -/
def gather {α : Type} (yield : Session K V → Action K V → List α) :
    Session K V → List (Action K V) → List α
  | _, [] => []
  | s, action :: rest => yield s action ++ gather yield (s.perform action).2 rest

theorem run_concat (s : Session K V) (actions : List (Action K V)) (action : Action K V) :
    s.run (actions ++ [action]) = ((s.run actions).perform action).2 := by
  simp [Session.run]

theorem gather_concat {α : Type} (yield : Session K V → Action K V → List α) (s : Session K V)
    (actions : List (Action K V)) (action : Action K V) :
    gather yield s (actions ++ [action]) =
      gather yield s actions ++ yield (s.run actions) action := by
  induction actions generalizing s with
  | nil => simp [gather, Session.run]
  | cons first rest ih => simp [gather, ih, Session.run]

/-- The registration that a checkout at the site at `i` announces, if the action is one and it
succeeds. -/
def opening? (s : Session K V) (i : Nat) : Action K V → Option Registration
  | .checkout j name =>
    if j = i then (s.checkout j name).1.toOption.map fun (id, base) => ⟨id, base⟩ else none
  | _ => none

/-- The rosters that an action drains from the archive of the site at `i`. -/
def drained (s : Session K V) (i : Nat) : Action K V → List (Roster K)
  | .drainArchive j => if j = i then (s.drainArchive j).1.toOption.join.getD [] else []
  | _ => []

/-- An action that commits nothing, opens no copy and drains no archive. Most actions do so by
what they are, the others when they are refused. -/
structure Uneventful (s : Session K V) (action : Action K V) : Prop where
  uncommitted : ∀ i, s.committed? i action = none := by exact fun _ => rfl
  unopened : ∀ i, s.opening? i action = none := by exact fun _ => rfl
  undrained : ∀ i, s.drained i action = [] := by exact fun _ => rfl

/-! ## Effects -/

/-- A site under new keepers, or poisoned, with the store that it had. -/
inductive Refitted (s : Session K V) (action : Action K V) (i : Nat) (site : Site K V) :
    Site K V → Prop
  -- a site gets another archive only by an action that says so: a new one, or that of a site
  | handed {warden archive : Nat} (whence : archive = site.archive ∨
      (∃ policy new, action = .setKeeper i policy new ∧ archive = s.archives.length) ∨
      ∃ source giver, action = .shareKeeper i source ∧ s.sites[source]? = some giver ∧
        archive = giver.archive) :
      Refitted s action i site { site with warden := warden, archive := archive }
  -- a commit raises a fault in client code
  | poisoned {d : Draft K V} {fault : Fault}
      (raised : site.store.commit site.reconciler s.clock d = .error (.fault fault)) :
      Refitted s action i site { site with poisoned := true }

/-- What an action asks of the draft of the copy of a name, whatever a store may answer to the
draft. -/
inductive Asks : Action K V → String → Draft.Request K V → Prop
  | add {name : String} {k : K} {v : V} : Asks (.add name k v) name (.add k v)
  | replace {name : String} {k : K} {v : V} : Asks (.replace name k v) name (.replace k v)
  | remove {name : String} {k : K} : Asks (.remove name k) name (.remove k)
  | revert {name : String} : Asks (.revert name) name .revert
  | read {name : String} {k : K} {fetch : K → Except Failure (Option V)} :
      Asks (.read name k) name (.read fetch k)
  | readIndex {name : String} {i : Nat} {fetch : K → Except Failure (Option V)} :
      Asks (.readIndex name i) name (.readIndex fetch i)
  | edit {name : String} {k : K} {v : V} {fetch : K → Except Failure (Option V)} :
      Asks (.edit name k v) name (.edit fetch k v)
  | editIndex {name : String} {i : Nat} {v : V} {fetch : K → Except Failure (Option V)} :
      Asks (.editIndex name i v) name (.editIndex fetch i v)
  | step {cursor name : String} {c : Cursor} {value? : Option V}
      {fetch : K → Except Failure (Option V)} :
      Asks (.stepCursor cursor name value?) name (.step fetch c value?)
  | walk {name : String} {fetch : K → Except Failure (Option V)} :
      Asks (.walk name) name (.walk fetch)
  | update {name : String} {options : Refresh.Options} {reconciler : Reconciler V}
      {live : List K → Except Failure (List (K × V))} :
      Asks (.update name options) name (.update options reconciler live)
  | updateWithFlags {name : String} {flags : Refresh.Flags} {options : Refresh.Options}
      {reconciler : Reconciler V} {live : List K → Except Failure (List (K × V))} :
      Asks (.updateWithFlags name flags) name (.update options reconciler live)

/-- The session that is left when a copy is let go of. -/
def without (s : Session K V) (name : String) (lent : Lent (WorkingCopy K V)) : Session K V :=
  { s with copies := s.copies.erase name }.release lent

/-- An action lets go of the copy of a name. -/
inductive LetsGo : Action K V → String → Prop
  | close (name : String) (target : Option Nat) : LetsGo (.close name target) name
  | drop (name : String) : LetsGo (.drop name) name

/-- What one action does to the sites, the copies and the archives of a session. -/
inductive Effect (s : Session K V) : Action K V → Session K V → Prop
  -- snapshots, cursors, wardens and the clock are beside the point
  | aside {action : Action K V} {t : Session K V} (calm : s.Uneventful action)
      (sites : t.sites = s.sites) (archives : t.archives = s.archives)
      (copies : t.copies = s.copies) : Effect s action t
  | redrafted {action : Action K V} {t : Session K V} {name : String}
      {lent : Lent (WorkingCopy K V)} {request : Draft.Request K V} (calm : s.Uneventful action)
      (opened : s.copies.get? name = some lent) (asks : Asks action name request)
      (sites : t.sites = s.sites) (archives : t.archives = s.archives)
      (copies : t.copies = (s.putDraft name lent (lent.item.draft.after request)).copies) :
      Effect s action t
  | refitted {action : Action K V} {t : Session K V} {i : Nat} {site site' : Site K V}
      (calm : s.Uneventful action) (there : s.sites[i]? = some site)
      (refitted : s.Refitted action i site site') (sites : t.sites = (s.putSite i site').sites)
      (archives : s.archives <+: t.archives) (copies : t.copies = s.copies) : Effect s action t
  | reconciled {i : Nat} {site : Site K V} {reconciler : Reconciler V}
      (there : s.sites[i]? = some site) :
      Effect s (.setReconciler i reconciler) (s.putSite i { site with reconciler := reconciler })
  | opened {i : Nat} {name : String} {site : Site K V} {id : CheckoutId} {base : Roster K}
      {store : Store K V} (there : s.sites[i]? = some site) (free : s.copies.get? name = none)
      (made : site.store.checkout = .ok ((id, base), store))
      (announced : ∀ j, s.opening? j (.checkout i name) =
        if i = j then some ⟨id, base.revision⟩ else none) :
      Effect s (.checkout i name)
        { s.putSite i { site with store := store } with
          copies := s.copies.put name ⟨i, ⟨id, .new base⟩⟩ }
  | committed {name : String} {target : Option Nat} {lent : Lent (WorkingCopy K V)}
      {site : Site K V} {store : Store K V} (opened : s.copies.get? name = some lent)
      (there : s.sites[lent.home]? = some site)
      (succeeded : site.store.commit site.reconciler s.clock lent.item.draft = .ok store)
      (logged : ∀ i, s.committed? i (.commit name target) =
        if lent.home = i then some ⟨site.reconciler, lent.item.draft⟩ else none) :
      Effect s (.commit name target) (s.putSite lent.home { site with store := store })
  -- a copy is let go of without a pass
  | left {action : Action K V} {name : String} {lent : Lent (WorkingCopy K V)}
      (calm : s.Uneventful action) (opened : s.copies.get? name = some lent)
      (leaves : LetsGo action name) :
      Effect s action (s.without name lent)
  -- a copy is let go of, and its site is asked to run a pass
  | closed {action : Action K V} {name : String} {lent : Lent (WorkingCopy K V)}
      (calm : s.Uneventful action) (opened : s.copies.get? name = some lent)
      (leaves : LetsGo action name) :
      Effect s action ((s.without name lent).expire lent.home).2
  | passed (i : Nat) : Effect s (.expire i) (s.expire i).2
  | drained {i : Nat} {site : Site K V} (there : s.sites[i]? = some site)
      (recording : (s.keeperOf site).archive.role = .recording) :
      Effect s (.drainArchive i)
        (s.putKeeper site
          { s.keeperOf site with archive := (s.keeperOf site).archive.drain.2 })

/-! ## Parts of effects -/

namespace Refitted

variable {s : Session K V} {action : Action K V} {i : Nat} {site site' : Site K V}

theorem store (refitted : s.Refitted action i site site') : site'.store = site.store := by
  cases refitted <;> rfl

/-- Once poisoned, a site stays so. -/
theorem sane (refitted : s.Refitted action i site site') (sane : site'.poisoned = false) :
    site.poisoned = false := by
  cases refitted with
  | handed whence => exact sane
  | poisoned raised => cases sane

theorem archive (refitted : s.Refitted action i site site') :
    site'.archive = site.archive ∨
      (∃ policy new, action = .setKeeper i policy new ∧ site'.archive = s.archives.length) ∨
      ∃ source giver, action = .shareKeeper i source ∧ s.sites[source]? = some giver ∧
        site'.archive = giver.archive := by
  cases refitted with
  | handed whence => exact whence
  | poisoned raised => exact .inl rfl

end Refitted

section Parts

variable (s : Session K V) {name : String} {lent : Lent (WorkingCopy K V)} {i : Nat}

omit [DecidableEq K] in
/-- A site that can be used strikes off the copy that is let go of, and any other does not
notice. -/
theorem without_eq_or (name : String) (lent : Lent (WorkingCopy K V)) :
    (∃ site, s.usable lent.home = .ok site ∧
      s.without name lent = { s with copies := s.copies.erase name }.putSite lent.home
        { site with store := site.store.release lent.item.id }) ∨
      (∀ site, s.usable lent.home ≠ .ok site) ∧
        s.without name lent = { s with copies := s.copies.erase name } := by
  simp only [without, Session.release]
  split
  next refusal refused =>
    have refused : s.usable lent.home = .error refusal := refused
    exact .inr ⟨fun site => by simp [refused], rfl⟩
  next site usable => exact .inl ⟨site, usable, rfl⟩

/-- A site that can be used runs a pass if it is asked to, and any other does not. -/
theorem expire_eq_or (i : Nat) :
    (∃ site, s.usable i = .ok site ∧
      (s.expire i).2 = (s.putSite i
        { site with store := (site.store.expire (s.keeperOf site) s.clock).2.1 }).putKeeper site
          (site.store.expire (s.keeperOf site) s.clock).2.2) ∨
      (s.expire i).2 = s := by
  simp only [Session.expire]
  split
  next => exact .inr rfl
  next site usable => exact .inl ⟨site, usable, rfl⟩

/-- A close lets go of the copy, if there is one, and asks its site for a pass, if it goes
through this site. -/
theorem close_eq_or (name : String) (target : Option Nat) :
    (s.close name target).2 = s ∨ ∃ lent, s.copies.get? name = some lent ∧
      ((s.close name target).2 = s.without name lent ∨
        (s.close name target).2 = ((s.without name lent).expire lent.home).2) := by
  unfold Session.close
  split
  next => exact .inl rfl
  next lent opened =>
    have opened := named_eq_ok_iff.1 opened
    simp only
    split
    next => exact .inl rfl
    next =>
      split
      next => exact .inr ⟨lent, opened, .inl rfl⟩
      next home =>
        have home : target.getD lent.home = lent.home := by simpa using home
        refine .inr ⟨lent, opened, .inr ?_⟩
        rw [home]
        split
        next failed => rw [without, failed]
        next answered => rw [without, answered]

end Parts

/-! ## Actions that write no site -/

section Aside

variable {s : Session K V} {action : Action K V} {name : String}

theorem Effect.still (calm : s.Uneventful action) : s.Effect action s :=
  .aside calm rfl rfl rfl

omit [DecidableEq K] in
theorem settle_snd {α : Type} (d : Draft K V) (outcome : Except Failure (α × Draft K V)) :
    (settle d outcome).2 = d.settled outcome := by
  cases outcome <;> rfl

/-- An action that asks something of the draft of a copy has no other effect. -/
theorem onDraft_effect {α : Type} {form : α → Answer K V}
    {work : Draft K V → (K → Except Failure (Option V)) → Except Failure α × Draft K V}
    {request : (K → Except Failure (Option V)) → Draft.Request K V}
    (does : s.perform action = answered form (s.onDraft name work)) (calm : s.Uneventful action)
    (asks : ∀ fetch, Asks action name (request fetch))
    (serves : ∀ d fetch, (work d fetch).2 = d.after (request fetch)) :
    s.Effect action (s.perform action).2 := by
  rw [does]
  simp only [answered, onDraft]
  split
  next => exact .still calm
  next lent opened =>
    exact .redrafted calm (named_eq_ok_iff.1 opened) (asks _) rfl rfl (by rw [serves])

end Aside

variable (s : Session K V) {action : Action K V}

theorem update_effect {name : String} {options : Refresh.Options} (calm : s.Uneventful action)
    (asks : ∀ reconciler live, Asks action name (.update options reconciler live)) :
    s.Effect action (s.update name options).2 := by
  unfold Session.update
  split
  next => exact .still calm
  next lent opened =>
    simp only
    split
    next => split <;> exact .still calm
    next => exact .redrafted calm (named_eq_ok_iff.1 opened) (asks _ _) rfl rfl rfl

theorem updateWithFlags_effect (name : String) (flags : Refresh.Flags) :
    s.Effect (.updateWithFlags name flags) (s.updateWithFlags name flags).2 := by
  simp only [updateWithFlags]
  split
  next => exact .still {}
  next =>
    split
    next => exact .still {}
    next => exact s.update_effect {} fun _ _ => .updateWithFlags

theorem stepCursor_effect (cursor name : String) (value? : Option V) :
    s.Effect (.stepCursor cursor name value?) (s.stepCursor cursor name value?).2 := by
  simp only [stepCursor]
  split
  next => exact .still {}
  next c _ =>
    split
    next => exact .still {}
    next lent opened =>
      have asks : Asks (.stepCursor cursor name value?) name
          (.step (s.fetch lent.home lent.item.draft.revision) c value?) := .step
      exact .redrafted {} (named_eq_ok_iff.1 opened) asks rfl rfl rfl

/-! ## Actions that write a site -/

theorem checkout_effect (i : Nat) (name : String) :
    s.Effect (.checkout i name) (s.checkout i name).2 := by
  have opens (j : Nat) : s.opening? j (.checkout i name) =
      if i = j then (s.checkout i name).1.toOption.map fun (id, base) => ⟨id, base⟩
      else none := rfl
  -- `opens` goes along, so that splitting the checkout also settles what is announced
  revert opens
  simp only [Session.checkout]
  split
  next => exact fun opens => .still { unopened := by simpa [Except.toOption] using opens }
  next =>
    split
    next => exact fun opens => .still { unopened := by simpa [Except.toOption] using opens }
    next free =>
      split
      next => exact fun opens => .still { unopened := by simpa [Except.toOption] using opens }
      next site usable =>
        split
        next => exact fun opens => .still { unopened := by simpa [Except.toOption] using opens }
        next id base store made =>
          have free : s.copies.get? name = none := by simpa [Dict.contains] using free
          exact fun opens => .opened (usable_eq_ok_iff.1 usable).1 free made opens

variable {s} in
theorem committed?_of_refused {name : String} {target : Option Nat} {refusal : Refusal}
    (refused : (s.commit name target).1 = .error refusal) (i : Nat) :
    s.committed? i (.commit name target) = none := by
  simp [committed?, refused]

variable {s} in
theorem committed?_of_ok {name : String} {target : Option Nat} {r : Revision}
    {lent : Lent (WorkingCopy K V)} {site : Site K V}
    (succeeded : (s.commit name target).1 = .ok r) (opened : s.copies.get? name = some lent)
    (there : s.sites[lent.home]? = some site) (i : Nat) :
    s.committed? i (.commit name target) =
      if lent.home = i then some ⟨site.reconciler, lent.item.draft⟩ else none := by
  by_cases same : lent.home = i
  · subst same
    simp [committed?, succeeded, opened, there]
  · cases elsewhere : s.sites[i]? <;> simp [committed?, succeeded, opened, same, elsewhere]

theorem commit_effect (name : String) (target : Option Nat) :
    s.Effect (.commit name target) (s.commit name target).2 := by
  have refused (refusal : Refusal) (failed : (s.commit name target).1 = .error refusal) :
      s.Uneventful (.commit name target) := { uncommitted := committed?_of_refused failed }
  have logged (r : Revision) {lent : Lent (WorkingCopy K V)} {site : Site K V} :=
    @committed?_of_ok _ _ _ s name target r lent site
  -- both go along, so that splitting the commit also settles what is logged
  revert refused logged
  unfold Session.commit
  split
  next => exact fun refused _ => .still (refused _ rfl)
  next lent opened =>
    simp only
    split
    next => exact fun refused _ => .still (refused _ rfl)
    next site there =>
      split
      next => exact fun refused _ => .still (refused _ rfl)
      next home =>
        split
        next => exact fun refused _ => .still (refused _ rfl)
        next =>
          have home : target.getD lent.home = lent.home := by simpa using home
          rw [home] at there
          have opened := named_eq_ok_iff.1 opened
          have there := site_eq_ok_iff.1 there
          rw [home]
          split
          next store succeeded =>
            exact fun _ logged => .committed opened there succeeded (logged _ rfl opened there)
          next => exact fun refused _ => .still (refused _ rfl)
          next raised =>
            exact fun refused _ => .refitted (refused _ rfl) there (.poisoned raised) rfl
              (List.prefix_refl _) rfl

theorem drop_effect (name : String) (calm : s.Uneventful (.drop name)) :
    s.Effect (.drop name) (s.drop name).2 := by
  simp only [Session.drop]
  split
  next => exact .still calm
  next lent opened => exact .left calm (named_eq_ok_iff.1 opened) (.drop name)

theorem close_effect (name : String) (target : Option Nat)
    (calm : s.Uneventful (.close name target)) :
    s.Effect (.close name target) (s.close name target).2 := by
  obtain same | ⟨lent, opened, left | closed⟩ := s.close_eq_or name target
  · rw [same]
    exact .still calm
  · rw [left]
    exact .left calm opened (.close name target)
  · rw [closed]
    exact .closed calm opened (.close name target)

theorem setReconciler_effect (i : Nat) (reconciler : Reconciler V) :
    s.Effect (.setReconciler i reconciler) (s.setReconciler i reconciler).2 := by
  simp only [setReconciler]
  split
  next => exact .still {}
  next usable => exact .reconciled (usable_eq_ok_iff.1 usable).1

theorem setPolicy_effect (i : Nat) (policy : Retention.Policy K) (calm : s.Uneventful action) :
    s.Effect action (s.setPolicy i policy).2 := by
  simp only [setPolicy]
  split
  next => exact .still calm
  next usable =>
    exact .refitted calm (usable_eq_ok_iff.1 usable).1 (.handed (.inl rfl)) rfl
      (List.prefix_refl _) rfl

theorem setKeeper_effect (i : Nat) (policy : Retention.Policy K)
    (archive : Retention.Archive K V) :
    s.Effect (.setKeeper i policy archive) (s.setKeeper i policy archive).2 := by
  simp only [setKeeper]
  split
  next => exact .still {}
  next usable =>
    exact .refitted {} (usable_eq_ok_iff.1 usable).1 (.handed (.inr (.inl ⟨_, _, rfl, rfl⟩))) rfl
      (List.prefix_append _ _) rfl

theorem shareKeeper_effect (i source : Nat) :
    s.Effect (.shareKeeper i source) (s.shareKeeper i source).2 := by
  simp only [shareKeeper]
  split
  next => exact .still {}
  next =>
    split
    next => exact .still {}
    next giver giving =>
      split
      next => exact .still {}
      next usable =>
        have giving := (usable_eq_ok_iff.1 giving).1
        exact .refitted {} (usable_eq_ok_iff.1 usable).1
          (.handed (.inr (.inr ⟨_, giver, rfl, giving, rfl⟩))) rfl (List.prefix_refl _) rfl

theorem drainArchive_effect (i : Nat) : s.Effect (.drainArchive i) (s.drainArchive i).2 := by
  have drains (j : Nat) : s.drained j (.drainArchive i) =
      if i = j then (s.drainArchive i).1.toOption.join.getD [] else [] := rfl
  revert drains
  unfold drainArchive
  split
  next => exact fun drains => .still { undrained := by simpa [Except.toOption] using drains }
  next site there =>
    simp only
    split
    next recording => exact fun _ => .drained (site_eq_ok_iff.1 there) recording
    next => exact fun drains => .still { undrained := by simpa [Except.toOption] using drains }

/-- What an action does to the sites, the copies and the archives of a session. -/
theorem perform_effect (action : Action K V) : s.Effect action (s.perform action).2 := by
  cases action with
  | checkout i name => exact s.checkout_effect i name
  | commit name target => exact s.commit_effect name target
  | close name target => exact s.close_effect name target {}
  | drop name => exact s.drop_effect name {}
  | expire i => exact .passed i
  | setReconciler i reconciler => exact s.setReconciler_effect i reconciler
  | setPolicy i policy => exact s.setPolicy_effect i policy {}
  | setKeeper i policy archive => exact s.setKeeper_effect i policy archive
  | shareKeeper i source => exact s.shareKeeper_effect i source
  | drainArchive i => exact s.drainArchive_effect i
  | update name options => exact s.update_effect {} fun _ _ => .update
  | updateWithFlags name flags => exact s.updateWithFlags_effect name flags
  | stepCursor cursor name value? => exact s.stepCursor_effect cursor name value?
  | read name k => exact onDraft_effect rfl {} (fun _ => .read) fun _ _ => settle_snd _ _
  | readIndex name i => exact onDraft_effect rfl {} (fun _ => .readIndex) fun _ _ => settle_snd _ _
  | edit name k v => exact onDraft_effect rfl {} (fun _ => .edit) fun _ _ => settle_snd _ _
  | editIndex name i v =>
    exact onDraft_effect rfl {} (fun _ => .editIndex) fun _ _ => settle_snd _ _
  | add name k v => exact onDraft_effect rfl {} (fun _ => .add) fun _ _ => rfl
  | replace name k v =>
    refine onDraft_effect rfl {} (fun _ => .replace) fun d _ => ?_
    cases replaced : d.replace k v <;> simp [Draft.after, replaced, Except.toOption]
  | remove name k =>
    refine onDraft_effect rfl {} (fun _ => .remove) fun d _ => ?_
    cases removed : d.remove k <;> simp [Draft.after, removed, Draft.settled]
  | revert name => exact onDraft_effect rfl {} (fun _ => .revert) fun _ _ => rfl
  | walk name => exact onDraft_effect rfl {} (fun _ => .walk) fun _ _ => rfl
  | makeCursor | cloneCursor | takeSnapshot | readSnapshot | closeSnapshot =>
    simp only [perform, answered, makeCursor, cloneCursor, takeSnapshot, readSnapshot,
      closeSnapshot]
    repeat' split
    all_goals exact .aside {} rfl rfl rfl
  | _ => exact .aside {} rfl rfl rfl

end Session

end RevisionStore
