import RevisionStore.Proofs.Session.Course

/-!
# The register of a site

A site registers a copy when it is checked out and strikes it off when it is let go of, be it
closed, closed through another site or dropped. `Session.openings` are the registrations that a
run has made at a site, in order of checkout. `Site.Registers` says of a register that it lists
those of them whose copies are open, and no others; every action preserves this
(`Registers.effect`), so the register of a site is exact after every run
(`run_registers_open_copies`).

A poisoned site is the exception: it does not notice who leaves.
-/

namespace RevisionStore

variable {K V : Type}

/-- What a store registers of a copy. -/
def WorkingCopy.registration (c : WorkingCopy K V) : Registration :=
  ⟨c.id, c.draft.revision⟩

/-- The register of a site, which is the one at `i`, lists nothing but open copies, in the order
in which `made` was registered. -/
structure Site.Registers (site : Site K V) (i : Nat)
    (copies : Dict String (Lent (WorkingCopy K V))) (made : List Registration) : Prop where
  ordered : site.store.active.Sublist made
  -- numbers are counted up from 1
  numbers : made.map (·.id.number) = List.range' 1 made.length
  next : site.store.nextCheckout = made.length + 1
  -- what is registered is open, unless the site is poisoned
  opened : site.poisoned = false → ∀ registration ∈ site.store.active, ∃ name lent,
    copies.get? name = some lent ∧ lent.home = i ∧ lent.item.registration = registration

namespace Site.Registers

variable {site site' : Site K V} {i : Nat} {copies copies' : Dict String (Lent (WorkingCopy K V))}
  {made : List Registration}

/-- A register stays exact if it stays the same and the copies that it lists stay open. -/
theorem of_same (registers : site.Registers i copies made)
    (active : site'.store.active = site.store.active)
    (next : site'.store.nextCheckout = site.store.nextCheckout)
    (poisoned : site'.poisoned = false → site.poisoned = false)
    (stays : ∀ name lent, copies.get? name = some lent → lent.home = i →
      ∃ lent', copies'.get? name = some lent' ∧ lent'.home = lent.home ∧
        lent'.item.registration = lent.item.registration) :
    site'.Registers i copies' made where
  ordered := active ▸ registers.ordered
  numbers := registers.numbers
  next := next.trans registers.next
  opened sane registration member := by
    rw [active] at member
    obtain ⟨name, lent, opened, home, same⟩ := registers.opened (poisoned sane) registration member
    obtain ⟨lent', opened', home', same'⟩ := stays name lent opened home
    exact ⟨name, lent', opened', home'.trans home, same'.trans same⟩

/-- A checkout under a free name registers the copy that it opens. -/
theorem checkout {store : Store K V} {name : String} {id : CheckoutId} {base : Roster K}
    (registers : site.Registers i copies made) (free : copies.get? name = none)
    (checked : site.store.checkout = .ok ((id, base), store)) :
    { site with store := store }.Registers i (copies.put name ⟨i, ⟨id, .new base⟩⟩)
      (made ++ [(⟨id, base.revision⟩ : Registration)]) := by
  obtain ⟨_, rfl, rfl⟩ := Store.checkout_eq_ok_iff.1 checked
  refine ⟨registers.ordered.append (.refl _), ?_, ?_, fun sane registration member => ?_⟩
  · simp [registers.numbers, registers.next, List.range'_concat, Nat.add_comm]
  · simp [registers.next]
  · obtain old | new := List.mem_append.1 member
    · obtain ⟨name', lent, opened, rest⟩ := registers.opened sane registration old
      have other : name' ≠ name := by
        rintro rfl
        rw [free] at opened
        cases opened
      exact ⟨name', lent, by rw [Dict.get?_put_of_ne _ _ other, opened], rest⟩
    · rw [List.mem_singleton.1 new]
      exact ⟨name, _, Dict.get?_put_self _ _ _, rfl, rfl⟩

/-- A site that strikes off a copy of its own lists those that stay open. -/
theorem release {name : String} {lent : Lent (WorkingCopy K V)}
    (registers : site.Registers i copies made) (opened : copies.get? name = some lent) :
    { site with store := site.store.release lent.item.id }.Registers i (copies.erase name)
      made where
  ordered := List.filter_sublist.trans registers.ordered
  numbers := registers.numbers
  next := registers.next
  opened sane registration member := by
    obtain ⟨member, other⟩ := List.mem_filter.1 member
    obtain ⟨name', lent', opened', home, same⟩ := registers.opened sane registration member
    have apart : name' ≠ name := by
      rintro rfl
      obtain rfl := Option.some.inj (opened.symm.trans opened')
      simp [← same, WorkingCopy.registration] at other
    exact ⟨name', lent', by rw [Dict.get?_erase_of_ne _ apart, opened'], home, same⟩

end Site.Registers

variable [DecidableEq K]

namespace Lent.Continues

theorem registration {lent lent' : Lent (WorkingCopy K V)} (continues : lent.Continues lent') :
    lent'.item.registration = lent.item.registration := by
  simp only [WorkingCopy.registration, Draft.revision, continues.id, continues.evolves.base]

end Lent.Continues

namespace Session

variable {s t : Session K V} {i j : Nat} {made : List Registration} {action : Action K V}
  {name : String} {lent : Lent (WorkingCopy K V)}

omit [DecidableEq K] in
/-- The register of the site at `i` is exact. -/
def Registers (s : Session K V) (i : Nat) (made : List Registration) : Prop :=
  ∀ site, s.sites[i]? = some site → site.Registers i s.copies made

/-- The registrations that the checkouts of a run have made at a site. -/
def openings (i : Nat) : Session K V → List (Action K V) → List Registration :=
  gather fun s action => (s.opening? i action).toList

namespace Registers

omit [DecidableEq K] in
theorem without (registers : s.Registers i made) (opened : s.copies.get? name = some lent) :
    (s.without name lent).Registers i made := by
  intro site' there'
  -- a copy of another site is not among those that the site at `i` lists
  have stays (foreign : lent.home ≠ i) : ∀ name' lent', s.copies.get? name' = some lent' →
      lent'.home = i → ∃ lent'', (s.copies.erase name).get? name' = some lent'' ∧
        lent''.home = lent'.home ∧ lent''.item.registration = lent'.item.registration := by
    intro name' lent' opened' home'
    have other : name' ≠ name := by
      rintro rfl
      obtain rfl := Option.some.inj (opened.symm.trans opened')
      exact foreign home'
    exact ⟨lent', by rw [Dict.get?_erase_of_ne _ other, opened'], rfl, rfl⟩
  obtain ⟨site, usable, left⟩ | ⟨unusable, left⟩ := s.without_eq_or name lent
  · obtain ⟨there, _⟩ := usable_eq_ok_iff.1 usable
    rw [left] at there' ⊢
    have there : { s with copies := s.copies.erase name }.sites[lent.home]? = some site := there
    rw [getElem?_putSite there] at there'
    split at there'
    next same =>
      obtain rfl := Option.some.inj there'
      subst same
      exact (registers site there).release opened
    next other =>
      exact (registers site' there').of_same rfl rfl id (stays (Ne.symm other))
  · rw [left] at there' ⊢
    by_cases foreign : lent.home = i
    · -- the home of the copy is poisoned
      subst foreign
      obtain ⟨ordered, numbers, next, _⟩ := registers site' there'
      refine ⟨ordered, numbers, next, fun sane => ?_⟩
      exact absurd (usable_eq_ok_iff.2 ⟨there', sane⟩) (unusable site')
    · exact (registers site' there').of_same rfl rfl id (stays foreign)

theorem expire (registers : s.Registers i made) (j : Nat) : (s.expire j).2.Registers i made := by
  obtain ⟨site, usable, passed⟩ | same := s.expire_eq_or j
  · obtain ⟨there, _⟩ := usable_eq_ok_iff.1 usable
    intro site' there'
    rw [passed] at there' ⊢
    change (s.putSite j _).sites[i]? = _ at there'
    change site'.Registers i s.copies made
    rw [getElem?_putSite there] at there'
    split at there'
    next same =>
      subst same
      obtain rfl := Option.some.inj there'
      refine (registers site there).of_same ?_ ?_ id
        fun name lent opened _ => ⟨lent, opened, rfl, rfl⟩
      all_goals
        obtain same | ⟨expires, swept⟩ := site.store.expire_store (s.keeperOf site) s.clock
        · simp only [same]
        · simp only [swept]; rfl
    next => exact registers site' there'
  · rw [same]
    exact registers

omit [DecidableEq K] in
theorem refit {site site' : Site K V} (registers : s.Registers i made)
    (there : s.sites[j]? = some site) (sites : t.sites = (s.putSite j site').sites)
    (copies : t.copies = s.copies) (store : site'.store = site.store)
    (sane : site'.poisoned = false → site.poisoned = false) : t.Registers i made := by
  intro found there'
  rw [sites, getElem?_putSite there] at there'
  rw [copies]
  split at there'
  next here =>
    subst here
    obtain rfl := Option.some.inj there'
    exact (registers site there).of_same (by rw [store]) (by rw [store]) sane
      fun name lent opened _ => ⟨lent, opened, rfl, rfl⟩
  next => exact registers found there'

omit [DecidableEq K] in
theorem of_silent {fresh? : Option Registration} (silent : fresh? = none)
    (registers : s.Registers i made) : s.Registers i (made ++ fresh?.toList) := by
  simpa [silent] using registers

/-- Every action leaves the register of a site exact, for the registrations with the one that
it makes. -/
theorem effect (registers : s.Registers i made) (effect : s.Effect action t) :
    t.Registers i (made ++ (s.opening? i action).toList) := by
  have same (name : String) (lent : Lent (WorkingCopy K V))
      (opened : s.copies.get? name = some lent) (_ : lent.home = i) :
      ∃ lent', s.copies.get? name = some lent' ∧ lent'.home = lent.home ∧
        lent'.item.registration = lent.item.registration := ⟨lent, opened, rfl, rfl⟩
  cases effect with
  | aside calm sites archives copies =>
    refine .of_silent (calm.unopened i) fun site there => ?_
    exact copies ▸ registers site (sites ▸ there)
  | @redrafted _ _ name lent request calm opened asks sites archives copies =>
    refine .of_silent (calm.unopened i) fun site there => ?_
    refine (registers site (sites ▸ there)).of_same rfl rfl id fun name' lent' opened' _ => ?_
    rw [copies, putDraft, Dict.get?_put]
    split
    next here =>
      obtain rfl := Option.some.inj (opened.symm.trans (here ▸ opened'))
      have continues : lent.Continues
          { lent with item := { lent.item with draft := lent.item.draft.after request } } :=
        ⟨rfl, rfl, Draft.evolves_after request⟩
      exact ⟨_, rfl, continues.home, continues.registration⟩
    next => exact ⟨lent', opened', rfl, rfl⟩
  | refitted calm there refitted sites archives copies =>
    exact .of_silent (calm.unopened i)
      (registers.refit there sites copies refitted.store refitted.sane)
  | reconciled there => exact .of_silent rfl (registers.refit there rfl rfl rfl id)
  | @opened j name site id base store there free checked announced =>
    intro site' there'
    change (s.putSite j { site with store := store }).sites[i]? = some site' at there'
    rw [getElem?_putSite there] at there'
    rw [announced]
    split at there'
    next here =>
      subst here
      obtain rfl := Option.some.inj there'
      rw [if_pos rfl]
      exact (registers site there).checkout free checked
    next other =>
      rw [if_neg (Ne.symm other), Option.toList_none, List.append_nil]
      refine (registers site' there').of_same rfl rfl (fun sane => sane)
        fun name' lent' opened' _ => ?_
      have apart : name' ≠ name := by
        rintro rfl
        rw [free] at opened'
        cases opened'
      exact ⟨lent', by simp [Dict.get?_put_of_ne _ _ apart, opened'], rfl, rfl⟩
  | @committed name target lent site store opened there succeeded logged =>
    refine .of_silent rfl fun site' there' => ?_
    rw [getElem?_putSite there] at there'
    split at there'
    next here =>
      subst here
      obtain rfl := Option.some.inj there'
      obtain ⟨p, _, rfl⟩ := Store.commit_eq_ok_iff.1 succeeded
      exact (registers site there).of_same rfl rfl id same
    next => exact registers site' there'
  | left calm opened => exact .of_silent (calm.unopened i) (registers.without opened)
  | closed calm opened =>
    exact .of_silent (calm.unopened i) ((registers.without opened).expire _)
  | passed j => exact .of_silent rfl (registers.expire j)
  | drained there recording => exact .of_silent rfl registers

/-- Every run leaves the register of a site exact, for the registrations with those that it
makes. -/
theorem run (registers : s.Registers i made) (actions : List (Action K V)) :
    (s.run actions).Registers i (made ++ openings i s actions) := by
  induction actions generalizing s made with
  | nil => simpa [openings, gather, Session.run] using registers
  | cons action rest ih =>
    simpa [openings, gather, Session.run] using ih (registers.effect (s.perform_effect action))

omit [DecidableEq K] in
theorem start (specs : List (SiteSpec K V)) (clock : Nat) :
    (Session.start specs clock).Registers i [] := by
  intro site there
  simp only [Session.start, List.getElem?_map, Option.map_eq_some_iff] at there
  obtain ⟨⟨spec, j⟩, _, rfl⟩ := there
  exact ⟨.refl _, rfl, rfl, fun _ _ member => by cases member⟩

end Registers

/-- A close through another site strikes the copy off the register of its own, and that is
all it does. -/
theorem perform_foreign_close {site other : Site K V} (opened : s.copies.get? name = some lent)
    (usable : s.usable lent.home = .ok site) (there : s.sites[j]? = some other)
    (foreign : j ≠ lent.home) :
    s.perform (.close name (some j)) = (.error (.failed (.rule .foreignCopy)),
      { s with
        copies := s.copies.erase name
        sites := s.sites.set lent.home
          { site with store := site.store.release lent.item.id } }) := by
  have opened : named s.copies name = .ok lent := named_eq_ok_iff.2 opened
  have there : s.site j = .ok other := site_eq_ok_iff.2 there
  have usable : { s with copies := s.copies.erase name }.usable lent.home = .ok site := usable
  simp [perform, answered, Session.close, opened, there, foreign, Session.release, usable, putSite,
    Except.map]

/-! ## Runs -/

/-- After a run of a fresh session a site that can be used answers with its register, and this
lists the copies that were checked out of the site and are open still, and nothing else: each of
them under the number that it was given and with its own base, in the order in which they were
checked out. The numbers that a site gives out are 1, 2 and so on, so none is given out twice,
and no two open copies have one registration in common.

A close through another site fails. It lets go of the copy and strikes it off the register of
its own site, and leaves all else as it was, so that no site has run a pass. -/
theorem run_registers_open_copies (specs : List (SiteSpec K V)) (clock : Nat)
    (actions : List (Action K V)) {site : Site K V}
    (usable : ((start specs clock).run actions).usable i = .ok site) :
    let s := (start specs clock).run actions
    let made := openings i (start specs clock) actions
    (s.perform (.active i)).1 = .ok (.registrations site.store.active) ∧
      (∀ registration, registration ∈ site.store.active ↔ ∃ name lent,
        s.copies.get? name = some lent ∧ lent.home = i ∧
          lent.item.registration = registration) ∧
      (∀ name name' lent lent', s.copies.get? name = some lent →
        s.copies.get? name' = some lent' → lent.home = i → lent'.home = i →
          lent.item.id = lent'.item.id → name = name') ∧
      site.store.active.Sublist made ∧
      made.map (·.id.number) = List.range' 1 made.length ∧
      ∀ name lent j, s.copies.get? name = some lent → lent.home = i → j ≠ i →
        j < s.sites.length →
          s.perform (.close name (some j)) = (.error (.failed (.rule .foreignCopy)),
            { s with
              copies := s.copies.erase name
              sites := s.sites.set i { site with store := { site.store with
                active := site.store.active.filter (·.id ≠ lent.item.id) } } }) := by
  intro s made
  have sound : s.Sound _ := sound_run specs clock actions
  have registers : s.Registers i made := by
    simpa using (Registers.start (i := i) specs clock).run actions
  obtain ⟨there, sane⟩ := usable_eq_ok_iff.1 usable
  obtain ⟨ordered, numbers, _, listed⟩ := registers site there
  refine ⟨?_, fun registration => ⟨listed sane registration, ?_⟩, ?_, ordered, numbers, ?_⟩
  · have usable : s.usable i = .ok site := usable
    simp [perform, told, ask, usable, Except.mapError, Except.map]
  · rintro ⟨name, lent, opened, rfl, rfl⟩
    exact (sound.registered opened there).registered
  · intro name name' lent lent' opened opened' home home'
    exact sound.apart name name' lent lent' opened opened' (home.trans home'.symm)
  · rintro name lent j opened rfl foreign located
    have other : s.sites[j]? = some s.sites[j] := List.getElem?_eq_getElem located
    exact perform_foreign_close opened usable other foreign

/-- Of three copies of the first of two sites, one is closed through the second site and one is
dropped; the number of neither is given out again. -/
def foreignActions : List (Action Nat Nat) :=
  [.checkout 0 "a", .checkout 1 "b", .checkout 0 "c", .add "c" 1 5, .commit "c" none,
    .close "a" (some 1), .drop "c", .checkout 0 "d"]

def foreign : Session Nat Nat :=
  (start (trialSpecs .earliestPrior ++ trialSpecs .latestPrior) 0).run foreignActions

/-- The last copy is registered alone, as the third one of its site and at its base. -/
theorem run_registers_open_copies_foreign : ∃ site, foreign.usable 0 = .ok site ∧
    (foreign.perform (.active 0)).1 = .ok (.registrations [⟨⟨3⟩, 1⟩]) ∧
      (foreign.perform (.close "d" (some 1))).1 = .error (.failed (.rule .foreignCopy)) := by
  obtain ⟨site, usable⟩ : ∃ site, foreign.usable 0 = .ok site := ⟨_, rfl⟩
  obtain ⟨answer, _, _, _, _, close⟩ := run_registers_open_copies
    (trialSpecs .earliestPrior ++ trialSpecs .latestPrior) 0 foreignActions usable
  have active : (foreign.sites[0]?.map (·.store.active)) = some [⟨⟨3⟩, 1⟩] := by decide
  obtain ⟨lent, opened⟩ : ∃ lent, foreign.copies.get? "d" = some lent :=
    Option.isSome_iff_exists.1 (by decide)
  have home : (foreign.copies.get? "d").map (·.home) = some 0 := by decide
  rw [(usable_eq_ok_iff.1 usable).1] at active
  rw [opened] at home
  simp only [Option.map_some, Option.some.injEq] at active home
  refine ⟨site, usable, active ▸ answer, ?_⟩
  exact congrArg Prod.fst (close "d" lent 1 opened home (by decide) (by decide))

end Session

end RevisionStore
