import RevisionStore.Proofs.Draft.Fetching
import RevisionStore.Proofs.Session.Sound
import RevisionStore.Proofs.Store.Twins

/-!
# Twin sessions

`t.Mirrors s` relates a session `t` in which no pass does anything to a session `s` in which
passes do what they like: site by site the stores mirror each other, and copies, cursors and
the clock are the same. Snapshots, archives and the wardens of `s` are left out. `Twins` adds
that both sessions are sound for the same logs. Every operation takes twins to sessions that
mirror each other, and all but a few give the same answer (`Matches`).
-/

namespace RevisionStore

open Retention (Policy Archive Keeper Warden)

variable {K V : Type}

/-- Two sites with the same reconciler, both poisoned or neither, whose stores mirror each other. -/
structure Site.Mirrors (t s : Site K V) : Prop where
  store : t.store.Mirrors s.store
  reconciler : t.reconciler = s.reconciler
  poisoned : t.poisoned = s.poisoned

namespace Session

/-- The warden of a site never runs a pass. -/
def Idle (s : Session K V) (site : Site K V) : Prop :=
  ∃ warden, s.wardens[site.warden]? = some warden ∧ warden.policy = .never

/-- `t` is `s` without what passes have done, and none of its wardens runs a pass. -/
structure Mirrors (t s : Session K V) : Prop where
  clock : t.clock = s.clock
  copies : t.copies = s.copies
  cursors : t.cursors = s.cursors
  sites : ∀ i : Nat, Option.Rel Site.Mirrors t.sites[i]? s.sites[i]?
  idle : ∀ (i : Nat) (site : Site K V), t.sites[i]? = some site → Idle t site

/-- A session that mirrors another one and is sound for the same logs. -/
structure Twins [DecidableEq K] (t s : Session K V) (logs : Nat → List (Commit K V)) : Prop where
  mirrors : t.Mirrors s
  whole : t.Sound logs
  pruned : s.Sound logs

/-- Two operations give the same answer and leave sessions that mirror each other. -/
structure Matches {α : Type} (x y : Except Refusal α × Session K V) : Prop where
  answer : x.1 = y.1
  after : x.2.Mirrors y.2

variable {s t : Session K V} {logs : Nat → List (Commit K V)} {i : Nat}

theorem Matches.answered {α : Type} {x y : Except Refusal α × Session K V} (same : Matches x y)
    (form : α → Answer K V) : Matches (Session.answered form x) (Session.answered form y) :=
  ⟨congrArg (Except.map form) same.answer, same.after⟩

namespace Mirrors

/-! ## Sites of sessions that mirror each other -/

/-- A site is there in both sessions or in neither. -/
theorem site (mirrors : t.Mirrors s) (i : Nat) :
    (∃ refusal, t.site i = .error refusal ∧ s.site i = .error refusal) ∨
      ∃ site' site, t.site i = .ok site' ∧ s.site i = .ok site ∧
        t.sites[i]? = some site' ∧ s.sites[i]? = some site ∧ site'.Mirrors site := by
  have related := mirrors.sites i
  simp only [Session.site]
  generalize t.sites[i]? = there' at related ⊢
  generalize s.sites[i]? = there at related ⊢
  cases related with
  | none => exact .inl ⟨_, rfl, rfl⟩
  | some same => exact .inr ⟨_, _, rfl, rfl, rfl, rfl, same⟩

/-- A site can be used in both sessions or in neither. -/
theorem usable (mirrors : t.Mirrors s) (i : Nat) :
    (∃ refusal, t.usable i = .error refusal ∧ s.usable i = .error refusal) ∨
      ∃ site' site, t.usable i = .ok site' ∧ s.usable i = .ok site ∧
        t.sites[i]? = some site' ∧ s.sites[i]? = some site ∧ site'.Mirrors site := by
  simp only [Session.usable]
  obtain ⟨refusal, missing', missing⟩ | ⟨site', site, found', found, there', there, same⟩ :=
    mirrors.site i
  · simp only [missing', missing]
    exact .inl ⟨_, rfl, rfl⟩
  · simp only [found', found, same.poisoned]
    cases site.poisoned with
    | true => exact .inl ⟨_, rfl, rfl⟩
    | false => exact .inr ⟨site', site, rfl, rfl, there', there, same⟩

theorem putSite (mirrors : t.Mirrors s) {site site' new new' : Site K V}
    (there' : t.sites[i]? = some site') (there : s.sites[i]? = some site)
    (same : new'.Mirrors new) (idle : t.Idle new') :
    (t.putSite i new').Mirrors (s.putSite i new) :=
  { mirrors with
    sites := fun j => by
      rw [getElem?_putSite there', getElem?_putSite there]
      split
      next => exact .some same
      next => exact mirrors.sites j
    idle := fun j found there => by
      rw [getElem?_putSite there'] at there
      split at there
      next => exact Option.some.inj there ▸ idle
      next => exact mirrors.idle j found there }

/-- The keepers of `s` do not count. -/
theorem keepers (mirrors : t.Mirrors s) (wardens : List (Warden K))
    (archives : List (Archive K V)) :
    t.Mirrors { s with wardens := wardens, archives := archives } :=
  { mirrors with }

/-- Replacing the keeper of a site by one that runs no pass leaves all wardens idle. -/
theorem putKeeper (mirrors : t.Mirrors s) (site' : Site K V) (keeper' : Keeper K V)
    (never : keeper'.warden.policy = .never) : (t.putKeeper site' keeper').Mirrors s :=
  { mirrors with
    idle := fun j found there => by
      obtain ⟨warden, posted, idle⟩ := mirrors.idle j found there
      by_cases same : site'.warden = found.warden
      · have bound : found.warden < t.wardens.length := (List.getElem?_eq_some_iff.1 posted).1
        exact ⟨keeper'.warden, by simp [Session.putKeeper, same, bound], never⟩
      · exact ⟨warden, by simp [Session.putKeeper, same, posted], idle⟩ }

/-- Another warden may come in if it runs no pass. -/
theorem hire (mirrors : t.Mirrors s) (archives : List (Archive K V)) :
    Mirrors { t with wardens := t.wardens ++ [.new .never], archives := archives } s :=
  { mirrors with
    idle := fun j found there => by
      obtain ⟨warden, posted, idle⟩ := mirrors.idle j found there
      have bound : found.warden < t.wardens.length := (List.getElem?_eq_some_iff.1 posted).1
      exact ⟨warden, by simpa [List.getElem?_append_left bound] using posted, idle⟩ }

/-- The keeper of a site in a session that mirrors another one runs no pass. -/
theorem keeperOf_never (mirrors : t.Mirrors s) {site' : Site K V}
    (there' : t.sites[i]? = some site') :
    (t.keeperOf site').warden.policy = .never := by
  obtain ⟨warden, posted, never⟩ := mirrors.idle i site' there'
  simpa [Session.keeperOf, List.getD, posted] using never

theorem erase (mirrors : t.Mirrors s) (name : String) :
    Mirrors { t with copies := t.copies.erase name } { s with copies := s.copies.erase name } :=
  { mirrors with copies := by simp only [mirrors.copies] }

theorem putCopy (mirrors : t.Mirrors s) (name : String) (lent : Lent (WorkingCopy K V)) :
    Mirrors { t with copies := t.copies.put name lent }
      { s with copies := s.copies.put name lent } :=
  { mirrors with copies := by simp only [mirrors.copies] }

theorem putCursor (mirrors : t.Mirrors s) (name : String) (c : Cursor) :
    Mirrors { t with cursors := t.cursors.put name c } { s with cursors := s.cursors.put name c } :=
  { mirrors with cursors := by simp only [mirrors.cursors] }

/-! ## Operations on sites and their keepers -/

theorem setReconciler (mirrors : t.Mirrors s) (i : Nat) (reconciler : Reconciler V) :
    Matches (t.setReconciler i reconciler) (s.setReconciler i reconciler) := by
  simp only [Session.setReconciler]
  obtain ⟨refusal, refused', refused⟩ | ⟨site', site, usable', usable, there', there, same⟩ :=
    mirrors.usable i
  · simp only [refused', refused]
    exact ⟨rfl, mirrors⟩
  · simp only [usable', usable]
    exact ⟨rfl, mirrors.putSite there' there
      ⟨same.store, rfl, same.poisoned⟩ (mirrors.idle i site' there')⟩

/-- A site may get a new warden of its own, if that runs no pass. -/
theorem rehire (mirrors : t.Mirrors s) {site site' new new' : Site K V}
    (there' : t.sites[i]? = some site') (there : s.sites[i]? = some site) (same : new'.Mirrors new)
    (posted : new'.warden = t.wardens.length) (archives' archives : List (Archive K V))
    (wardens : List (Warden K)) :
    Mirrors
      { t.putSite i new' with wardens := t.wardens ++ [.new .never], archives := archives' }
      { s.putSite i new with wardens := wardens, archives := archives } :=
  have idle : Idle { t with wardens := t.wardens ++ [.new .never], archives := archives' } new' :=
    ⟨.new .never, by simp [posted], rfl⟩
  ((mirrors.hire archives').putSite there' there same idle).keepers wardens archives

theorem setPolicy (mirrors : t.Mirrors s) (i : Nat) (policy : Policy K) :
    Matches (t.setPolicy i .never) (s.setPolicy i policy) := by
  simp only [Session.setPolicy]
  obtain ⟨refusal, refused', refused⟩ | ⟨site', site, usable', usable, there', there, same⟩ :=
    mirrors.usable i
  · simp only [refused', refused]
    exact ⟨rfl, mirrors⟩
  · simp only [usable', usable]
    have moved : Site.Mirrors { site' with warden := t.wardens.length }
        { site with warden := s.wardens.length } :=
      ⟨same.store, same.reconciler, same.poisoned⟩
    exact ⟨rfl, mirrors.rehire there' there moved rfl _ _ _⟩

theorem setKeeper (mirrors : t.Mirrors s) (i : Nat) (policy : Policy K) (archive : Archive K V) :
    Matches (t.setKeeper i .never archive) (s.setKeeper i policy archive) := by
  simp only [Session.setKeeper]
  obtain ⟨refusal, refused', refused⟩ | ⟨site', site, usable', usable, there', there, same⟩ :=
    mirrors.usable i
  · simp only [refused', refused]
    exact ⟨rfl, mirrors⟩
  · simp only [usable', usable]
    have moved : Site.Mirrors
        { site' with warden := t.wardens.length, archive := t.archives.length }
        { site with warden := s.wardens.length, archive := s.archives.length } :=
      ⟨same.store, same.reconciler, same.poisoned⟩
    exact ⟨rfl, mirrors.rehire there' there moved rfl _ _ _⟩

theorem shareKeeper (mirrors : t.Mirrors s) (i source : Nat) :
    (t.shareKeeper i source).2.Mirrors (s.shareKeeper i source).2 := by
  simp only [Session.shareKeeper]
  obtain ⟨refusal, missing', missing⟩ | ⟨_, _, found', found, _⟩ := mirrors.site i
  · simp only [missing', missing]
    exact mirrors
  · simp only [found', found]
    obtain ⟨refusal, refused', refused⟩ | ⟨giver', giver, giving', giving, lends, _⟩ :=
      mirrors.usable source
    · simp only [refused', refused]
      exact mirrors
    · simp only [giving', giving]
      obtain ⟨refusal, refused', refused⟩ | ⟨site', site, usable', usable, there', there, same⟩ :=
        mirrors.usable i
      · simp only [refused', refused]
        exact mirrors
      · simp only [usable', usable]
        -- the keeper comes from a site whose warden is idle already
        exact mirrors.putSite there' there
          ⟨same.store, same.reconciler, same.poisoned⟩
          (mirrors.idle source giver' lends)

theorem drainArchive (mirrors : t.Mirrors s) (i : Nat) :
    (t.drainArchive i).2.Mirrors (s.drainArchive i).2 := by
  -- archives do not count, so the two sides can be drained one after the other
  have whole : (t.drainArchive i).2.Mirrors s := by
    unfold Session.drainArchive
    split
    next => exact mirrors
    next site' there' =>
      simp only
      split
      next => exact mirrors.putKeeper site' _ (mirrors.keeperOf_never (site_eq_ok_iff.1 there'))
      next => exact mirrors
  generalize (t.drainArchive i).2 = t' at whole ⊢
  unfold Session.drainArchive
  split
  next => exact whole
  next =>
    simp only
    split
    next => exact whole.keepers _ _
    next => exact whole

theorem release (mirrors : t.Mirrors s) (lent : Lent (WorkingCopy K V)) :
    (t.release lent).Mirrors (s.release lent) := by
  simp only [Session.release]
  obtain ⟨refusal, refused', refused⟩ | ⟨site', site, usable', usable, there', there, same⟩ :=
    mirrors.usable lent.home
  · simp only [refused', refused]
    exact mirrors
  · simp only [usable', usable]
    exact mirrors.putSite there' there
      ⟨same.store.release lent.item.id, same.reconciler, same.poisoned⟩
      (mirrors.idle lent.home site' there')

theorem drop (mirrors : t.Mirrors s) (name : String) : Matches (t.drop name) (s.drop name) := by
  simp only [Session.drop]
  rw [mirrors.copies]
  split
  next => exact ⟨rfl, mirrors⟩
  next lent _ => exact ⟨rfl, mirrors.copies ▸ (mirrors.erase name).release lent⟩

/-! ## Passes -/

variable [DecidableEq K]

/-- A pass on a site is refused in both sessions for the same reason or runs in both. -/
theorem expire (mirrors : t.Mirrors s) (i : Nat) :
    (∃ refusal, t.expire i = (.error refusal, t) ∧ s.expire i = (.error refusal, s)) ∨
      ∃ n' n t' s', t.expire i = (.ok n', t') ∧ s.expire i = (.ok n, s') ∧ t'.Mirrors s' := by
  simp only [Session.expire]
  obtain ⟨refusal, refused', refused⟩ | ⟨site', site, usable', usable, there', there, same⟩ :=
    mirrors.usable i
  · simp only [refused', refused]
    exact .inl ⟨_, rfl, rfl⟩
  · simp only [usable', usable]
    refine .inr ⟨_, _, _, _, rfl, rfl, ?_⟩
    have never := mirrors.keeperOf_never there'
    -- in `t` the warden counts the question and answers no, and the store stays
    obtain ⟨keeper', passive, never⟩ : ∃ keeper', site'.store.expire (t.keeperOf site') t.clock =
        (0, site'.store, keeper') ∧ keeper'.warden.policy = .never := by
      refine ⟨{ t.keeperOf site' with
        warden := ((t.keeperOf site').warden.ask site'.store.view).2 }, ?_, never⟩
      simp [Store.expire, Retention.Warden.ask, never, Policy.never]
    rw [passive]
    have swept : (t.putSite i site').Mirrors
        (s.putSite i { site with store := (site.store.expire (s.keeperOf site) s.clock).2.1 }) :=
      mirrors.putSite there' there
        ⟨same.store.expire _ _, same.reconciler, same.poisoned⟩ (mirrors.idle i site' there')
    exact (swept.putKeeper site' keeper' never).keepers _ _

theorem close (mirrors : t.Mirrors s) (name : String) (target : Option Nat) :
    Matches (t.close name target) (s.close name target) := by
  simp only [Session.close]
  rw [mirrors.copies]
  cases named s.copies name with
  | error refusal => exact ⟨rfl, mirrors⟩
  | ok lent =>
    have left := mirrors.copies ▸ (mirrors.erase name).release lent
    obtain ⟨refusal, missing', missing⟩ | ⟨_, _, found', found, _⟩ :=
      mirrors.site (target.getD lent.home)
    · simp only [missing', missing]
      exact ⟨rfl, mirrors⟩
    · simp only [found', found]
      split
      next => exact ⟨rfl, left⟩
      next =>
        obtain ⟨refusal, refused', refused⟩ | ⟨n', n, t', s', passed', passed, after⟩ :=
          left.expire (target.getD lent.home)
        · simp only [refused', refused]
          exact ⟨rfl, left⟩
        · simp only [passed', passed]
          exact ⟨rfl, after⟩

/-! ## Cursors and snapshots -/

omit [DecidableEq K] in
theorem makeCursor (mirrors : t.Mirrors s) (name cursor : String) :
    Matches (t.makeCursor name cursor) (s.makeCursor name cursor) := by
  simp only [Session.makeCursor]
  rw [mirrors.copies, mirrors.cursors]
  split
  next => exact ⟨rfl, mirrors⟩
  next => exact ⟨rfl, { mirrors with copies := rfl, cursors := rfl }⟩

omit [DecidableEq K] in
theorem cloneCursor (mirrors : t.Mirrors s) (cursor clone : String) :
    Matches (t.cloneCursor cursor clone) (s.cloneCursor cursor clone) := by
  simp only [Session.cloneCursor]
  rw [mirrors.cursors]
  split
  next => exact ⟨rfl, mirrors⟩
  next => exact ⟨rfl, { mirrors with cursors := rfl }⟩

omit [DecidableEq K] in
/-- Snapshots do not count on either side. -/
theorem snapshots (mirrors : t.Mirrors s) (taken' taken : Dict String (Lent (Snapshot K V))) :
    Mirrors { t with snapshots := taken' } { s with snapshots := taken } :=
  { mirrors with }

end Mirrors

variable [DecidableEq K]

omit [DecidableEq K] in
/-- Taking, reading and closing snapshots changes snapshots alone. -/
theorem takeSnapshot_snapshots (s : Session K V) (i : Nat) (name : String) :
    ∃ taken, (s.takeSnapshot i name).2 = { s with snapshots := taken } := by
  simp only [takeSnapshot]
  split
  next => exact ⟨s.snapshots, rfl⟩
  next =>
    split
    next => exact ⟨s.snapshots, rfl⟩
    next =>
      split
      next => exact ⟨s.snapshots, rfl⟩
      next => exact ⟨_, rfl⟩

theorem readSnapshot_snapshots (s : Session K V) (name : String) (k : K) :
    ∃ taken, (s.readSnapshot name k).2 = { s with snapshots := taken } := by
  simp only [readSnapshot]
  split
  next => exact ⟨s.snapshots, rfl⟩
  next =>
    split
    next => exact ⟨s.snapshots, rfl⟩
    next => exact ⟨_, rfl⟩

omit [DecidableEq K] in
theorem closeSnapshot_snapshots (s : Session K V) (name : String) :
    ∃ taken, (s.closeSnapshot name).2 = { s with snapshots := taken } := by
  simp only [closeSnapshot]
  split
  next => exact ⟨s.snapshots, rfl⟩
  next => exact ⟨_, rfl⟩

end Session

end RevisionStore
