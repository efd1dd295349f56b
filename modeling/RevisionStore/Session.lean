import RevisionStore.Draft.Cursor
import RevisionStore.Draft.Update
import RevisionStore.Store.Commit
import RevisionStore.Store.Expire
import RevisionStore.Snapshot
import RevisionStore.WorkingCopy

/-!
# Sessions

A `Session` is everything that exists at one moment: any number of stores, each on
a `Site` with the reconciler, the warden and the archive it works with, and the
working copies, snapshots and cursors that are open, under names. Operations are total functions
on sessions; an operation that fails says so in its answer and returns the session
that is left, which is not always the one it was given.

Time is part of the session. It passes only by `Session.wait`.

A fault of client code during a commit leaves a site poisoned: everything that has
to look at its store is refused from then on, while drafts and snapshots keep what
they hold.
-/

namespace RevisionStore

open Retention (Warden Keeper Policy Archive)

/-- A store with its collaborators. -/
structure Site (K : Type) (V : Type) where
  store : Store K V
  reconciler : Reconciler V
  -- the place of the site's warden among those of the session
  warden : Nat
  -- the place of the site's archive among those of the session
  archive : Nat
  -- whether a fault struck during a commit
  poisoned : Bool

/-- Something that a site gave out. -/
structure Lent (α : Type) where
  -- the place of the site among those of the session
  home : Nat
  item : α

/-- Everything that exists at one moment. -/
structure Session (K : Type) (V : Type) where
  sites : List (Site K V)
  -- the wardens. Sites that name the same place have one in common.
  wardens : List (Warden K)
  -- the archives. Sites that name the same place have one in common.
  archives : List (Archive K V)
  copies : Dict String (Lent (WorkingCopy K V))
  snapshots : Dict String (Lent (Snapshot K V))
  cursors : Dict String Cursor
  -- milliseconds since the epoch
  clock : Nat

/-- Why an operation of a session did not succeed. -/
inductive Refusal where
  | noHandle
  -- the name is taken
  | handleInUse
  | noSite
  | failed (cause : Failure)
  deriving DecidableEq, Repr

/-- What a new site starts with. -/
structure SiteSpec (K : Type) (V : Type) where
  reconciler : Reconciler V
  lookup : Lookup
  policy : Policy K
  archive : Archive K V

namespace Session

variable {K V : Type}

/-- A session with a fresh store, under a warden and an archive of its own, for each
specification. -/
def start (specs : List (SiteSpec K V)) (clock : Nat) : Session K V where
  sites := specs.zipIdx.map fun (spec, i) =>
    ⟨.fresh spec.lookup clock, spec.reconciler, i, i, false⟩
  wardens := specs.map fun spec => .new spec.policy
  archives := specs.map fun spec => spec.archive
  copies := .empty
  snapshots := .empty
  cursors := .empty
  clock := clock

/-! ## Sites and their keepers -/

def site (s : Session K V) (i : Nat) : Except Refusal (Site K V) :=
  match s.sites[i]? with
  | some site => .ok site
  | none => .error .noSite

/-- The site at a place, refused if it is poisoned. -/
def usable (s : Session K V) (i : Nat) : Except Refusal (Site K V) :=
  match s.site i with
  | .error refusal => .error refusal
  | .ok site => if site.poisoned then .error (.failed (.refused .poisoned)) else .ok site

def keeperOf (s : Session K V) (site : Site K V) : Keeper K V :=
  ⟨s.wardens.getD site.warden default, s.archives.getD site.archive default⟩

def recallOf (s : Session K V) (site : Site K V) : Recollection K V :=
  (s.keeperOf site).archive.recollect

def putSite (s : Session K V) (i : Nat) (site : Site K V) : Session K V :=
  { s with sites := s.sites.set i site }

/-- Replace the keeper of a site, for all sites that have a part of it in common. -/
def putKeeper (s : Session K V) (site : Site K V) (keeper : Keeper K V) : Session K V :=
  { s with
    wardens := s.wardens.set site.warden keeper.warden
    archives := s.archives.set site.archive keeper.archive }

def ask {α : Type} (s : Session K V) (i : Nat)
    (question : Site K V → Recollection K V → Except Failure α) : Except Refusal α :=
  match s.usable i with
  | .error refusal => .error refusal
  | .ok site => (question site (s.recallOf site)).mapError .failed

def wait (s : Session K V) (milliseconds : Nat) : Session K V :=
  { s with clock := s.clock + milliseconds }

/-! ## Names -/

def named {α : Type} (handles : Dict String α) (name : String) : Except Refusal α :=
  match handles.get? name with
  | some item => .ok item
  | none => .error .noHandle

def putDraft (s : Session K V) (name : String) (lent : Lent (WorkingCopy K V)) (d : Draft K V) :
    Session K V :=
  { s with copies := s.copies.put name { lent with item := { lent.item with draft := d } } }

section Operations

variable [DecidableEq K]

/-- How a value at revision `r` is fetched from the site at a place. A site that
cannot be used looks poisoned to those who read through it. -/
def fetch (s : Session K V) (home : Nat) (r : Revision) (k : K) : Except Failure (Option V) :=
  match s.usable home with
  | .error _ => .error (.refused .poisoned)
  | .ok site => site.store.getAt site.reconciler (s.recallOf site) r k

/-! ## Working copies -/

def checkout (s : Session K V) (i : Nat) (name : String) :
    Except Refusal (CheckoutId × Revision) × Session K V :=
  match s.site i with
  | .error refusal => (.error refusal, s)
  | .ok _ =>
    if s.copies.contains name then (.error .handleInUse, s)
    else
      match s.usable i with
      | .error refusal => (.error refusal, s)
      | .ok site =>
        match site.store.checkout with
        | .error failure => (.error (.failed failure), s)
        | .ok ((id, base), store) =>
          let s := s.putSite i { site with store := store }
          (.ok (id, base.revision),
            { s with copies := s.copies.put name ⟨i, ⟨id, .new base⟩⟩ })

/-- Commit an open copy, on its own site unless another one is named. -/
def commit (s : Session K V) (name : String) (target : Option Nat) :
    Except Refusal Revision × Session K V :=
  match named s.copies name with
  | .error refusal => (.error refusal, s)
  | .ok lent =>
    let i := target.getD lent.home
    match s.site i with
    | .error refusal => (.error refusal, s)
    | .ok site =>
      if i ≠ lent.home then (.error (.failed (.rule .foreignCopy)), s)
      else if site.poisoned then (.error (.failed (.refused .poisoned)), s)
      else
        match site.store.commit site.reconciler s.clock lent.item.draft with
        | .ok store => (.ok store.revision, s.putSite i { site with store := store })
        | .error (.refused cause) => (.error (.failed (.refused cause)), s)
        | .error (.fault cause) =>
          (.error (.failed (.fault cause)), s.putSite i { site with poisoned := true })

/-- Strike a copy off the register of its site, which a poisoned site does not notice. -/
def release (s : Session K V) (lent : Lent (WorkingCopy K V)) : Session K V :=
  match s.usable lent.home with
  | .error _ => s
  | .ok site => s.putSite lent.home { site with store := site.store.release lent.item.id }

def drop (s : Session K V) (name : String) : Except Refusal Unit × Session K V :=
  match named s.copies name with
  | .error refusal => (.error refusal, s)
  | .ok lent => (.ok (), { s with copies := s.copies.erase name }.release lent)

/-- Run a pass on the site at a place; answers the number of rosters given up. -/
def expire (s : Session K V) (i : Nat) : Except Refusal Nat × Session K V :=
  match s.usable i with
  | .error refusal => (.error refusal, s)
  | .ok site =>
    let (count, store, keeper) := site.store.expire (s.keeperOf site) s.clock
    (.ok count, (s.putSite i { site with store := store }).putKeeper site keeper)

/-- Close an open copy through its own site, which then runs a pass. Another site
refuses, and then the copy is discarded all the same. -/
def close (s : Session K V) (name : String) (target : Option Nat) :
    Except Refusal Unit × Session K V :=
  match named s.copies name with
  | .error refusal => (.error refusal, s)
  | .ok lent =>
    let i := target.getD lent.home
    match s.site i with
    | .error refusal => (.error refusal, s)
    | .ok _ =>
      let released := { s with copies := s.copies.erase name }.release lent
      if i ≠ lent.home then (.error (.failed (.rule .foreignCopy)), released)
      else
        match released.expire i with
        | (.error refusal, s') => (.error refusal, s')
        | (.ok _, s') => (.ok (), s')

/-- Do something to the draft of an open copy, which may read its site. -/
def onDraft {α : Type} (s : Session K V) (name : String)
    (work : Draft K V → (K → Except Failure (Option V)) → Except Failure α × Draft K V) :
    Except Refusal α × Session K V :=
  match named s.copies name with
  | .error refusal => (.error refusal, s)
  | .ok lent =>
    let d := lent.item.draft
    let (answer, d') := work d (s.fetch lent.home d.revision)
    (answer.mapError .failed, s.putDraft name lent d')

/-- A change of a draft that leaves the draft alone when it fails. -/
def settle {α : Type} (d : Draft K V) (outcome : Except Failure (α × Draft K V)) :
    Except Failure α × Draft K V :=
  match outcome with
  | .error failure => (.error failure, d)
  | .ok (answer, d') => (.ok answer, d')

/-- Refresh an open copy. Its site is looked at only if something is staged. -/
def update (s : Session K V) (name : String) (options : Refresh.Options) :
    Except Refusal Unit × Session K V :=
  match named s.copies name with
  | .error refusal => (.error refusal, s)
  | .ok lent =>
    let d := lent.item.draft
    match s.usable lent.home with
    | .error refusal => if d.staged.isEmpty then (.ok (), s) else (.error refusal, s)
    | .ok site =>
      let (answer, d') := d.update options site.reconciler (site.store.liveValues site.reconciler)
      (answer.mapError .failed, s.putDraft name lent d')

def updateWithFlags (s : Session K V) (name : String) (flags : Refresh.Flags) :
    Except Refusal Unit × Session K V :=
  match named s.copies name with
  | .error refusal => (.error refusal, s)
  | .ok _ =>
    match flags.toOptions with
    | .error cause => (.error (.failed (.refused cause.toStoreError)), s)
    | .ok options => s.update name options

/-! ## Cursors -/

/-- Make a cursor for an open copy; a cursor of that name is replaced. -/
def makeCursor (s : Session K V) (name : String) (cursor : String) :
    Except Refusal Unit × Session K V :=
  match named s.copies name with
  | .error refusal => (.error refusal, s)
  | .ok lent => (.ok (), { s with cursors := s.cursors.put cursor lent.item.draft.cursor })

def cloneCursor (s : Session K V) (cursor : String) (clone : String) :
    Except Refusal Unit × Session K V :=
  match named s.cursors cursor with
  | .error refusal => (.error refusal, s)
  | .ok c => (.ok (), { s with cursors := s.cursors.put clone c })

/-- Step a cursor on an open copy, whichever it was made for; if a value is given, the
value stepped on is overwritten with it. -/
def stepCursor (s : Session K V) (cursor : String) (name : String) (value? : Option V) :
    Except Refusal (Option (K × V)) × Session K V :=
  match named s.cursors cursor with
  | .error refusal => (.error refusal, s)
  | .ok c =>
    match named s.copies name with
    | .error refusal => (.error refusal, s)
    | .ok lent =>
      let d := lent.item.draft
      let (answer, c', d') := c.next d (s.fetch lent.home d.revision)
      let d'' :=
        match answer, value? with
        | .ok (some (k, _)), some v => d'.overwrite k v
        | _, _ => d'
      let s := s.putDraft name lent d''
      (answer.mapError .failed, { s with cursors := s.cursors.put cursor c' })

/-! ## Snapshots -/

def takeSnapshot (s : Session K V) (i : Nat) (name : String) :
    Except Refusal Revision × Session K V :=
  match s.site i with
  | .error refusal => (.error refusal, s)
  | .ok _ =>
    if s.snapshots.contains name then (.error .handleInUse, s)
    else
      match s.ask i fun site _ => site.store.currentRoster with
      | .error refusal => (.error refusal, s)
      | .ok base =>
        (.ok base.revision, { s with snapshots := s.snapshots.put name ⟨i, .new base⟩ })

/-- Read a key of a snapshot; also answers whether its revision lists the key. -/
def readSnapshot (s : Session K V) (name : String) (k : K) :
    Except Refusal (Bool × Option V) × Session K V :=
  match named s.snapshots name with
  | .error refusal => (.error refusal, s)
  | .ok lent =>
    match lent.item.read (s.fetch lent.home lent.item.revision) k with
    | .error failure => (.error (.failed failure), s)
    | .ok (v, x) =>
      (.ok (lent.item.base.contains k, v),
        { s with snapshots := s.snapshots.put name { lent with item := x } })

/-- Let go of a snapshot, of which its site learns nothing. -/
def closeSnapshot (s : Session K V) (name : String) : Except Refusal Unit × Session K V :=
  match named s.snapshots name with
  | .error refusal => (.error refusal, s)
  | .ok _ => (.ok (), { s with snapshots := s.snapshots.erase name })

/-! ## Collaborators -/

def setReconciler (s : Session K V) (i : Nat) (reconciler : Reconciler V) :
    Except Refusal Unit × Session K V :=
  match s.usable i with
  | .error refusal => (.error refusal, s)
  | .ok site => (.ok (), s.putSite i { site with reconciler := reconciler })

/-- Give a site a new warden of its own, and leave it its archive. -/
def setPolicy (s : Session K V) (i : Nat) (policy : Policy K) :
    Except Refusal Unit × Session K V :=
  match s.usable i with
  | .error refusal => (.error refusal, s)
  | .ok site =>
    let s := s.putSite i { site with warden := s.wardens.length }
    (.ok (), { s with wardens := s.wardens ++ [.new policy] })

/-- Give a site a new warden and a new archive of its own. -/
def setKeeper (s : Session K V) (i : Nat) (policy : Policy K) (archive : Archive K V) :
    Except Refusal Unit × Session K V :=
  match s.usable i with
  | .error refusal => (.error refusal, s)
  | .ok site =>
    let s := s.putSite i { site with warden := s.wardens.length, archive := s.archives.length }
    (.ok (), { s with
      wardens := s.wardens ++ [.new policy]
      archives := s.archives ++ [archive] })

/-- Put a site under the keeper of another one: the warden with its count and the archive. -/
def shareKeeper (s : Session K V) (i : Nat) (source : Nat) :
    Except Refusal (Keeper K V) × Session K V :=
  match s.site i with
  | .error refusal => (.error refusal, s)
  | .ok _ =>
    match s.usable source with
    | .error refusal => (.error refusal, s)
    | .ok giver =>
      match s.usable i with
      | .error refusal => (.error refusal, s)
      | .ok site =>
        (.ok (s.keeperOf giver),
          s.putSite i { site with warden := giver.warden, archive := giver.archive })

/-- The archive of a site, which can be looked at even on a poisoned site. -/
def archive (s : Session K V) (i : Nat) : Except Refusal (Archive K V) :=
  (s.site i).map fun site => (s.keeperOf site).archive

/-- Drain the archive of a site, if it is a recording one. -/
def drainArchive (s : Session K V) (i : Nat) :
    Except Refusal (Option (List (Roster K))) × Session K V :=
  match s.site i with
  | .error refusal => (.error refusal, s)
  | .ok site =>
    let keeper := s.keeperOf site
    match keeper.archive.role with
    | .recording =>
      let (rosters, archive) := keeper.archive.drain
      (.ok (some rosters), s.putKeeper site { keeper with archive := archive })
    | _ => (.ok none, s)

end Operations

end Session

end RevisionStore
