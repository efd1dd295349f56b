import RevisionStore.Session

/-!
# Actions

An `Action` is a request to a session as a value, and `Session.perform` answers it.
Runs are lists of actions, so that two runs can be compared action by action
(`Session.answers`), and the sessions that a run can lead to are the `Reachable`
ones.
-/

namespace RevisionStore

open Retention (Policy Archive)

inductive Action (K : Type) (V : Type) where
  -- reading a store
  | revision (site : Nat)
  | size (site : Nat)
  | isEmpty (site : Nat)
  | keys (site : Nat)
  | keysAt (site : Nat) (r : Revision)
  | rosterAt (site : Nat) (r : Revision)
  | contains (site : Nat) (k : K)
  | containsAt (site : Nat) (r : Revision) (k : K)
  | get (site : Nat) (k : K)
  | getAt (site : Nat) (r : Revision) (k : K)
  | retained (site : Nat)
  | historyRevisions (site : Nat) (k : K)
  | lookup (site : Nat)
  | describe (site : Nat)
  | active (site : Nat)
  | grid (site : Nat) (rs : List Revision) (ks : List K)
  | asMap (site : Nat)
  -- writing a store
  | checkout (site : Nat) (name : String)
  | commit (name : String) (target : Option Nat)
  | close (name : String) (target : Option Nat)
  | drop (name : String)
  | expire (site : Nat)
  -- collaborators
  | setReconciler (site : Nat) (reconciler : Reconciler V)
  | setPolicy (site : Nat) (policy : Policy K)
  | setKeeper (site : Nat) (policy : Policy K) (archive : Archive K V)
  | shareKeeper (site : Nat) (source : Nat)
  | mergeValues (site : Nat) (repository own : V)
  | archive (site : Nat)
  | drainArchive (site : Nat)
  | wait (milliseconds : Nat)
  -- working copies
  | copyInfo (name : String)
  | keyStatus (name : String) (k : K)
  | read (name : String) (k : K)
  | readIndex (name : String) (i : Nat)
  | edit (name : String) (k : K) (v : V)
  | editIndex (name : String) (i : Nat) (v : V)
  | add (name : String) (k : K) (v : V)
  | replace (name : String) (k : K) (v : V)
  | remove (name : String) (k : K)
  | revert (name : String)
  | update (name : String) (options : Refresh.Options)
  | updateWithFlags (name : String) (flags : Refresh.Flags)
  | walk (name : String)
  -- cursors
  | makeCursor (name : String) (cursor : String)
  | cloneCursor (cursor : String) (clone : String)
  | stepCursor (cursor : String) (name : String) (value? : Option V)
  -- snapshots
  | takeSnapshot (site : Nat) (name : String)
  | snapshotInfo (name : String)
  | readSnapshot (name : String) (k : K)
  | closeSnapshot (name : String)

structure KeyStatus (V : Type) where
  contains : Bool
  added : Bool
  modified : Bool
  removed : Bool
  index? : Option Nat
  held? : Option V

/-- What a draft knows about a key, without reading it. -/
def Draft.keyStatus {K V : Type} [DecidableEq K] (d : Draft K V) (k : K) : KeyStatus V :=
  ⟨d.containsKey k, d.isAdded k, d.isModified k, d.isRemoved k, d.keyIndex? k, d.local? k⟩

/-- The answer to an action that succeeded. -/
inductive Answer (K : Type) (V : Type) where
  | done
  | number (n : Nat)
  | flag (b : Bool)
  | text (t : String)
  | keys (ks : List K)
  | revisions (rs : List Revision)
  | value (v? : Option V)
  | pair (found? : Option (K × V))
  | pairs (entries : List (K × V))
  | lookup (rule : Lookup)
  | opened (id : CheckoutId) (base : Revision)
  | registrations (active : List Registration)
  | roster (roster : Roster K)
  | grid (rows : List (Revision × List (Except StoreError (Option V))))
  | map (m : ValueMap K V)
  | keyStatus (status : KeyStatus V)
  | copy (copy : WorkingCopy K V)
  | snapshot (snapshot : Snapshot K V)
  | snapshotValue (contains : Bool) (v? : Option V)
  | archive (archive : Archive K V)
  | drained (rosters? : Option (List (Roster K)))

namespace Session

variable {K V : Type} [DecidableEq K]

/-- An answer of one form, seen as an answer. -/
def answered {α : Type} (form : α → Answer K V) (outcome : Except Refusal α × Session K V) :
    Except Refusal (Answer K V) × Session K V :=
  (outcome.1.map form, outcome.2)

/-- The answer to a question that changes nothing. -/
def told {α : Type} (s : Session K V) (form : α → Answer K V) (outcome : Except Refusal α) :
    Except Refusal (Answer K V) × Session K V :=
  (outcome.map form, s)

def valueAt (s : Session K V) (i : Nat) (r : Revision) (k : K) : Except Refusal (Option V) :=
  s.ask i fun site recollect => site.store.getAt site.reconciler recollect r k

/-- One cell of a grid, which shows a value or what the store has against it. -/
def cell (s : Session K V) (i : Nat) (r : Revision) (k : K) :
    Except Refusal (Except StoreError (Option V)) :=
  match s.valueAt i r k with
  | .ok v? => .ok (.ok v?)
  | .error (.failed (.refused cause)) => .ok (.error cause)
  | .error refusal => .error refusal

/-- The values of some keys at some revisions, row by row. A fault in one cell leaves no
grid at all. -/
def grid (s : Session K V) (i : Nat) (rs : List Revision) (ks : List K) :
    Except Refusal (List (Revision × List (Except StoreError (Option V)))) :=
  match s.site i with
  | .error refusal => .error refusal
  | .ok _ => rs.mapM fun r => (ks.mapM (s.cell i r)).map fun cells => (r, cells)

/-- Describe the store of a site, poisoned or not. -/
def describeSite (s : Session K V) (i : Nat) : Except Refusal String :=
  (s.site i).map fun site =>
    if site.poisoned then Store.describePoisoned else site.store.describe

def perform (s : Session K V) : Action K V → Except Refusal (Answer K V) × Session K V
  | .revision i => s.told .number (s.ask i fun site _ => .ok site.store.revision)
  | .size i => s.told .number (s.ask i fun site _ => site.store.size)
  | .isEmpty i => s.told .flag (s.ask i fun site _ => site.store.size.map (· == 0))
  | .keys i => s.told .keys (s.ask i fun site _ => site.store.keys)
  | .keysAt i r => s.told .keys (s.ask i fun site _ => site.store.keysAt r)
  | .rosterAt i r => s.told .roster (s.ask i fun site _ => site.store.rosterAt r)
  | .contains i k => s.told .flag (s.ask i fun site recollect => site.store.contains recollect k)
  | .containsAt i r k =>
    s.told .flag (s.ask i fun site recollect => site.store.containsAt recollect r k)
  | .get i k =>
    s.told .value (s.ask i fun site recollect => site.store.get site.reconciler recollect k)
  | .getAt i r k => s.told .value (s.valueAt i r k)
  | .retained i => s.told .revisions (s.ask i fun site _ => .ok site.store.retained)
  | .historyRevisions i k =>
    s.told .revisions (s.ask i fun site _ => .ok (site.store.historyRevisions k))
  | .lookup i => s.told .lookup (s.ask i fun site _ => .ok site.store.lookup)
  | .describe i => s.told .text (s.describeSite i)
  | .active i => s.told .registrations (s.ask i fun site _ => .ok site.store.active)
  | .grid i rs ks => s.told .grid (s.grid i rs ks)
  | .asMap i =>
    s.told .map (s.ask i fun site recollect => site.store.asMap site.reconciler recollect)
  | .checkout i name => answered (fun (id, base) => .opened id base) (s.checkout i name)
  | .commit name target => answered .number (s.commit name target)
  | .close name target => answered (fun _ => .done) (s.close name target)
  | .drop name => answered (fun _ => .done) (s.drop name)
  | .expire i => answered .number (s.expire i)
  | .setReconciler i reconciler => answered (fun _ => .done) (s.setReconciler i reconciler)
  | .setPolicy i policy => answered (fun _ => .done) (s.setPolicy i policy)
  | .setKeeper i policy archive => answered (fun _ => .done) (s.setKeeper i policy archive)
  | .shareKeeper i source =>
    answered (fun keeper => .text keeper.describe) (s.shareKeeper i source)
  | .mergeValues i repository own =>
    s.told (fun v => .value (some v)) (s.ask i fun site _ => site.reconciler.merged repository own)
  | .archive i => s.told .archive (s.archive i)
  | .drainArchive i => answered .drained (s.drainArchive i)
  | .wait milliseconds => (.ok .done, s.wait milliseconds)
  | .copyInfo name => s.told (fun lent => .copy lent.item) (named s.copies name)
  | .keyStatus name k =>
    s.told (fun lent => .keyStatus (lent.item.draft.keyStatus k)) (named s.copies name)
  | .read name k => answered .value (s.onDraft name fun d fetch => settle d (d.read fetch k))
  | .readIndex name i =>
    answered .value (s.onDraft name fun d fetch => settle d (d.readIndex fetch i))
  | .edit name k v => answered .value (s.onDraft name fun d fetch => settle d (d.edit fetch k v))
  | .editIndex name i v =>
    answered .value (s.onDraft name fun d fetch => settle d (d.editIndex fetch i v))
  | .add name k v => answered (fun _ => .done) (s.onDraft name fun d _ => (.ok (), d.add k v))
  | .replace name k v =>
    answered (fun _ => .done) (s.onDraft name fun d _ =>
      match d.replace k v with
      | .error rule => (.error (.rule rule), d)
      | .ok d' => (.ok (), d'))
  | .remove name k =>
    answered .flag (s.onDraft name fun d _ =>
      match d.remove k with
      | .error rule => (.error (.rule rule), d)
      | .ok (removed, d') => (.ok removed, d'))
  | .revert name => answered (fun _ => .done) (s.onDraft name fun d _ => (.ok (), d.revert))
  | .update name options => answered (fun _ => .done) (s.update name options)
  | .updateWithFlags name flags => answered (fun _ => .done) (s.updateWithFlags name flags)
  | .walk name => answered .pairs (s.onDraft name fun d fetch => d.walk fetch)
  | .makeCursor name cursor => answered (fun _ => .done) (s.makeCursor name cursor)
  | .cloneCursor cursor clone => answered (fun _ => .done) (s.cloneCursor cursor clone)
  | .stepCursor cursor name value? => answered .pair (s.stepCursor cursor name value?)
  | .takeSnapshot i name => answered .number (s.takeSnapshot i name)
  | .snapshotInfo name => s.told (fun lent => .snapshot lent.item) (named s.snapshots name)
  | .readSnapshot name k =>
    answered (fun (contains, v?) => .snapshotValue contains v?) (s.readSnapshot name k)
  | .closeSnapshot name => answered (fun _ => .done) (s.closeSnapshot name)

/-! ## Runs -/

def run (s : Session K V) (actions : List (Action K V)) : Session K V :=
  actions.foldl (fun s action => (s.perform action).2) s

def answers (s : Session K V) : List (Action K V) → List (Except Refusal (Answer K V))
  | [] => []
  | action :: rest => (s.perform action).1 :: (s.perform action).2.answers rest

/-- The sessions to which a run of a fresh session can lead. -/
inductive Reachable : Session K V → Prop
  -- a fresh session is reachable
  | start (specs : List (SiteSpec K V)) (clock : Nat) : Reachable (.start specs clock)
  -- what an action leaves of a reachable session is reachable
  | perform {s : Session K V} (action : Action K V) (reached : Reachable s) :
      Reachable (s.perform action).2

end Session

end RevisionStore
