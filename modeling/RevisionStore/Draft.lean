import RevisionStore.Dict
import RevisionStore.KeyOrder
import RevisionStore.Roster

/-!
# Drafts

A `Draft` is an overlay on the roster of a base revision: the keys that were
added, removed and touched (read or replaced) since, each in order of arrival,
and the values held for them. The roster itself never changes.

Every staging operation bumps `version`; cursors compare it with the version they
were made at. Reading does not bump it, and neither does an operation that is
refused.
-/

namespace RevisionStore

/-- Staged changes over a base revision. -/
structure Draft (K : Type) (V : Type) where
  base : Roster K
  added : List K
  removed : List K
  -- the keys read or replaced, in order of the first touch
  touched : List K
  held : Dict K V
  version : Nat
  deriving Repr

namespace Draft

variable {K V : Type} [DecidableEq K]

def new (base : Roster K) : Draft K V :=
  ⟨base, [], [], [], .empty, 0⟩

def revision (d : Draft K V) : Revision :=
  d.base.revision

def isAdded (d : Draft K V) (k : K) : Bool :=
  k ∈ d.added

/-- Whether `k` was read or replaced. -/
def isModified (d : Draft K V) (k : K) : Bool :=
  k ∈ d.touched

def isRemoved (d : Draft K V) (k : K) : Bool :=
  k ∈ d.removed

def local? (d : Draft K V) (k : K) : Option V :=
  d.held.get? k

/-! ## Staging -/

/-- Stage `v` under a new key. A key removed before comes back as a replacement. -/
def add (d : Draft K V) (k : K) (v : V) : Draft K V :=
  if d.isRemoved k then
    { d with
      removed := KeyOrder.erase d.removed k
      touched := KeyOrder.insert d.touched k
      held := d.held.put k v
      version := d.version + 1 }
  else
    { d with
      added := KeyOrder.insert d.added k
      held := d.held.put k v
      version := d.version + 1 }

/-- Stage `v` as the new value of an added key or of a base key that is not removed. -/
def replace (d : Draft K V) (k : K) (v : V) : Except Violation (Draft K V) :=
  if d.isAdded k then
    .ok { d with held := d.held.put k v, version := d.version + 1 }
  else if d.isRemoved k then
    .error .replaceRemoved
  else if d.base.contains k then
    .ok { d with
      touched := KeyOrder.insert d.touched k
      held := d.held.put k v
      version := d.version + 1 }
  else
    .error (.replaceAbsent d.revision)

/-- Stage the removal of `k`, or take back its addition. Answers `false`, and stages
nothing, for a key that is removed already. -/
def remove (d : Draft K V) (k : K) : Except Violation (Bool × Draft K V) :=
  if d.isAdded k then
    .ok (true, { d with
      added := KeyOrder.erase d.added k
      held := d.held.erase k
      version := d.version + 1 })
  else if d.isRemoved k then
    .ok (false, d)
  else if d.base.contains k then
    .ok (true, { d with
      removed := KeyOrder.insert d.removed k
      touched := KeyOrder.erase d.touched k
      held := d.held.erase k
      version := d.version + 1 })
  else
    .error (.removeAbsent d.revision)

def revert (d : Draft K V) : Draft K V :=
  { d with added := [], removed := [], touched := [], held := .empty, version := d.version + 1 }

/-! ## Held values -/

/-- Hold a value that was just read, unless one is held already, and mark its key touched. -/
def holdRead (d : Draft K V) (k : K) (v : V) : Draft K V :=
  { d with
    touched := KeyOrder.insert d.touched k
    held := if d.held.contains k then d.held else d.held.put k v }

/-- Hold another value for `k`; this counts as a change. -/
def setLocal (d : Draft K V) (k : K) (v : V) : Draft K V :=
  { d with held := d.held.put k v, version := d.version + 1 }

/-- Overwrite the value held for `k`, if there is one, in place. -/
def overwrite (d : Draft K V) (k : K) (v : V) : Draft K V :=
  if d.held.contains k then { d with held := d.held.put k v } else d

/-- Read `k`. A held value answers; otherwise a base key is fetched from the store
once and held from then on. Removed keys and keys outside the base have no value. -/
def read (d : Draft K V) (fetch : K → Except Failure (Option V)) (k : K) :
    Except Failure (Option V × Draft K V) :=
  if d.isRemoved k then
    .ok (none, d)
  else
    match d.local? k with
    | some v => .ok (some v, d)
    | none =>
      if d.base.contains k then
        match fetch k with
        | .error failure => .error failure
        | .ok none => .error (.rule (.valueLost d.revision))
        | .ok (some v) => .ok (some v, d.holdRead k v)
      else
        .ok (none, d)

/-- Read `k` and overwrite what was read with `v`; a key without a value stays without one. -/
def edit (d : Draft K V) (fetch : K → Except Failure (Option V)) (k : K) (v : V) :
    Except Failure (Option V × Draft K V) :=
  (d.read fetch k).map fun
    | (some old, d') => (some old, d'.overwrite k v)
    | (none, d') => (none, d')

/-! ## The keys seen through a draft -/

def containsKey (d : Draft K V) (k : K) : Bool :=
  d.isAdded k || (!d.isRemoved k && d.base.contains k)

/-- Base keys that are not removed, followed by additions. -/
def keys (d : Draft K V) : List K :=
  d.base.keys.filter (fun k => !d.isRemoved k) ++ d.added

/-- The number of keys, from the three counts alone. -/
def size (d : Draft K V) : Nat :=
  d.base.size + d.added.length - d.removed.length

def keyAt? (d : Draft K V) (i : Nat) : Option K :=
  d.keys[i]?

def keyIndex? (d : Draft K V) (k : K) : Option Nat :=
  d.keys.findIdx? (· = k)

/-- Read the key at a position; there is no value beyond the last key. -/
def readIndex (d : Draft K V) (fetch : K → Except Failure (Option V)) (i : Nat) :
    Except Failure (Option V × Draft K V) :=
  match d.keyAt? i with
  | some k => d.read fetch k
  | none => .ok (none, d)

def editIndex (d : Draft K V) (fetch : K → Except Failure (Option V)) (i : Nat) (v : V) :
    Except Failure (Option V × Draft K V) :=
  match d.keyAt? i with
  | some k => d.edit fetch k v
  | none => .ok (none, d)

def isClean (d : Draft K V) : Bool :=
  d.added.isEmpty && d.removed.isEmpty && d.touched.isEmpty

end Draft

end RevisionStore
