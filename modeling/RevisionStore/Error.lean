/-!
# What can go wrong

Every refusal of the library is a cause, not a text: the wording lives in the
`message` functions of this module and nowhere else. A `StoreError` is a refusal
that the store decided on; a `Fault` is raised by client code (cloning or merging
a value) and passes through the store. `Failure` is either of the two.
-/

namespace RevisionStore

/-- A revision number. The store starts at `0` and counts up by one per commit. -/
abbrev Revision := Nat

/-! ## Causes -/

/-- The three ways in which a working copy can stage a key. -/
inductive Staging where
  | added
  | modified
  | removed
  deriving DecidableEq, Repr

def Staging.word : Staging → String
  | .added => "added"
  | .modified => "modified"
  | .removed => "removed"

/-- Refusals of the small value types. -/
inductive ValueError where
  -- a change at this revision records a removal and carries no value
  | tombstone (revision : Revision)
  -- a set of refresh flags does not describe refresh options
  | refreshOptions (reason : String)
  deriving DecidableEq, Repr

def ValueError.message : ValueError → String
  | .tombstone r => s!"entry at revision {r} is a tombstone and carries no value"
  | .refreshOptions reason => s!"invalid refresh options: {reason}"

/-- The rules of the store that an operation can break. -/
inductive Violation where
  | foreignCopy
  -- the current revision has no roster
  | rosterMissing (revision : Revision)
  -- a key is listed at a revision for which no value is left
  | valueLost (revision : Revision)
  -- a cursor came to a key that has no value
  | cursorAstray
  -- a key to be added is live already
  | addedKeyLive (revision : Revision)
  -- a key to be modified or removed is not live
  | changedKeyGone (revision : Revision)
  -- a staged key has no held value
  | noStagedValue (staging : Staging)
  -- a key to be modified has no value in the store
  | noHeadValue
  -- a removed key cannot be replaced
  | replaceRemoved
  | replaceAbsent (base : Revision)
  -- a key that is neither staged nor in the base cannot be removed
  | removeAbsent (base : Revision)
  -- a staged key is still live in the store
  | conflict (staging : Staging) (base : Revision)
  | value (cause : ValueError)
  -- a violation reported by a client in its own words
  | stated (text : String)
  deriving DecidableEq, Repr

def Violation.message : Violation → String
  | .foreignCopy => "working copy was checked out from a different root"
  | .rosterMissing r => s!"key set of current revision {r} is missing"
  | .valueLost r => s!"revision {r} lists the key but no value is retained for it"
  | .cursorAstray => "cursor reached a key without a visible value"
  | .addedKeyLive r => s!"added key already exists at revision {r}"
  | .changedKeyGone r => s!"changed key no longer exists at revision {r}"
  | .noStagedValue staging => staging.word ++ " key has no staged value"
  | .noHeadValue => "modified key has no head value"
  | .replaceRemoved => "cannot replace a key removed in this working copy"
  | .replaceAbsent base => s!"cannot replace a key absent at revision {base}"
  | .removeAbsent base =>
    s!"cannot remove a key that is neither staged nor present at revision {base}"
  | .conflict staging base =>
    "root still holds a key " ++ staging.word ++ s!" in this working copy (base revision {base})"
  | .value cause => cause.message
  | .stated text => text

/-- Why a revision cannot be answered for. -/
inductive RangeFault where
  | beyond (current : Revision)
  -- its roster is no longer retained
  | expired
  -- a reason reported by a client in its own words
  | stated (text : String)
  deriving DecidableEq, Repr

def RangeFault.message : RangeFault → String
  | .beyond current => s!"current revision is {current}"
  | .expired => "revision has been expired"
  | .stated text => text

/-- The refusals of a store. -/
inductive StoreError where
  | violated (rule : Violation)
  | outOfRange (revision : Revision) (why : RangeFault)
  -- the working copy changed under a cursor
  | changedUnderCursor
  -- an earlier fault struck while the store was being written
  | poisoned
  | configuration (text : String)
  deriving DecidableEq, Repr

def StoreError.message : StoreError → String
  | .violated rule => "invariant violated: " ++ rule.message
  | .outOfRange r why => s!"revision {r} out of range: " ++ why.message
  | .changedUnderCursor => "working copy was modified during iteration"
  | .poisoned => "root lock poisoned"
  | .configuration text => "configuration error: " ++ text

def ValueError.toStoreError (cause : ValueError) : StoreError :=
  .violated (.value cause)

/-! ## Faults of client code -/

/-- Raised by client code that gives up on a value. -/
structure Fault where
  text : String
  deriving DecidableEq, Repr

/-- The end of an operation that did not succeed. -/
inductive Failure where
  | refused (cause : StoreError)
  | fault (cause : Fault)
  deriving DecidableEq, Repr

/-- A refusal that names the broken rule. -/
def Failure.rule (rule : Violation) : Failure :=
  .refused (.violated rule)

end RevisionStore
