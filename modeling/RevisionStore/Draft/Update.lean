import RevisionStore.Draft
import RevisionStore.Reconciler
import RevisionStore.Refresh

/-!
# Refreshing a draft

A refresh reconciles a draft with what was committed since its base. Every staged
key that the store still holds is a conflict, whether or not it changed. All
conflicts are looked for before anything is written; then the modified keys that
are live are refreshed one by one, in staging order, each write counting as a
change. A merge that gives up leaves the earlier writes in place.

The base does not move, and keys that only the store has are not pulled in.
-/

namespace RevisionStore

namespace Draft

variable {K V : Type} [DecidableEq K]

/-- Every staged key: additions, then touched keys, then removals. -/
def staged (d : Draft K V) : List K :=
  d.added ++ d.touched ++ d.removed

/-- How a live key conflicts with the draft, under the given options. -/
def conflict? (d : Draft K V) (options : Refresh.Options) (k : K) : Option Staging :=
  if d.isAdded k && options.failOnAdd then some .added
  else if d.isModified k && options.failOnModify then some .modified
  else if d.isRemoved k && options.failOnRemove then some .removed
  else none

/-- What a refresh writes for a live key with value `v` in the store, if it writes at all. -/
def refreshed? (d : Draft K V) (mode : Refresh.Mode) (reconciler : Reconciler V) (k : K) (v : V) :
    Except Failure (Option V) :=
  if d.isModified k then
    match mode with
    | .merge =>
      match d.local? k with
      | some own => (reconciler.merged v own).map some
      | none => .ok none
    | .replace => .ok (some v)
    | .ignore => .ok none
  else
    .ok none

/-- Refresh the modified ones of the live keys, in order. -/
def refreshAll (mode : Refresh.Mode) (reconciler : Reconciler V) :
    List (K × V) → Draft K V → Except Failure Unit × Draft K V
  | [], d => (.ok (), d)
  | (k, v) :: rest, d =>
    match d.refreshed? mode reconciler k v with
    | .error failure => (.error failure, d)
    | .ok none => refreshAll mode reconciler rest d
    | .ok (some w) => refreshAll mode reconciler rest (d.setLocal k w)

/-- Refresh the draft. `live` answers which of some keys the store holds, with clones
of their values; it is asked only if something is staged. -/
def update (d : Draft K V) (options : Refresh.Options) (reconciler : Reconciler V)
    (live : List K → Except Failure (List (K × V))) : Except Failure Unit × Draft K V :=
  if d.staged.isEmpty then
    (.ok (), d)
  else
    match live d.staged with
    | .error failure => (.error failure, d)
    | .ok found =>
      match found.findSome? fun entry => d.conflict? options entry.1 with
      | some staging => (.error (.rule (.conflict staging d.revision)), d)
      | none => refreshAll options.mode reconciler found d

end Draft

end RevisionStore
