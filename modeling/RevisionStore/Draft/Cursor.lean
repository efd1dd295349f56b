import RevisionStore.Draft

/-!
# Cursors

A `Cursor` walks over the keys of a draft in their order: base keys that are not
removed, then additions. It holds no draft, only two positions and the version at
which it was made; a step names the draft and is refused if its version differs.
A step moves the cursor before it reads, so a step whose read fails has passed its
key all the same.
-/

namespace RevisionStore

/-- A place in the keys of a draft. -/
structure Cursor where
  -- the version of the draft for which the cursor was made
  stamp : Nat
  basePos : Nat
  addedPos : Nat
  deriving DecidableEq, Repr

namespace Draft

variable {K V : Type} [DecidableEq K]

def cursor (d : Draft K V) : Cursor :=
  ⟨d.version, 0, 0⟩

end Draft

namespace Cursor

variable {K V : Type} [DecidableEq K]

/-- Move past the next key, which is answered, or to the end. -/
def advance (c : Cursor) (d : Draft K V) : Option K × Cursor :=
  let ahead := d.base.keys.drop c.basePos
  let skipped := (ahead.takeWhile fun k => d.isRemoved k).length
  match ahead.dropWhile fun k => d.isRemoved k with
  | k :: _ => (some k, { c with basePos := c.basePos + skipped + 1 })
  | [] =>
    match d.added[c.addedPos]? with
    | some k =>
      (some k, { c with basePos := c.basePos + skipped, addedPos := c.addedPos + 1 })
    | none => (none, { c with basePos := c.basePos + skipped })

/-- The next key with its value, or `none` at the end, and where cursor and draft are
afterwards. -/
def next (c : Cursor) (d : Draft K V) (fetch : K → Except Failure (Option V)) :
    Except Failure (Option (K × V)) × Cursor × Draft K V :=
  if d.version = c.stamp then
    match c.advance d with
    | (none, c') => (.ok none, c', d)
    | (some k, c') =>
      match d.read fetch k with
      | .error failure => (.error failure, c', d)
      | .ok (none, d') => (.error (.rule .cursorAstray), c', d')
      | .ok (some v, d') => (.ok (some (k, v)), c', d')
  else
    (.error (.refused .changedUnderCursor), c, d)

/-- Step up to `limit` times, to the end or to the first failure; `seen` are the
pairs of the steps before. -/
def walk (c : Cursor) (d : Draft K V) (fetch : K → Except Failure (Option V)) :
    (limit : Nat) → (seen : List (K × V)) → Except Failure (List (K × V)) × Draft K V
  | 0, seen => (.ok seen, d)
  | limit + 1, seen =>
    match c.next d fetch with
    | (.error failure, _, d') => (.error failure, d')
    | (.ok none, _, d') => (.ok seen, d')
    | (.ok (some entry), c', d') => walk c' d' fetch limit (seen ++ [entry])

end Cursor

namespace Draft

variable {K V : Type} [DecidableEq K]

/-- Run a fresh cursor to the end. The keys of the base and the additions bound the
number of steps. -/
def walk (d : Draft K V) (fetch : K → Except Failure (Option V)) :
    Except Failure (List (K × V)) × Draft K V :=
  d.cursor.walk d fetch (d.base.size + d.added.length + 1) []

end Draft

end RevisionStore
