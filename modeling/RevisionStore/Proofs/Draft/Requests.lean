import RevisionStore.Proofs.Draft.Staging

/-!
# Requests to a draft

A `Draft.Request` is an operation on a draft as a value. `Draft.after` is the draft that it
leaves, and `Draft.serve` serves a sequence of requests, one after the other. A request that is
refused leaves the draft as it was.

Every request is an evolution (`evolves_after`), and those that read are glances
(`glances_after`).
-/

namespace RevisionStore

namespace Draft

/-- What can be asked of a draft. Where it has to look into a store, the store answers as
`fetch`. -/
inductive Request (K : Type) (V : Type) where
  -- staging
  | add (k : K) (v : V)
  | replace (k : K) (v : V)
  | remove (k : K)
  | revert
  -- reading
  | read (fetch : K → Except Failure (Option V)) (k : K)
  | readIndex (fetch : K → Except Failure (Option V)) (i : Nat)
  | edit (fetch : K → Except Failure (Option V)) (k : K) (v : V)
  | editIndex (fetch : K → Except Failure (Option V)) (i : Nat) (v : V)
  -- a step of a cursor, which may overwrite the value stepped on
  | step (fetch : K → Except Failure (Option V)) (c : Cursor) (value? : Option V)
  | walk (fetch : K → Except Failure (Option V))
  -- refreshing
  | update (options : Refresh.Options) (reconciler : Reconciler V)
      (live : List K → Except Failure (List (K × V)))

/-- Whether a request only reads, or overwrites what it has read. -/
def Request.reads {K V : Type} : Request K V → Bool
  | .read .. | .readIndex .. | .edit .. | .editIndex .. | .step .. | .walk .. => true
  | .add .. | .replace .. | .remove .. | .revert | .update .. => false

variable {K V : Type}

/-- The draft that comes with an outcome, or the one there was if there is none. -/
def settled {ε α : Type} (d : Draft K V) : Except ε (α × Draft K V) → Draft K V
  | .error _ => d
  | .ok (_, d') => d'

variable [DecidableEq K]

/-- The draft that a request leaves. -/
def after (d : Draft K V) : Request K V → Draft K V
  | .add k v => d.add k v
  | .replace k v => (d.replace k v).toOption.getD d
  | .remove k => d.settled (d.remove k)
  | .revert => d.revert
  | .read fetch k => d.settled (d.read fetch k)
  | .readIndex fetch i => d.settled (d.readIndex fetch i)
  | .edit fetch k v => d.settled (d.edit fetch k v)
  | .editIndex fetch i v => d.settled (d.editIndex fetch i v)
  | .step fetch c value? =>
    let (answer, _, d') := c.next d fetch
    match answer, value? with
    | .ok (some (k, _)), some v => d'.overwrite k v
    | _, _ => d'
  | .walk fetch => (d.walk fetch).2
  | .update options reconciler live => (d.update options reconciler live).2

/-- The draft that some requests leave. -/
def serve (d : Draft K V) (requests : List (Request K V)) : Draft K V :=
  requests.foldl after d

variable {d d' : Draft K V} {request : Request K V}

theorem serve_cons (d : Draft K V) (request : Request K V) (rest : List (Request K V)) :
    d.serve (request :: rest) = (d.after request).serve rest := rfl

/-! ## Requests are evolutions -/

theorem glances_settled {ε α : Type} {outcome : Except ε (α × Draft K V)}
    (glances : ∀ a d', outcome = .ok (a, d') → d.Glances d') : d.Glances (d.settled outcome) := by
  cases outcome with
  | error refusal => exact .refl
  | ok answer => exact glances _ _ rfl

theorem glances_after (reads : request.reads = true) : d.Glances (d.after request) := by
  cases request with
  | read fetch k => exact glances_settled fun _ _ => glances_read
  | readIndex fetch i => exact glances_settled fun _ _ => glances_readIndex
  | edit fetch k v => exact glances_settled fun _ _ => glances_edit
  | editIndex fetch i v => exact glances_settled fun _ _ => glances_editIndex
  | step fetch c value? =>
    have stepped : d.Glances (c.next d fetch).2.2 := glances_next c
    simp only [after]
    split
    next => exact stepped.tail (.overwrite _ _ _)
    next => exact stepped
  | walk fetch => exact glances_walk _ _ _
  | _ => cases reads

theorem evolves_after (request : Request K V) : d.Evolves (d.after request) := by
  cases request with
  | add k v => exact .single (.add d k v)
  | replace k v =>
    simp only [after]
    cases replaced : d.replace k v with
    | error rule => exact .refl
    | ok d' => exact .single (.replace replaced)
  | remove k =>
    simp only [after]
    cases removed : d.remove k with
    | error rule => exact .refl
    | ok answer => exact .single (.remove removed)
  | revert => exact .single (.revert d)
  | update options reconciler live => exact (rewrites_update _ _ _).evolves
  | _ => exact (glances_after rfl).evolves

theorem evolves_serve (requests : List (Request K V)) : d.Evolves (d.serve requests) := by
  induction requests generalizing d with
  | nil => exact .refl
  | cons request rest ih => exact (evolves_after request).trans ih

theorem WellStaged.after (staged : d.WellStaged) (request : Request K V) :
    (d.after request).WellStaged :=
  staged.evolves (evolves_after request)

end Draft

end RevisionStore
