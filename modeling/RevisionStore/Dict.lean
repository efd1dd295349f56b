/-!
# Finite maps as association lists

A `Dict K V` is a list of bindings in which the first binding of a key counts.
The three operations are `get?`, `put` and `erase`; everything else in the
library reads a map through `get?`, so the lemmas here say what each operation
does to that one view.

`put` overwrites the binding where it stands and appends a new key at the end,
so a map built by `put` and `erase` from `empty` binds no key twice, and its
`size` counts keys.
-/

namespace RevisionStore

/-- A finite map from `K` to `V`, kept as a list of bindings. -/
structure Dict (K : Type) (V : Type) where
  entries : List (K × V)
  deriving Repr

namespace Dict

variable {K V : Type} [DecidableEq K]

def empty : Dict K V := ⟨[]⟩

instance : Inhabited (Dict K V) := ⟨empty⟩

/-- The value of the first binding of `k`, if there is one. -/
def get? (d : Dict K V) (k : K) : Option V :=
  d.entries.lookup k

def contains (d : Dict K V) (k : K) : Bool :=
  (d.get? k).isSome

/-- Overwrite the first binding of `k`, or append one to the list. -/
def putEntry (k : K) (v : V) : List (K × V) → List (K × V)
  | [] => [(k, v)]
  | (k', v') :: rest => if k = k' then (k, v) :: rest else (k', v') :: putEntry k v rest

/-- Bind `k` to `v`, keeping the place of a key that is already bound. -/
def put (d : Dict K V) (k : K) (v : V) : Dict K V :=
  ⟨putEntry k v d.entries⟩

/-- Forget every binding of `k`. -/
def erase (d : Dict K V) (k : K) : Dict K V :=
  ⟨d.entries.filter fun e => e.1 ≠ k⟩

def keys (d : Dict K V) : List K :=
  d.entries.map Prod.fst

def size (d : Dict K V) : Nat :=
  d.entries.length

/-- Bind every pair of a list in turn; a later pair for a key wins. -/
def ofList (pairs : List (K × V)) : Dict K V :=
  pairs.foldl (fun d e => d.put e.1 e.2) empty

/-! ## What the operations do to the view -/

@[simp] theorem get?_empty (k : K) : (empty : Dict K V).get? k = none := rfl

theorem get?_cons (k' : K) (v : V) (rest : List (K × V)) (k : K) :
    (⟨(k', v) :: rest⟩ : Dict K V).get? k =
      if k = k' then some v else (⟨rest⟩ : Dict K V).get? k := by
  by_cases h : k = k'
  · subst h; simp [get?]
  · have hb : (k == k') = false := by simpa using h
    simp only [get?, List.lookup_cons, hb, h, if_false]

theorem get?_put (d : Dict K V) (k : K) (v : V) (k' : K) :
    (d.put k v).get? k' = if k' = k then some v else d.get? k' := by
  obtain ⟨entries⟩ := d
  induction entries with
  | nil => simp [put, putEntry, get?_cons]
  | cons e rest ih =>
    obtain ⟨kₑ, vₑ⟩ := e
    simp only [put] at ih
    by_cases h : k = kₑ
    · subst h
      simp only [put, putEntry, if_true, get?_cons]
      split <;> rfl
    · simp only [put, putEntry, h, if_false, get?_cons, ih]
      by_cases h₁ : k' = kₑ
      · subst h₁
        simp [Ne.symm h]
      · simp [h₁]

@[simp] theorem get?_put_self (d : Dict K V) (k : K) (v : V) : (d.put k v).get? k = some v := by
  simp [get?_put]

theorem get?_put_of_ne (d : Dict K V) (v : V) {k k' : K} (h : k' ≠ k) :
    (d.put k v).get? k' = d.get? k' := by
  simp [get?_put, h]

/-- Binding a key to the value it has changes nothing. -/
theorem put_of_get? {d : Dict K V} {k : K} {v : V} (bound : d.get? k = some v) : d.put k v = d := by
  obtain ⟨entries⟩ := d
  induction entries with
  | nil => cases bound
  | cons e rest ih =>
    obtain ⟨kₑ, vₑ⟩ := e
    rw [get?_cons] at bound
    simp only [put, mk.injEq] at ih
    by_cases same : k = kₑ
    · simp only [same, if_true, Option.some.injEq] at bound
      simp [put, putEntry, same, bound]
    · rw [if_neg same] at bound
      simp [put, putEntry, same, ih bound]

theorem get?_erase (d : Dict K V) (k k' : K) :
    (d.erase k).get? k' = if k' = k then none else d.get? k' := by
  obtain ⟨entries⟩ := d
  induction entries with
  | nil => simp [erase, get?]
  | cons e rest ih =>
    obtain ⟨kₑ, vₑ⟩ := e
    simp only [erase] at ih
    by_cases h : kₑ = k
    · subst h
      simp only [erase, List.filter_cons, ne_eq, not_true_eq_false, decide_false,
        Bool.false_eq_true, if_false, ih, get?_cons]
      split <;> rfl
    · simp only [erase, List.filter_cons, ne_eq, h, not_false_eq_true, decide_true, if_true,
        get?_cons, ih]
      by_cases h₁ : k' = kₑ
      · simp [h₁, h]
      · simp [h₁]

@[simp] theorem get?_erase_self (d : Dict K V) (k : K) : (d.erase k).get? k = none := by
  simp [get?_erase]

theorem get?_erase_of_ne (d : Dict K V) {k k' : K} (h : k' ≠ k) :
    (d.erase k).get? k' = d.get? k' := by
  simp [get?_erase, h]

end Dict

end RevisionStore
