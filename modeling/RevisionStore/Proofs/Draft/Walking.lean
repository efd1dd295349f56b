import RevisionStore.Proofs.Draft.Conflicts
import RevisionStore.Proofs.Draft.Requests

/-!
# Walks over a draft

What a cursor has still to come to is a suffix of the keys of the draft (`Cursor.remaining`). A
step takes the first of these keys off (`Cursor.head?_remaining`, `Cursor.remaining_advance`), and
reads and in-place edits leave them all alone, since they change neither the base of a draft nor
its additions and removals.

The version of a draft tells such requests from the others: it stays when a draft stays calm
(`Draft.Calm`), and grows when something is staged or a refresh overwrites a key.
-/

namespace RevisionStore

variable {K V : Type} [DecidableEq K]

/-! ## What is left of a walk -/

namespace Cursor

/-- The keys that a cursor has still to come to. -/
def remaining (c : Cursor) (d : Draft K V) : List K :=
  (d.base.keys.drop c.basePos).filter (fun k => !d.isRemoved k) ++ d.added.drop c.addedPos

variable {c : Cursor} {d d' : Draft K V} {fetch : K → Except Failure (Option V)} {k : K} {v : V}

theorem remaining_cursor (d : Draft K V) : d.cursor.remaining d = d.keys := by
  simp [remaining, Draft.cursor, Draft.keys]

theorem remaining_congr (same : d.SameKeys d') : c.remaining d' = c.remaining d := by
  simp only [remaining, Draft.isRemoved, same.base, same.added, same.removed]

/-- The keys of the base that are ahead may begin with removed ones, which a step skips. -/
theorem filter_dropWhile (ahead : List K) :
    (ahead.dropWhile fun k => d.isRemoved k).filter (fun k => !d.isRemoved k) =
      ahead.filter fun k => !d.isRemoved k := by
  induction ahead with
  | nil => rfl
  | cons k ahead ih => by_cases gone : d.isRemoved k = true <;> simp [gone, ih]

theorem drop_skipped (d : Draft K V) (ahead : List K) :
    ahead.drop (ahead.takeWhile fun k => d.isRemoved k).length =
      ahead.dropWhile fun k => d.isRemoved k := by
  have split := List.takeWhile_append_dropWhile (p := fun k => d.isRemoved k) (l := ahead)
  calc ahead.drop (ahead.takeWhile fun k => d.isRemoved k).length
    _ = (ahead.takeWhile (fun k => d.isRemoved k) ++
          ahead.dropWhile fun k => d.isRemoved k).drop
          (ahead.takeWhile fun k => d.isRemoved k).length := by rw [split]
    _ = ahead.dropWhile fun k => d.isRemoved k := List.drop_left

theorem stamp_advance (c : Cursor) (d : Draft K V) : (c.advance d).2.stamp = c.stamp := by
  simp only [advance]
  repeat' split
  all_goals rfl

/-- A step comes to the first key that is left, and leaves the others. -/
theorem advance_remaining (c : Cursor) (d : Draft K V) :
    (c.advance d).1 = (c.remaining d).head? ∧
      (c.advance d).2.remaining d = (c.remaining d).tail := by
  have ahead := filter_dropWhile (d := d) (d.base.keys.drop c.basePos)
  have skipped := drop_skipped d (d.base.keys.drop c.basePos)
  rw [List.drop_drop] at skipped
  simp only [advance]
  split
  next k rest found =>
    -- the next key of the base is not removed
    have kept : d.isRemoved k = false := by
      have first := List.head?_dropWhile_not (fun k => d.isRemoved k) (d.base.keys.drop c.basePos)
      simpa [found] using first
    rw [found] at ahead skipped
    have passed : d.base.keys.drop (c.basePos +
        ((d.base.keys.drop c.basePos).takeWhile fun k => d.isRemoved k).length + 1) = rest := by
      rw [← List.tail_drop, skipped, List.tail_cons]
    simp [remaining, ← ahead, kept, passed]
  next found =>
    rw [found] at ahead skipped
    split
    next k next =>
      have additions : d.added.drop c.addedPos = k :: d.added.drop (c.addedPos + 1) := by
        obtain ⟨bound, rfl⟩ := List.getElem?_eq_some_iff.1 next
        exact List.drop_eq_getElem_cons bound
      simp [remaining, ← ahead, skipped, additions]
    next nothing =>
      have beyond := List.drop_eq_nil_of_le (List.getElem?_eq_none_iff.1 nothing)
      simp [remaining, ← ahead, skipped, beyond]

/-! ## Steps -/

/-- A cursor does not step over a draft whose version is not the one it was made at. -/
theorem next_of_stale (stale : d.version ≠ c.stamp) :
    c.next d fetch = (.error (.refused .changedUnderCursor), c, d) :=
  if_neg stale

/-- A cursor moves on before it reads, whether or not it can read then. -/
theorem next_cursor (fresh : d.version = c.stamp) : (c.next d fetch).2.1 = (c.advance d).2 := by
  simp only [next, if_pos fresh]
  repeat' split
  all_goals simp_all

/-- At the end a step stays there. -/
theorem next_of_remaining_nil (fresh : d.version = c.stamp) (nothing : c.remaining d = []) :
    (c.next d fetch).1 = .ok none ∧ (c.next d fetch).2.2 = d := by
  have stops := (c.advance_remaining d).1
  rw [nothing, List.head?_nil] at stops
  simp only [next, if_pos fresh]
  split
  next => exact ⟨rfl, rfl⟩
  next advanced => simp [advanced] at stops

/-- A step that reads a value answers with it and its key. -/
theorem next_of_read (fresh : d.version = c.stamp) {rest : List K}
    (ahead : c.remaining d = k :: rest) (read : d.read fetch k = .ok (some v, d')) :
    (c.next d fetch).1 = .ok (some (k, v)) ∧ (c.next d fetch).2.2 = d' := by
  have comes := (c.advance_remaining d).1
  rw [ahead, List.head?_cons] at comes
  simp only [next, if_pos fresh]
  split
  next advanced => simp [advanced] at comes
  next k' c' advanced =>
    obtain rfl : k' = k := by simpa [advanced] using comes
    simp [read]

end Cursor

/-! ## Reads that do not fail -/

namespace Draft

variable {d d' : Draft K V} {fetch : K → Except Failure (Option V)} {k : K} {v : V}

/-- What was read is held from then on. -/
theorem local?_of_read (read : d.read fetch k = .ok (some v, d')) : d'.local? k = some v := by
  simp only [Draft.read] at read
  split at read
  next => cases read
  next =>
    split at read
    next held => cases read; exact held
    next unheld =>
      split at read
      next =>
        split at read
        next => cases read
        next => cases read
        next =>
          cases read
          have absent : d.held.contains k = false := by simpa [Dict.contains, local?] using unheld
          simp [holdRead, local?, absent]
      next => cases read

/-- If the keys of the base can be fetched, the keys of the draft can be read. -/
theorem WellStaged.exists_read (staged : d.WellStaged)
    (fetches : ∀ k ∈ d.base.keys, ∃ v, fetch k = .ok (some v)) (member : k ∈ d.keys) :
    ∃ v d', d.read fetch k = .ok (some v, d') := by
  have visible : k ∈ d.base.keys ∧ k ∉ d.removed ∨ k ∈ d.added := by
    simpa [keys, isRemoved] using member
  have kept : k ∉ d.removed := visible.elim And.right fun added removed =>
    staged.not_added k removed added
  cases held : d.local? k with
  | some v => exact ⟨v, d, by simp [Draft.read, isRemoved, kept, held]⟩
  | none =>
    obtain ⟨listed, _⟩ | added := visible
    · obtain ⟨v, fetched⟩ := fetches k listed
      exact ⟨v, d.holdRead k v, by simp [Draft.read, isRemoved, kept, held, listed, fetched]⟩
    · simpa [held] using staged.added_held k added

/-- The key that a step comes to is added or touched from then on. -/
theorem WellStaged.staged_after_step (staged : d.WellStaged) {c : Cursor}
    (answer : (c.next d fetch).1 = .ok (some (k, v)))
    (held : (c.next d fetch).2.2.local? k = some v) (value? : Option V) :
    k ∈ (d.after (.step fetch c value?)).added ∨ k ∈ (d.after (.step fetch c value?)).touched := by
  have holds : ((c.next d fetch).2.2.local? k).isSome = true := by simp [held]
  have stays := (staged.evolves (evolves_next c)).held_staged k holds
  simp only [Draft.after, answer]
  cases value? with
  | none => exact stays
  | some w =>
    simp only [Draft.overwrite]
    split <;> exact stays

/-! ## Versions -/

/-- The draft has its version and the keys that are seen through it; what it has read and holds
may be different. -/
structure Calm (d d' : Draft K V) : Prop extends SameKeys d d' where
  version : d'.version = d.version

omit [DecidableEq K] in
theorem Calm.refl (d : Draft K V) : d.Calm d :=
  ⟨.refl d, rfl⟩

omit [DecidableEq K] in
theorem Calm.trans {d'' : Draft K V} (first : d.Calm d') (second : d'.Calm d'') : d.Calm d'' :=
  ⟨first.toSameKeys.trans second.toSameKeys, second.version.trans first.version⟩

theorem SameKeys.keys (same : d.SameKeys d') : d'.keys = d.keys := by
  simp only [Draft.keys, isRemoved, same.base, same.added, same.removed]

theorem version_overwrite (d : Draft K V) (k : K) (v : V) :
    (d.overwrite k v).version = d.version := by
  unfold Draft.overwrite
  split <;> rfl

theorem Glances.calm (glances : Glances d d') : d.Calm d' := by
  refine ⟨glances.sameKeys, ?_⟩
  induction glances with
  | refl => rfl
  | tail _ glance ih =>
    cases glance with
    | hold => exact ih
    | overwrite k v => rw [version_overwrite, ih]

theorem version_add (d : Draft K V) (k : K) (v : V) : (d.add k v).version = d.version + 1 := by
  unfold Draft.add
  split <;> rfl

theorem version_of_replace (replaced : d.replace k v = .ok d') : d'.version = d.version + 1 := by
  cases replacement_of_replace replaced <;> rfl

theorem version_of_remove_true (removed : d.remove k = .ok (true, d')) :
    d'.version = d.version + 1 := by
  cases removal_of_remove removed <;> rfl

theorem Rewrites.version_le (rewrites : Rewrites d d') : d.version ≤ d'.version := by
  induction rewrites with
  | refl => exact Nat.le_refl _
  | tail _ rewrite ih =>
    cases rewrite with
    | refresh => exact Nat.le_succ_of_le ih

/-- What something makes of a draft: if it bumps the version, the version grows, and otherwise the
draft stays calm. -/
inductive Reacts (d d' : Draft K V) (bumps : Prop) : Prop
  | bumped (does : bumps) (grows : d.version < d'.version)
  | calm (spares : ¬ bumps) (calm : d.Calm d')

omit [DecidableEq K] in
theorem Reacts.congr {bumps bumps' : Prop} (reacts : d.Reacts d' bumps) (same : bumps' ↔ bumps) :
    d.Reacts d' bumps' :=
  propext same ▸ reacts

omit [DecidableEq K] in
theorem Reacts.trans {d'' : Draft K V} {bumps bumps' : Prop} (first : d.Reacts d' bumps)
    (second : d'.Reacts d'' bumps') : d.Reacts d'' (bumps ∨ bumps') := by
  cases first with
  | bumped does grows =>
    cases second with
    | bumped does' grows' => exact .bumped (.inl does) (Nat.lt_trans grows grows')
    | calm spares' calm' => exact .bumped (.inl does) (calm'.version ▸ grows)
  | calm spares calm =>
    cases second with
    | bumped does' grows' => exact .bumped (.inr does') (calm.version ▸ grows')
    | calm spares' calm' => exact .calm (not_or.2 ⟨spares, spares'⟩) (calm.trans calm')

omit [DecidableEq K] in
/-- The version says whether there was a bump. -/
theorem Reacts.version_eq_iff {bumps : Prop} (reacts : d.Reacts d' bumps) :
    d'.version = d.version ↔ ¬ bumps := by
  cases reacts with
  | bumped does grows =>
    exact ⟨fun same => absurd same (Nat.ne_of_gt grows), fun spares => absurd does spares⟩
  | calm spares calm => exact ⟨fun _ => spares, fun _ => calm.version⟩

/-- In some mode a refresh overwrites what is held for a key that it is offered a value for. -/
def Refreshable (d : Draft K V) (mode : Refresh.Mode) (k : K) : Prop :=
  k ∈ d.touched ∧ (mode = .replace ∨ mode = .merge ∧ (d.local? k).isSome = true)

variable {mode : Refresh.Mode} {reconciler : Reconciler V}

/-- A reconciler that never gives up has a value for a key that is refreshable, and for no other. -/
theorem refreshed?_cases (total : reconciler.Total) (d : Draft K V) (mode : Refresh.Mode) (k : K)
    (v : V) : (d.Refreshable mode k ∧ ∃ w, d.refreshed? mode reconciler k v = .ok (some w)) ∨
      ¬ d.Refreshable mode k ∧ d.refreshed? mode reconciler k v = .ok none := by
  by_cases touched : k ∈ d.touched
  · cases mode with
    | replace => exact .inl ⟨⟨touched, .inl rfl⟩, v, by simp [refreshed?, touched]⟩
    | ignore => exact .inr ⟨by simp [Refreshable], by simp [refreshed?]⟩
    | merge =>
      cases held : d.local? k with
      | none => exact .inr ⟨by simp [Refreshable, held], by simp [refreshed?, held]⟩
      | some own =>
        obtain ⟨m, merges⟩ := total.merged v own
        refine .inl ⟨⟨touched, .inr ⟨rfl, by simp [held]⟩⟩, m, ?_⟩
        simp [refreshed?, touched, held, merges, Except.map]
  · exact .inr ⟨fun refreshable => touched refreshable.1, by simp [refreshed?, isModified, touched]⟩

/-- Refreshing some keys bumps the version if one of them is refreshable, and only then. -/
theorem version_refreshAll (total : reconciler.Total) (found : List (K × V)) (d : Draft K V) :
    (refreshAll mode reconciler found d).2.version = d.version ↔
      ∀ entry ∈ found, ¬ d.Refreshable mode entry.1 := by
  induction found with
  | nil => simp [refreshAll]
  | cons entry found ih =>
    obtain ⟨k, v⟩ := entry
    obtain ⟨refreshable, w, refreshed⟩ | ⟨spared, refreshed⟩ :=
      refreshed?_cases total d mode k v
    · have grows : d.version + 1 ≤
          (refreshAll mode reconciler found (d.setLocal k w)).2.version :=
        (rewrites_refreshAll (d := d.setLocal k w) mode reconciler found).version_le
      have bumped : (refreshAll mode reconciler ((k, v) :: found) d).2.version ≠ d.version := by
        simp only [refreshAll, refreshed]
        omega
      simp [bumped, refreshable]
    · simp [refreshAll, refreshed, ih, spared]

/-- A refresh with a reconciler that never gives up bumps the version if it succeeds and a key is
refreshable for which there is a value. -/
theorem reacts_update {value? : K → Option V} (options : Refresh.Options)
    {live : List K → Except Failure (List (K × V))} (total : reconciler.Total)
    (asked : live d.staged = .ok (pairsOf value? d.staged)) :
    d.Reacts (d.update options reconciler live).2 ((d.update options reconciler live).1 = .ok () ∧
      ∃ k, (value? k).isSome = true ∧ d.Refreshable options.mode k) := by
  have updates := d.updates_update options reconciler live
  have rewrites := d.rewrites_update options reconciler live
  generalize d.update options reconciler live = outcome at updates rewrites
  cases updates with
  | idle nothing =>
    have untouched := touched_eq_nil_of_staged nothing
    exact .calm (by simp [Refreshable, untouched]) (.refl d)
  | unserved failed =>
    rw [asked] at failed
    cases failed
  | refused => exact .calm (by simp) (.refl d)
  | @refreshed found offered peaceful =>
    obtain rfl := Except.ok.inj (asked.symm.trans offered)
    have kept : (refreshAll options.mode reconciler (pairsOf value? d.staged) d).2.version =
      d.version ↔ _ := version_refreshAll total (pairsOf value? d.staged) d
    by_cases refreshes : ∃ k, (value? k).isSome = true ∧ d.Refreshable options.mode k
    · obtain ⟨k, valued, refreshable⟩ := refreshes
      obtain ⟨v, valued⟩ := Option.isSome_iff_exists.1 valued
      have staged : k ∈ d.staged := by simp [Draft.staged, refreshable.1]
      have bumped : (refreshAll options.mode reconciler (pairsOf value? d.staged) d).2.version ≠
          d.version :=
        fun same => kept.1 same (k, v) (mem_pairsOf.2 ⟨staged, valued⟩) refreshable
      exact .bumped ⟨refreshAll_of_total total _, k, by simp [valued], refreshable⟩
        (Nat.lt_of_le_of_ne rewrites.version_le (Ne.symm bumped))
    · have spared : (refreshAll options.mode reconciler (pairsOf value? d.staged) d).2.version =
          d.version := by
        refine kept.2 fun entry member refreshable => refreshes ⟨entry.1, ?_, refreshable⟩
        simp [(mem_pairsOf.1 member).2]
      have sameKeys := (Refreshed.of_rewrites rewrites).toSameKeys
      exact .calm (fun both => refreshes both.2) ⟨sameKeys, spared⟩

end Draft

end RevisionStore
