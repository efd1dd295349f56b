import RevisionStore.Store.Commit
import RevisionStore.Proofs.Draft.Staging
import RevisionStore.Proofs.Store.WellKept
import RevisionStore.Proofs.Timeline
import Mathlib.Data.List.Forall2

/-!
# What a commit does to a store

A commit succeeds exactly when its draft is `Ready`: added keys are not live, changed keys
are, and every value can be cloned and merged. Then the three lists of the draft do not
overlap, so each key gets at most one change, and what is filed under a key afterwards is
its history with the change that `Commit.change?` says (`Extended`). That record is all
that the invariants of stores and sessions need to know about a commit.
-/

namespace RevisionStore

/-- A traversal succeeds when each of its steps does. -/
theorem mapM_eq_ok_iff {α β ε : Type} {f : α → Except ε β} {l : List α} {l' : List β} :
    l.mapM f = .ok l' ↔ List.Forall₂ (fun a b => f a = .ok b) l l' := by
  induction l generalizing l' with
  | nil => cases l' <;> simp [pure, Except.pure]
  | cons a l ih =>
    rw [List.mapM_cons, List.forall₂_cons_left_iff]
    cases first : f a with
    | error e => simp [bind, Except.bind]
    | ok b =>
      cases rest : l.mapM f with
      | error e =>
        have never : ∀ bs, ¬ List.Forall₂ (fun a b => f a = .ok b) l bs := by
          intro bs all
          rw [ih.2 all] at rest
          cases rest
        simp [bind, Except.bind, never]
      | ok bs =>
        simp only [bind, Except.bind, pure, Except.pure, Except.ok.injEq]
        constructor
        · rintro rfl
          exact ⟨b, bs, rfl, ih.1 rest, rfl⟩
        · rintro ⟨b', bs', rfl, all, rfl⟩
          rw [ih.2 all] at rest
          cases rest
          rfl

namespace Dict

variable {K V α : Type} [DecidableEq K] {step : Dict K V → α → Dict K V} {key : α → K}

/-- A fold of writes made one for each of some keys does its one write to each of these keys,
and nothing to the others. -/
theorem get?_foldl_of_forall₂ {R : K → α → Prop} (keyed : ∀ k a, R k a → key a = k)
    (effect : α → Option V → Option V)
    (acts : ∀ d a k, (step d a).get? k = if k = key a then effect a (d.get? k) else d.get? k)
    {keys : List K} {l : List α} (all : List.Forall₂ R keys l) (distinct : keys.Nodup)
    (d : Dict K V) (k : K) :
    (k ∈ keys → ∃ a, R k a ∧ (l.foldl step d).get? k = effect a (d.get? k)) ∧
      (k ∉ keys → (l.foldl step d).get? k = d.get? k) := by
  induction all generalizing d with
  | nil => simp
  | @cons k' a keys l related all ih =>
    obtain ⟨once, distinct⟩ := List.nodup_cons.1 distinct
    obtain ⟨there, elsewhere⟩ := ih distinct (step d a)
    have key : key a = k' := keyed k' a related
    rw [List.foldl_cons]
    by_cases same : k = k'
    · -- the first write is the one to this key, and no later one is
      subst same
      refine ⟨fun _ => ⟨a, related, ?_⟩, fun absent => absurd List.mem_cons_self absent⟩
      rw [elsewhere once, acts, if_pos key.symm]
    · have untouched : (step d a).get? k = d.get? k := by rw [acts, key, if_neg same]
      rw [untouched] at there elsewhere
      constructor
      · intro member
        exact there ((List.mem_cons.1 member).resolve_left same)
      · intro absent
        exact elsewhere fun member => absent (List.mem_cons_of_mem _ member)

end Dict

namespace Reconciler

variable {V : Type} {reconciler : Reconciler V} {v w m : V}

theorem cloned_eq_ok_iff : reconciler.cloned v = .ok w ↔ reconciler.clone v = .ok w := by
  simp only [cloned]
  cases reconciler.clone v <;> simp [Except.mapError]

theorem merged_eq_ok_iff : reconciler.merged v w = .ok m ↔ reconciler.merge v w = .ok m := by
  simp only [merged]
  cases reconciler.merge v w <;> simp [Except.mapError]

end Reconciler

namespace Store

variable {K V : Type} [DecidableEq K] {s s' : Store K V} {reconciler : Reconciler V}
  {d : Draft K V} {k : K} {v : V} {now : Nat} {p : Publication K V}

/-! ## When a commit succeeds -/

/-- What has to hold for a draft to be published as `p`. -/
structure Ready (s : Store K V) (reconciler : Reconciler V) (d : Draft K V)
    (p : Publication K V) : Prop where
  fresh : ∀ k ∈ d.added, s.isLive k = false
  live : ∀ k, k ∈ d.touched ∨ k ∈ d.removed → s.isLive k = true
  added : List.Forall₂ (fun k e => addition reconciler d k = .ok e) d.added p.added
  modified : List.Forall₂ (fun k e => s.modification reconciler d k = .ok e) d.touched p.modified
  removed : p.removed = d.removed
  keys : ∃ roster, s.roster? s.revision = some roster ∧
    p.keys = roster.keys.filter (fun k => !d.isRemoved k) ++ d.added

theorem validate_eq_ok_iff :
    s.validate d = .ok () ↔
      (∀ k ∈ d.added, s.isLive k = false) ∧
        ∀ k, k ∈ d.touched ∨ k ∈ d.removed → s.isLive k = true := by
  simp only [validate]
  by_cases taken : (d.added.any fun k => s.isLive k) = true
  · rw [if_pos taken]
    obtain ⟨k, member, live⟩ := List.any_eq_true.1 taken
    refine ⟨fun impossible => (nomatch impossible), fun ⟨fresh, _⟩ => ?_⟩
    rw [fresh k member] at live
    cases live
  · rw [if_neg taken]
    by_cases missing : ((d.touched ++ d.removed).any fun k => !s.isLive k) = true
    · rw [if_pos missing]
      obtain ⟨k, member, dead⟩ := List.any_eq_true.1 missing
      refine ⟨fun impossible => (nomatch impossible), fun ⟨_, live⟩ => ?_⟩
      rw [live k (List.mem_append.1 member)] at dead
      cases dead
    · rw [if_neg missing]
      have fresh : ∀ k ∈ d.added, s.isLive k = false := by simpa using taken
      have live : ∀ k, k ∈ d.touched ∨ k ∈ d.removed → s.isLive k = true := by
        simpa [or_imp, forall_and] using missing
      exact ⟨fun _ => ⟨fresh, live⟩, fun _ => rfl⟩

omit [DecidableEq K] in
theorem currentRoster_eq_ok_iff {roster : Roster K} :
    s.currentRoster = .ok roster ↔ s.roster? s.revision = some roster := by
  simp only [currentRoster]
  cases s.roster? s.revision <;> simp

theorem prepare_eq_ok_iff : s.prepare reconciler d = .ok p ↔ s.Ready reconciler d p := by
  obtain ⟨addedEntries, modifiedEntries, removedKeys, keys⟩ := p
  simp only [prepare]
  constructor
  · intro prepared
    cases valid : s.validate d with
    | error failure => simp [valid] at prepared
    | ok u =>
      cases added : d.added.mapM (addition reconciler d) with
      | error failure => simp [valid, added] at prepared
      | ok entries =>
        cases modified : d.touched.mapM (s.modification reconciler d) with
        | error failure => simp [valid, added, modified] at prepared
        | ok entries' =>
          cases current : s.currentRoster with
          | error failure => simp [valid, added, modified, current] at prepared
          | ok roster =>
            simp only [valid, added, modified, current, Except.ok.injEq, Publication.mk.injEq]
              at prepared
            obtain ⟨rfl, rfl, rfl, rfl⟩ := prepared
            obtain ⟨fresh, live⟩ := validate_eq_ok_iff.1 valid
            exact ⟨fresh, live, mapM_eq_ok_iff.1 added, mapM_eq_ok_iff.1 modified, rfl,
              roster, currentRoster_eq_ok_iff.1 current, rfl⟩
  · rintro ⟨fresh, live, added, modified, removed, roster, current, listed⟩
    simp only at added modified removed listed
    rw [validate_eq_ok_iff.2 ⟨fresh, live⟩, mapM_eq_ok_iff.2 added, mapM_eq_ok_iff.2 modified,
      currentRoster_eq_ok_iff.2 current, removed, listed]

theorem addition_eq_ok_iff {e : K × V} :
    addition reconciler d k = .ok e ↔
      ∃ own clone, d.local? k = some own ∧ reconciler.clone own = .ok clone ∧ e = (k, clone) := by
  simp only [addition]
  cases held : d.local? k with
  | none => simp
  | some own =>
    cases cloned : reconciler.clone own with
    | error fault => simp [Reconciler.cloned, cloned, Except.mapError, Except.map]
    | ok clone => simp [Reconciler.cloned, cloned, Except.mapError, Except.map, eq_comm]

theorem modification_eq_ok_iff {e : K × V} :
    s.modification reconciler d k = .ok e ↔
      ∃ own repository merged clone, d.local? k = some own ∧ s.leading? k = some repository ∧
        reconciler.merge repository own = .ok merged ∧ reconciler.clone merged = .ok clone ∧
          e = (k, clone) := by
  simp only [modification]
  cases held : d.local? k with
  | none => simp
  | some own =>
    cases leading : s.leading? k with
    | none => simp
    | some repository =>
      cases merged : reconciler.merge repository own with
      | error fault => simp [Reconciler.merged, merged, Except.mapError]
      | ok value =>
        cases cloned : reconciler.clone value with
        | error fault =>
          simp [Reconciler.merged, Reconciler.cloned, merged, cloned, Except.mapError, Except.map]
        | ok clone =>
          simp [Reconciler.merged, Reconciler.cloned, merged, cloned, Except.mapError, Except.map,
            eq_comm]

/-! ## What a commit writes -/

section Writing

variable (next : Revision) (histories : Dict K (History K V))

theorem get?_recordAdded (e : K × V) (k : K) :
    (recordAdded next histories e).get? k =
      if k = e.1 then some (((histories.get? k).getD (.empty e.1)).recordAdded next e.2)
      else histories.get? k := by
  by_cases same : k = e.1
  · simp [recordAdded, same]
  · simp [recordAdded, Dict.get?_put, same]

theorem get?_recordModified (e : K × V) (k : K) :
    (recordModified next histories e).get? k =
      if k = e.1 then (histories.get? k).map (·.recordModified next e.2)
      else histories.get? k := by
  simp only [recordModified]
  by_cases same : k = e.1
  · subst same
    cases filed : histories.get? e.1 <;> simp [filed]
  · cases filed : histories.get? e.1 <;> simp [same, Dict.get?_put]

theorem get?_recordDeleted (k' k : K) :
    (recordDeleted next histories k').get? k =
      if k = k' then (histories.get? k).map (·.recordDeleted next) else histories.get? k := by
  simp only [recordDeleted]
  by_cases same : k = k'
  · subst same
    cases filed : histories.get? k <;> simp [filed]
  · cases filed : histories.get? k' <;> simp [same, Dict.get?_put]

theorem get?_foldl_recordAdded {keys : List K} {entries : List (K × V)}
    (all : List.Forall₂ (fun k e => addition reconciler d k = .ok e) keys entries)
    (distinct : keys.Nodup) (k : K) :
    (k ∈ keys → ∃ e, addition reconciler d k = .ok e ∧
      (entries.foldl (recordAdded next) histories).get? k =
        some (((histories.get? k).getD (.empty e.1)).recordAdded next e.2)) ∧
      (k ∉ keys → (entries.foldl (recordAdded next) histories).get? k = histories.get? k) := by
  refine Dict.get?_foldl_of_forall₂ (fun k e made => ?_)
    (fun e h => some ((h.getD (.empty e.1)).recordAdded next e.2)) (get?_recordAdded next) all
    distinct histories k
  obtain ⟨_, _, _, _, rfl⟩ := addition_eq_ok_iff.1 made
  rfl

theorem get?_foldl_recordModified {keys : List K} {entries : List (K × V)}
    (all : List.Forall₂ (fun k e => s.modification reconciler d k = .ok e) keys entries)
    (distinct : keys.Nodup) (k : K) :
    (k ∈ keys → ∃ e, s.modification reconciler d k = .ok e ∧
      (entries.foldl (recordModified next) histories).get? k =
        (histories.get? k).map (·.recordModified next e.2)) ∧
      (k ∉ keys → (entries.foldl (recordModified next) histories).get? k = histories.get? k) := by
  refine Dict.get?_foldl_of_forall₂ (fun k e made => ?_)
    (fun e h => h.map (·.recordModified next e.2)) (get?_recordModified next) all distinct
    histories k
  obtain ⟨_, _, _, _, _, _, _, _, rfl⟩ := modification_eq_ok_iff.1 made
  rfl

theorem get?_foldl_recordDeleted {keys : List K} (distinct : keys.Nodup) (k : K) :
    (k ∈ keys → (keys.foldl (recordDeleted next) histories).get? k =
      (histories.get? k).map (·.recordDeleted next)) ∧
      (k ∉ keys → (keys.foldl (recordDeleted next) histories).get? k = histories.get? k) := by
  -- the keys are their own entries
  have all : List.Forall₂ (fun k k' => k' = k) keys keys := List.forall₂_same.2 fun _ _ => rfl
  obtain ⟨there, elsewhere⟩ := Dict.get?_foldl_of_forall₂ (fun _ _ same => same)
    (fun _ h => h.map (·.recordDeleted next)) (get?_recordDeleted next) all distinct histories k
  refine ⟨fun member => ?_, elsewhere⟩
  obtain ⟨_, _, written⟩ := there member
  exact written

end Writing

/-- What a successful commit `c` makes of a store. -/
structure Extended (s : Store K V) (c : Commit K V) (s' : Store K V) : Prop where
  revision : s'.revision = s.revision + 1
  active : s'.active = s.active
  nextCheckout : s'.nextCheckout = s.nextCheckout
  lookup : s'.lookup = s.lookup
  -- a roster is added: that of the revision before, less the removed keys, and the added keys
  rosters : ∃ roster now, s.roster? s.revision = some roster ∧
    s'.rosters = s.rosters ++
      [⟨s.revision + 1, now, roster.keys.filter (fun k => !c.draft.isRemoved k) ++ c.draft.added⟩]
  -- every key the commit changes gets that one change at the end of its history
  histories : ∀ k, s'.histories.get? k =
    match c.change? s.leading? (s.revision + 1) k with
    | none => s.histories.get? k
    | some change => some (((s.histories.get? k).getD (.empty k)).insert change)
  coherent : ∀ k change, c.change? s.leading? (s.revision + 1) k = some change → change.Coherent
  -- added keys were not live
  fresh : ∀ k ∈ c.draft.added, s.isLive k = false
  -- modified and removed keys were live
  live : ∀ k, k ∈ c.draft.touched ∨ k ∈ c.draft.removed → s.isLive k = true

namespace Ready

/-- An added key of a ready draft is not touched. -/
theorem not_touched_of_added (ready : s.Ready reconciler d p) (added : k ∈ d.added) :
    k ∉ d.touched := by
  intro touched
  have live := ready.live k (.inl touched)
  rw [ready.fresh k added] at live
  cases live

/-- What the three lists of a ready draft write under a key: they do not overlap, so that at
most one of them writes anything. -/
theorem get?_publish (ready : s.Ready reconciler d p) (now : Nat) (staged : d.WellStaged) (k : K) :
    let filed := (s.publish now p).histories.get? k
    (k ∈ d.removed → filed = (s.histories.get? k).map (·.recordDeleted (s.revision + 1))) ∧
      (k ∈ d.added → ∃ e, addition reconciler d k = .ok e ∧
        filed = some (((s.histories.get? k).getD (.empty e.1)).recordAdded (s.revision + 1) e.2)) ∧
      (k ∈ d.touched → ∃ e, s.modification reconciler d k = .ok e ∧
        filed = (s.histories.get? k).map (·.recordModified (s.revision + 1) e.2)) ∧
      (k ∉ d.removed → k ∉ d.added → k ∉ d.touched → filed = s.histories.get? k) := by
  intro filed
  obtain ⟨addedThere, addedElse⟩ :=
    get?_foldl_recordAdded (s.revision + 1) s.histories ready.added staged.added_nodup k
  obtain ⟨modifiedThere, modifiedElse⟩ :=
    get?_foldl_recordModified (s.revision + 1)
      (p.added.foldl (recordAdded (s.revision + 1)) s.histories) ready.modified
      staged.touched_nodup k
  obtain ⟨removedThere, removedElse⟩ :=
    get?_foldl_recordDeleted (s.revision + 1)
      (p.modified.foldl (recordModified (s.revision + 1))
        (p.added.foldl (recordAdded (s.revision + 1)) s.histories))
      staged.removed_nodup k
  have published : filed = (d.removed.foldl (recordDeleted (s.revision + 1))
      (p.modified.foldl (recordModified (s.revision + 1))
        (p.added.foldl (recordAdded (s.revision + 1)) s.histories))).get? k := by
    simp only [filed, publish, ready.removed]
  rw [published]
  refine ⟨fun removed => ?_, fun added => ?_, fun touched => ?_,
    fun unremoved unadded untouched => ?_⟩
  · rw [removedThere removed, modifiedElse (staged.not_touched k removed),
      addedElse (staged.not_added k removed)]
  · have unremoved : k ∉ d.removed := fun removed => staged.not_added k removed added
    rw [removedElse unremoved, modifiedElse (ready.not_touched_of_added added)]
    exact addedThere added
  · have unremoved : k ∉ d.removed := fun removed => staged.not_touched k removed touched
    have unadded : k ∉ d.added := fun added => ready.not_touched_of_added added touched
    rw [removedElse unremoved, ← addedElse unadded]
    exact modifiedThere touched
  · rw [removedElse unremoved, modifiedElse untouched, addedElse unadded]

/-- The change that a commit of a ready draft makes to a key, and what is filed afterwards. -/
theorem written (ready : s.Ready reconciler d p) (now : Nat) (staged : d.WellStaged)
    (keyed : ∀ k h, s.histories.get? k = some h → h.key = k) (k : K) :
    let c : Commit K V := ⟨reconciler, d⟩
    (c.change? s.leading? (s.revision + 1) k = none ∧
        (s.publish now p).histories.get? k = s.histories.get? k) ∨
      ∃ change, c.change? s.leading? (s.revision + 1) k = some change ∧ change.Coherent ∧
        (s.publish now p).histories.get? k =
          some (((s.histories.get? k).getD (.empty k)).insert change) := by
  intro c
  have filed (live : s.isLive k = true) : ∃ h, s.histories.get? k = some h ∧ h.key = k := by
    simp only [isLive] at live
    cases history : s.histories.get? k with
    | none => simp [history] at live
    | some h => exact ⟨h, rfl, keyed k h history⟩
  obtain ⟨ofRemoved, ofAdded, ofTouched, ofOther⟩ := ready.get?_publish now staged k
  by_cases removed : k ∈ d.removed
  · obtain ⟨h, history, key⟩ := filed (ready.live k (.inr removed))
    refine .inr ⟨.deleted k (s.revision + 1), ?_, Change.coherent_deleted _ _, ?_⟩
    · simp [Commit.change?, Commit.kind?, c, removed, Commit.after, Change.deleted]
    · rw [ofRemoved removed, history]
      simp [History.recordDeleted, key]
  · by_cases added : k ∈ d.added
    · obtain ⟨_, made, written⟩ := ofAdded added
      obtain ⟨own, v, held, cloned, rfl⟩ := addition_eq_ok_iff.1 made
      have key : ((s.histories.get? k).getD (.empty k)).key = k := by
        cases history : s.histories.get? k with
        | none => rfl
        | some h => exact keyed k h history
      refine .inr ⟨.added k v (s.revision + 1), ?_, Change.coherent_added _ _ _, ?_⟩
      · simp [Commit.change?, Commit.kind?, c, removed, added, Commit.after, held, Commit.clone?,
          cloned, Except.toOption, Change.added]
      · rw [written, History.recordAdded, key]
    · by_cases touched : k ∈ d.touched
      · obtain ⟨_, made, written⟩ := ofTouched touched
        obtain ⟨own, repository, merged, v, held, leading, merges, cloned, rfl⟩ :=
          modification_eq_ok_iff.1 made
        obtain ⟨h, history, key⟩ := filed (ready.live k (.inl touched))
        refine .inr ⟨.modified k v (s.revision + 1), ?_, Change.coherent_modified _ _ _, ?_⟩
        · simp [Commit.change?, Commit.kind?, c, removed, added, touched, Commit.after, leading,
            held, Commit.merge?, merges, Commit.clone?, cloned, Except.toOption, Change.modified]
        · rw [written, history]
          simp [History.recordModified, key]
      · refine .inl ⟨?_, ofOther removed added touched⟩
        simp [Commit.change?, Commit.kind?, c, removed, added, touched]

end Ready

/-- A successful commit publishes what was prepared. -/
theorem commit_eq_ok_iff :
    s.commit reconciler now d = .ok s' ↔
      ∃ p, s.prepare reconciler d = .ok p ∧ s.publish now p = s' := by
  simp only [commit]
  cases s.prepare reconciler d <;> simp [Except.map]

theorem lookup_of_commit (committed : s.commit reconciler now d = .ok s') :
    s'.lookup = s.lookup := by
  obtain ⟨p, _, rfl⟩ := commit_eq_ok_iff.1 committed
  rfl

/-- A successful commit extends the store by what the draft says. -/
theorem extended_of_commit (kept : s.WellKept) (staged : d.WellStaged)
    (committed : s.commit reconciler now d = .ok s') : s.Extended ⟨reconciler, d⟩ s' := by
  obtain ⟨p, prepared, rfl⟩ := commit_eq_ok_iff.1 committed
  have ready := prepare_eq_ok_iff.1 prepared
  have written := ready.written now staged fun k h filed => (kept.filed k h filed).key
  obtain ⟨roster, current, keys⟩ := ready.keys
  refine ⟨rfl, rfl, rfl, rfl, ⟨roster, now, current, by simp [publish, keys]⟩, ?_, ?_,
    ready.fresh, ready.live⟩
  · intro k
    obtain ⟨nothing, same⟩ | ⟨change, something, _, filed⟩ := written k
    · rw [nothing, same]
    · rw [something, filed]
  · intro k change made
    obtain ⟨nothing, _⟩ | ⟨change', something, coherent, _⟩ := written k
    · rw [nothing] at made
      cases made
    · rw [something] at made
      cases made
      exact coherent

namespace Extended

variable {c : Commit K V}

theorem change?_eq_none_or (extended : s.Extended c s') (k : K) :
    (c.kind? k = none ∧ c.change? s.leading? (s.revision + 1) k = none ∧
        s'.histories.get? k = s.histories.get? k) ∨
      ∃ change, c.kind? k = some change.kind ∧
        c.change? s.leading? (s.revision + 1) k = some change ∧ change.Coherent ∧
          s'.histories.get? k = some (((s.histories.get? k).getD (.empty k)).insert change) := by
  have written := extended.histories k
  cases does : c.change? s.leading? (s.revision + 1) k with
  | none =>
    rw [does] at written
    have nothing : c.kind? k = none := by simpa [Commit.change?] using does
    exact .inl ⟨nothing, rfl, written⟩
  | some change =>
    rw [does] at written
    exact .inr ⟨change, (Commit.of_change?_eq_some does).1, rfl, extended.coherent k change does,
      written⟩

/-- A change that a commit makes is the most recent one of its key. -/
theorem head?_insert (kept : s.WellKept) {change : Change K V}
    (does : c.change? s.leading? (s.revision + 1) k = some change) :
    (((s.histories.get? k).getD (.empty k)).insert change).head? = some change := by
  obtain ⟨_, _, revision, _⟩ := Commit.of_change?_eq_some does
  refine History.head?_insert fun d member => ?_
  cases filed : s.histories.get? k with
  | none =>
    rw [filed] at member
    cases member
  | some h =>
    rw [filed] at member
    rw [revision]
    exact Nat.le_succ_of_le ((kept.filed k h filed).bounded d member)

/-- Live after a commit are the added keys, and those live before that it does not remove. -/
theorem isLive_iff (kept : s.WellKept) (staged : c.draft.WellStaged) (extended : s.Extended c s') :
    s'.isLive k = true ↔ k ∈ c.draft.added ∨ k ∉ c.draft.removed ∧ s.isLive k = true := by
  obtain ⟨nothing, _, same⟩ | ⟨change, does, made, _, written⟩ := extended.change?_eq_none_or k
  · obtain ⟨unremoved, unadded, _⟩ := Commit.kind?_eq_none_iff.1 nothing
    simp [isLive, same, unremoved, unadded]
  · have live : s'.isLive k = !change.isTombstone := by
      rw [isLive, written]
      exact History.isLive_of_head? (head?_insert kept made)
    rw [live]
    simp only [Change.isTombstone]
    cases kind : change.kind with
    | deleted =>
      have removed := Commit.kind?_eq_deleted_iff.1 (does.trans (congrArg some kind))
      simp [removed, staged.not_added k removed]
    | added =>
      obtain ⟨_, added⟩ := Commit.kind?_eq_added_iff.1 (does.trans (congrArg some kind))
      simp [added]
    | modified =>
      obtain ⟨unremoved, _, touched⟩ :=
        Commit.kind?_eq_modified_iff.1 (does.trans (congrArg some kind))
      simp [unremoved, extended.live k (.inl touched)]

/-- After a commit every key ends in what the commit leaves under it. -/
theorem leading? (kept : s.WellKept) (extended : s.Extended c s') (k : K) :
    s'.leading? k = c.after s.leading? k := by
  obtain ⟨_, nothing, same⟩ | ⟨change, _, made, _, written⟩ := extended.change?_eq_none_or k
  · rw [Commit.after_of_change?_eq_none nothing, Store.leading?, same, Store.leading?]
  · rw [Store.leading?, written, Option.bind_some,
      History.leading?_of_head? (head?_insert kept made), (Commit.of_change?_eq_some made).2.2.2]

theorem ascending (kept : s.WellKept) (extended : s.Extended c s') :
    s'.rosters.Pairwise fun a b => a.revision < b.revision := by
  obtain ⟨_, _, _, rosters⟩ := extended.rosters
  rw [rosters, List.pairwise_append]
  refine ⟨kept.ascending, List.pairwise_singleton _ _, fun a ha b hb => ?_⟩
  rw [List.mem_singleton] at hb
  subst hb
  exact Nat.lt_succ_of_le (kept.bounded a ha)

/-- The roster that a commit adds is the current one from then on. -/
theorem current (kept : s.WellKept) (extended : s.Extended c s') :
    ∃ before roster, s.roster? s.revision = some before ∧ s'.roster? s'.revision = some roster ∧
      roster.keys = before.keys.filter (fun k => !c.draft.isRemoved k) ++ c.draft.added ∧
        roster.revision = s.revision + 1 ∧
          ∀ other, other ∈ s'.rosters ↔ other ∈ s.rosters ∨ other = roster := by
  obtain ⟨before, now, found, rosters⟩ := extended.rosters
  have members (other : Roster K) : other ∈ s'.rosters ↔ other ∈ s.rosters ∨
      other = ⟨s.revision + 1, now,
        before.keys.filter (fun k => !c.draft.isRemoved k) ++ c.draft.added⟩ := by
    rw [rosters, List.mem_append, List.mem_singleton]
  refine ⟨before, _, found, ?_, rfl, rfl, members⟩
  rw [extended.revision]
  exact roster?_of_mem (extended.ascending kept) ((members _).2 (.inr rfl))

/-- The new roster lists the added keys after those that it keeps, none of them twice. -/
theorem nodup_keys {roster : Roster K} (kept : s.WellKept) (staged : c.draft.WellStaged)
    (extended : s.Extended c s') (found : s.roster? s.revision = some roster) :
    (roster.keys.filter (fun k => !c.draft.isRemoved k) ++ c.draft.added).Nodup := by
  obtain ⟨member, _⟩ := mem_of_roster? found
  refine List.nodup_append.2 ⟨(kept.distinct roster member).filter _, staged.added_nodup, ?_⟩
  rintro k listed _ added rfl
  -- an added key was not live, but a listed one was
  have alive := (kept.live roster found k).1 (List.mem_filter.1 listed).1
  rw [extended.fresh k added] at alive
  cases alive

theorem wellFiled {h : History K V} (kept : s.WellKept) (extended : s.Extended c s')
    (filed : s'.histories.get? k = some h) : h.WellFiled k s'.revision := by
  rw [extended.revision]
  have old (h : History K V) (filed : s.histories.get? k = some h) :
      h.WellFiled k (s.revision + 1) :=
    { kept.filed k h filed with
      bounded := fun c member => Nat.le_succ_of_le ((kept.filed k h filed).bounded c member) }
  obtain ⟨_, _, same⟩ | ⟨change, _, made, coherent, written⟩ := extended.change?_eq_none_or k
  · exact old h (same ▸ filed)
  · obtain ⟨_, belongs, revision, _⟩ := Commit.of_change?_eq_some made
    rw [written] at filed
    obtain rfl := Option.some.inj filed
    cases before : s.histories.get? k with
    | none =>
      exact .insert (fun d member => nomatch member) rfl belongs (Nat.le_of_eq revision) coherent
    | some h =>
      have filed := old h before
      refine .insert (fun d member => ?_) filed.key belongs (Nat.le_of_eq revision) coherent
      exact ⟨filed.belongs d member, filed.bounded d member, filed.coherent d member⟩

/-- A commit keeps a store well kept. -/
theorem wellKept (kept : s.WellKept) (staged : c.draft.WellStaged) (extended : s.Extended c s') :
    s'.WellKept := by
  obtain ⟨before, roster, was, found, keys, revision, members⟩ := extended.current kept
  refine ⟨⟨roster, found⟩, extended.ascending kept, ?_, ?_, fun k h => extended.wellFiled kept, ?_⟩
  · intro other member
    rw [extended.revision]
    obtain old | rfl := (members other).1 member
    · exact Nat.le_succ_of_le (kept.bounded other old)
    · exact Nat.le_of_eq revision
  · intro other member
    obtain old | rfl := (members other).1 member
    · exact kept.distinct other old
    · exact keys ▸ extended.nodup_keys kept staged was
  · intro other same k
    obtain rfl := Option.some.inj (same.symm.trans found)
    rw [extended.isLive_iff kept staged, ← kept.live before was k, keys]
    simp only [List.mem_append, List.mem_filter, Bool.not_eq_true', Draft.isRemoved,
      decide_eq_false_iff_not]
    tauto

end Extended

end Store

end RevisionStore
