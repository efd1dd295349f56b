import RevisionStore.Proofs.Session.Commits
import RevisionStore.Proofs.Session.Reads
import RevisionStore.Proofs.Store.Current

/-!
# All ways to read the current values agree

A session gives out the current values of a site in many ways: one by one, as a map, through
a copy checked out now, through a snapshot taken now, and to a copy that is refreshed from
them. Under `latestPrior` all of them give out the same (`run_reads_agree`), and a commit
merges into the same values.
-/

namespace RevisionStore

variable {K V : Type} [DecidableEq K]

/-! ## First reads -/

/-- What is read first through a new draft is what is fetched, if its base lists the key. -/
theorem Draft.read_new {base : Roster K} {fetch : K → Except Failure (Option V)} {k : K}
    {v? : Option V} (fetched : fetch k = .ok v?) (listed : v?.isSome = true ↔ k ∈ base.keys) :
    ((Draft.new base).read fetch k).map Prod.fst = .ok v? := by
  cases v? with
  | none =>
    have absent : k ∉ base.keys := by simpa using listed
    simp [Draft.read, Draft.new, isRemoved, local?, absent, Except.map]
  | some v =>
    have there : k ∈ base.keys := by simpa using listed
    simp [Draft.read, Draft.new, isRemoved, local?, there, fetched, Except.map]

theorem Snapshot.read_new {base : Roster K} {fetch : K → Except Failure (Option V)} {k : K}
    {v? : Option V} (fetched : fetch k = .ok v?) (listed : v?.isSome = true ↔ k ∈ base.keys) :
    ((Snapshot.new base).read fetch k).map Prod.fst = .ok v? := by
  cases v? with
  | none =>
    have absent : k ∉ base.keys := by simpa using listed
    simp [Snapshot.read, Snapshot.new, absent, Except.map]
  | some v =>
    have there : k ∈ base.keys := by simpa using listed
    simp [Snapshot.read, Snapshot.new, there, fetched, Except.map]

/-- A commit merges the value in which a touched key ends with the held one, and the key ends
in a clone of the merge. -/
theorem Store.Extended.merges {s s' : Store K V} {c : Commit K V} {k : K}
    (extended : s.Extended c s') (kept : s.WellKept) (staged : c.draft.WellStaged)
    (touched : k ∈ c.draft.touched) :
    ∃ v own m w, s.leading? k = some v ∧ c.draft.local? k = some own ∧
      c.reconciler.merge v own = .ok m ∧ c.reconciler.clone m = .ok w ∧
        s'.leading? k = some w := by
  have unremoved : k ∉ c.draft.removed := fun removed => staged.not_touched k removed touched
  have unadded : k ∉ c.draft.added := by
    intro added
    have live := extended.live k (.inl touched)
    rw [extended.fresh k added] at live
    cases live
  have does : c.kind? k = some .modified :=
    Commit.kind?_eq_modified_iff.2 ⟨unremoved, unadded, touched⟩
  -- a modification records a value
  have made : c.change? s.leading? (s.revision + 1) k =
      some ⟨k, c.after s.leading? k, .modified, s.revision + 1⟩ := by simp [Commit.change?, does]
  have valued : (c.after s.leading? k).isSome = true := extended.coherent k _ made
  obtain ⟨w, after⟩ := Option.isSome_iff_exists.1 valued
  have leading := (extended.leading? kept k).trans after
  simp only [Commit.after, does, Option.bind_eq_some_iff] at after
  obtain ⟨v, leads, own, held, m, merged, cloned⟩ := after
  exact ⟨v, own, m, w, leads, held, Store.toOption_eq_some_iff.1 merged,
    Store.toOption_eq_some_iff.1 cloned, leading⟩

namespace Session

variable {s : Session K V} {i : Nat} {site : Site K V} {name : String}
  {logs : Nat → List (Commit K V)} {roster : Roster K} {ks : List K} {k : K}

/-- Everything that gives out current values of a site gives out what its store shows. -/
structure Agrees (s : Session K V) (i : Nat) (site : Site K V) (ks : List K) : Prop where
  keys : (s.perform (.keys i)).1 = .ok (.keys ks)
  size : (s.perform (.size i)).1 = .ok (.number ks.length)
  get : ∀ k, (s.perform (.get i k)).1 = .ok (.value (site.store.shown site.reconciler k))
  -- a read at the current revision
  getAt : ∃ r, (s.perform (.revision i)).1 = .ok (.number r) ∧
    ∀ k, (s.perform (.getAt i r k)).1 = .ok (.value (site.store.shown site.reconciler k))
  -- a map goes through the keys in their order
  asMap : ∃ m, (s.perform (.asMap i)).1 = .ok (.map m) ∧ m.size = ks.length ∧
    m.toList.map Prod.fst = ks ∧ ∀ k, m.get? k = site.store.shown site.reconciler k
  -- a read through a copy that is checked out now
  copy : ∀ name k, s.copies.get? name = none →
    ((s.perform (.checkout i name)).2.perform (.read name k)).1 =
      .ok (.value (site.store.shown site.reconciler k))
  -- a read of a snapshot that is taken now
  snapshot : ∀ name k, s.snapshots.get? name = none →
    ((s.perform (.takeSnapshot i name)).2.perform (.readSnapshot name k)).1 =
      .ok (.snapshotValue (decide (k ∈ ks)) (site.store.shown site.reconciler k))
  -- a refresh in the mode `replace` is refused for conflicts only, and otherwise installs
  -- what is shown under the touched keys that are current
  update : ∀ name lent options, s.copies.get? name = some lent → lent.home = i →
    options.mode = .replace →
      ((s.perform (.update name options)).1 = .ok .done ↔
        ∀ k ∈ ks, lent.item.draft.conflict? options k = none) ∧
      ((s.perform (.update name options)).1 = .ok .done →
        ∃ lent', (s.perform (.update name options)).2.copies.get? name = some lent' ∧
          ∀ k, lent'.item.draft.local? k =
            if k ∈ lent.item.draft.touched ∧ k ∈ ks then site.store.shown site.reconciler k
            else lent.item.draft.local? k)
  -- a commit merges the value of the most recent change with the held one
  commit : ∀ name lent n, s.copies.get? name = some lent → lent.home = i →
    (s.perform (.commit name none)).1 = .ok (.number n) →
      ∃ site', (s.perform (.commit name none)).2.sites[i]? = some site' ∧
        ∀ k ∈ lent.item.draft.touched, ∃ v own m w, site.store.leading? k = some v ∧
          lent.item.draft.local? k = some own ∧ site.reconciler.merge v own = .ok m ∧
            site.reconciler.clone m = .ok w ∧ site'.store.leading? k = some w

/-! ## One way after the other -/

section Ways

theorem perform_read_of_ok {lent : Lent (WorkingCopy K V)} {v? : Option V}
    (opened : s.copies.get? name = some lent)
    (read : (lent.item.draft.read (s.fetch lent.home lent.item.draft.revision) k).map Prod.fst =
      .ok v?) : (s.perform (.read name k)).1 = .ok (.value v?) := by
  simp only [perform, answered, onDraft, named_eq_ok_iff.2 opened, settle]
  cases outcome : lent.item.draft.read (s.fetch lent.home lent.item.draft.revision) k with
  | error failure => simp [outcome, Except.map] at read
  | ok answer =>
    obtain rfl : answer.1 = v? := by simpa [outcome, Except.map] using read
    rfl

theorem perform_readSnapshot_of_ok {lent : Lent (Snapshot K V)} {v? : Option V}
    (opened : s.snapshots.get? name = some lent)
    (read : (lent.item.read (s.fetch lent.home lent.item.revision) k).map Prod.fst = .ok v?) :
    (s.perform (.readSnapshot name k)).1 =
      .ok (.snapshotValue (lent.item.base.contains k) v?) := by
  simp only [perform, answered, readSnapshot, named_eq_ok_iff.2 opened]
  cases outcome : lent.item.read (s.fetch lent.home lent.item.revision) k with
  | error failure => simp [outcome, Except.map] at read
  | ok answer =>
    obtain rfl : answer.1 = v? := by simpa [outcome, Except.map] using read
    rfl

variable (usable : s.usable i = .ok site) (service : site.InService .latestPrior)
  (sound : s.Sound logs) (current : site.store.roster? site.store.revision = some roster)
include usable service sound current

omit service in
/-- A checkout under a free name opens a copy of the current roster. -/
theorem perform_checkout_opens (free : s.copies.get? name = none) :
    ∃ id after, (s.perform (.checkout i name)).2.usable i = .ok { site with store := after } ∧
      (s.perform (.checkout i name)).2.copies.get? name = some ⟨i, ⟨id, .new roster⟩⟩ ∧
        after.Sound (logs i) ∧ after.revision = site.store.revision ∧
          after.lookup = site.store.lookup ∧ after.histories = site.store.histories := by
  obtain ⟨there, sane⟩ := usable_eq_ok_iff.1 usable
  obtain ⟨id, after, made⟩ : ∃ id after, site.store.checkout = .ok ((id, roster), after) :=
    ⟨_, _, Store.checkout_eq_ok_iff.2 ⟨current, rfl, rfl⟩⟩
  have opens : (s.perform (.checkout i name)).2 =
      { s.putSite i { site with store := after } with
        copies := s.copies.put name ⟨i, ⟨id, .new roster⟩⟩ } := by
    simp only [perform, answered, Session.checkout, site_eq_ok_iff.2 there, Dict.contains, free,
      usable, made, Option.isSome_none, Bool.false_eq_true, if_false]
    rfl
  have after' := ((sound.stores i site there).checkout made).1
  refine ⟨id, after, ?_, ?_, after', ?_⟩
  · rw [opens]
    exact usable_eq_ok_iff.2 ⟨by simp [getElem?_putSite there], sane⟩
  · rw [opens]
    exact Dict.get?_put_self _ _ _
  · obtain ⟨_, _, rfl⟩ := Store.checkout_eq_ok_iff.1 made
    exact ⟨rfl, rfl, rfl⟩

theorem perform_checkout_read (free : s.copies.get? name = none) (k : K) :
    ((s.perform (.checkout i name)).2.perform (.read name k)).1 =
      .ok (.value (site.store.shown site.reconciler k)) := by
  obtain ⟨id, after, usable', opened, sound', revision, lookup, histories⟩ :=
    perform_checkout_opens usable sound current free
  have kept := (sound.stores i site (usable_eq_ok_iff.1 usable).1).kept
  have same : roster.revision = after.revision :=
    (Store.mem_of_roster? current).2.trans revision.symm
  have shown : after.shown site.reconciler k = site.store.shown site.reconciler k := by
    simp only [Store.shown, Store.leading?, histories]
  have fetched : (s.perform (.checkout i name)).2.fetch i roster.revision k =
      .ok (site.store.shown site.reconciler k) := by
    rw [fetch_of_usable usable', same, ← shown]
    exact Store.getAt_revision sound' (lookup.trans service.lookup) service.total _ k
  exact perform_read_of_ok opened
    (Draft.read_new fetched (Store.isSome_shown kept service.total current))

theorem perform_takeSnapshot_read (free : s.snapshots.get? name = none) (k : K) :
    ((s.perform (.takeSnapshot i name)).2.perform (.readSnapshot name k)).1 =
      .ok (.snapshotValue (decide (k ∈ roster.keys)) (site.store.shown site.reconciler k)) := by
  have there := (usable_eq_ok_iff.1 usable).1
  have store := sound.stores i site there
  have taken : (s.perform (.takeSnapshot i name)).2 =
      { s with snapshots := s.snapshots.put name ⟨i, .new roster⟩ } := by
    simp only [perform, answered, takeSnapshot, site_eq_ok_iff.2 there, Dict.contains, free,
      ask_of_usable usable, Store.currentRoster_eq_ok_iff.2 current, Option.isSome_none,
      Bool.false_eq_true, if_false, Except.mapError]
  rw [taken]
  have fetched : s.fetch i roster.revision k = .ok (site.store.shown site.reconciler k) := by
    rw [fetch_of_usable usable, (Store.mem_of_roster? current).2]
    exact Store.getAt_revision store service.lookup service.total _ k
  have opened : ({ s with snapshots := s.snapshots.put name ⟨i, .new roster⟩ } :
      Session K V).snapshots.get? name = some ⟨i, .new roster⟩ := Dict.get?_put_self _ _ _
  exact perform_readSnapshot_of_ok opened
    (Snapshot.read_new fetched (Store.isSome_shown store.kept service.total current))

omit service current in
/-- A refresh in the mode `replace`, from what the store shows. -/
theorem perform_update_replace {lent : Lent (WorkingCopy K V)} {options : Refresh.Options}
    (total : site.reconciler.Total) (opened : s.copies.get? name = some lent)
    (home : lent.home = i) (replaces : options.mode = .replace) :
    ((s.perform (.update name options)).1 = .ok .done ↔
      ∀ k, (site.store.shown site.reconciler k).isSome = true →
        lent.item.draft.conflict? options k = none) ∧
    ((s.perform (.update name options)).1 = .ok .done →
      ∃ lent', (s.perform (.update name options)).2.copies.get? name = some lent' ∧
        ∀ k, lent'.item.draft.local? k =
          if k ∈ lent.item.draft.touched then
            (site.store.shown site.reconciler k).or (lent.item.draft.local? k)
          else lent.item.draft.local? k) := by
  subst home
  have kept := (sound.stores _ site (usable_eq_ok_iff.1 usable).1).kept
  have refreshed := lent.item.draft.update_replace site.reconciler
    (site.store.shown site.reconciler) replaces
  rw [← Store.liveValues_eq kept total] at refreshed
  simp only [perform, answered, Session.update, named_eq_ok_iff.2 opened, usable]
  generalize lent.item.draft.update options site.reconciler
    (site.store.liveValues site.reconciler) = outcome at refreshed
  obtain ⟨answer, d'⟩ := outcome
  have done : ((answer.mapError .failed).map fun _ => Answer.done) =
      (.ok .done : Except Refusal (Answer K V)) ↔ answer = .ok () := by
    cases answer <;> simp [Except.mapError, Except.map]
  simp only [done]
  obtain ⟨refused, held⟩ := refreshed
  exact ⟨refused, fun succeeded => ⟨_, Dict.get?_put_self _ _ _, held succeeded⟩⟩

omit service current in
/-- A commit that succeeds merges into what the store shows. -/
theorem perform_commit_merges {lent : Lent (WorkingCopy K V)} {n : Nat}
    (opened : s.copies.get? name = some lent) (home : lent.home = i)
    (committed : (s.perform (.commit name none)).1 = .ok (.number n)) :
    ∃ site', (s.perform (.commit name none)).2.sites[i]? = some site' ∧
      ∀ k ∈ lent.item.draft.touched, ∃ v own m w, site.store.leading? k = some v ∧
        lent.item.draft.local? k = some own ∧ site.reconciler.merge v own = .ok m ∧
          site.reconciler.clone m = .ok w ∧ site'.store.leading? k = some w := by
  have there := (usable_eq_ok_iff.1 usable).1
  have succeeded : ∃ n, (s.commit name none).1 = .ok n := by
    cases outcome : (s.commit name none).1 with
    | error refusal => simp [perform, answered, outcome, Except.map] at committed
    | ok n => exact ⟨n, rfl⟩
  obtain ⟨n, succeeded⟩ := succeeded
  have logged : s.committed? i (.commit name none) =
      some ⟨site.reconciler, lent.item.draft⟩ := by
    simp [committed?, succeeded, opened, there, home]
  obtain ⟨found, site', there', after, staged, extended⟩ := sound.extended_of_committed? logged
  obtain rfl := Option.some.inj (there.symm.trans there')
  exact ⟨site', after, fun k touched =>
    extended.merges (sound.stores i site there).kept staged touched⟩

end Ways

theorem agrees (usable : s.usable i = .ok site) (service : site.InService .latestPrior)
    (sound : s.Sound logs) (current : site.store.roster? site.store.revision = some roster) :
    s.Agrees i site roster.keys := by
  have store := sound.stores i site (usable_eq_ok_iff.1 usable).1
  have reads := Store.getAt_revision store service.lookup service.total (s.recallOf site)
  have shown (k : K) := Store.isSome_shown (k := k) store.kept service.total current
  refine ⟨?_, ?_, ?_, ⟨site.store.revision, ?_, ?_⟩, ?_, ?_, ?_, ?_, ?_⟩
  · simp [perform, told, ask_of_usable usable, Store.keys, Store.currentRoster_eq_ok_iff.2 current,
      Except.map, Except.mapError]
  · simp [perform, told, ask_of_usable usable, Store.size, Store.currentRoster_eq_ok_iff.2 current,
      Except.map, Except.mapError, Roster.size]
  · intro k
    simp [perform, told, ask_of_usable usable, Store.get, reads k, Except.map, Except.mapError]
  · simp [perform, told, ask_of_usable usable, Except.map, Except.mapError]
  · intro k
    exact perform_getAt usable (reads k)
  · obtain ⟨m, mapped, order, pairs, values⟩ :=
      Store.asMap_eq store service.lookup service.total current (s.recallOf site)
    refine ⟨m, ?_, congrArg List.length order, pairs, values⟩
    simp [perform, told, ask_of_usable usable, mapped, Except.map, Except.mapError]
  · intro name k free
    exact perform_checkout_read usable service sound current free k
  · intro name k free
    exact perform_takeSnapshot_read usable service sound current free k
  · intro name lent options opened home replaces
    obtain ⟨refused, held⟩ := perform_update_replace usable sound service.total opened home replaces
    refine ⟨?_, fun done => ?_⟩
    · simpa only [shown] using refused
    · obtain ⟨lent', opened', held⟩ := held done
      refine ⟨lent', opened', fun k => ?_⟩
      rw [held k]
      have current : k ∈ roster.keys ↔ (site.store.shown site.reconciler k).isSome = true :=
        (shown k).symm
      cases found : site.store.shown site.reconciler k <;> simp [current, found]
  · intro name lent n opened home committed
    exact perform_commit_merges usable sound opened home committed

/-- After a run of a fresh session all ways to read the current values of a site with the rule
`latestPrior` whose reconcilers never give up agree: for a current key they give a clone of the
value of the most recent change of the key, which is also what commits merge with; for any
other key they give nothing. -/
theorem run_reads_agree (specs : List (SiteSpec K V)) (clock : Nat) (actions : List (Action K V))
    {spec : SiteSpec K V} (specified : specs[i]? = some spec)
    (latest : spec.lookup = .latestPrior) (total : spec.reconciler.Total)
    (totals : ∀ r, .setReconciler i r ∈ actions → r.Total) :
    let s := (start specs clock).run actions
    ∃ site ks, s.sites[i]? = some site ∧ s.Agrees i site ks ∧
      (∀ k ∈ ks, ∃ h c v w, site.store.histories.get? k = some h ∧ h.head? = some c ∧
        c.value? = some v ∧ site.reconciler.clone v = .ok w ∧
          site.store.shown site.reconciler k = some w) ∧
      ∀ k, k ∉ ks → site.store.shown site.reconciler k = none := by
  intro s
  obtain ⟨site, there, service⟩ : s.Serves i .latestPrior :=
    latest ▸ (Serves.start specified total clock).run actions totals
  have usable : s.usable i = .ok site := usable_eq_ok_iff.2 ⟨there, service.sound⟩
  have sound : s.Sound _ := sound_run specs clock actions
  have kept := (sound.stores i site there).kept
  obtain ⟨roster, current⟩ := kept.current
  have shown (k : K) := Store.isSome_shown (k := k) kept service.total current
  refine ⟨site, roster.keys, there, agrees usable service sound current, fun k member => ?_,
    fun k absent => ?_⟩
  · obtain ⟨w, found⟩ := Option.isSome_iff_exists.1 ((shown k).2 member)
    obtain ⟨h, c, v, filed, head, value, cloned⟩ := Store.shown_eq_some_iff.1 found
    exact ⟨h, c, v, w, filed, head, value, cloned, found⟩
  · exact Option.not_isSome_iff_eq_none.1 (mt (shown k).1 absent)

/-- The last copy of the trial holds another value for the key. -/
def revisitedActions : List (Action Nat Nat) :=
  trialActions ++ [.replace "d" 1 9]

def revisited : Session Nat Nat :=
  (start (trialSpecs .latestPrior) 0).run revisitedActions

/-- A new copy reads the last value of the key, and a refresh puts it in place of the other. -/
theorem run_reads_agree_revisited :
    ((revisited.perform (.checkout 0 "e")).2.perform (.read "e" 1)).1 = .ok (.value (some 7)) ∧
      ∃ lent, (revisited.perform (.update "d" (.lenient .replace))).2.copies.get? "d" = some lent ∧
        lent.item.draft.local? 1 = some 7 := by
  obtain ⟨site, ks, there, agrees, _⟩ := run_reads_agree (i := 0) (trialSpecs .latestPrior) 0
    revisitedActions rfl rfl Reconciler.total_plain (by simp [revisitedActions, trialActions])
  have keys : (revisited.perform (.keys 0)).1 = .ok (.keys [1]) := rfl
  have value : (revisited.perform (.get 0 1)).1 = .ok (.value (some 7)) := rfl
  obtain rfl : [1] = ks := by simpa using keys.symm.trans agrees.keys
  have shown : site.store.shown site.reconciler 1 = some 7 := by
    simpa using (value.symm.trans (agrees.get 1)).symm
  refine ⟨(agrees.copy "e" 1 rfl).trans (by rw [shown]), ?_⟩
  obtain ⟨lent, opened⟩ : ∃ lent, revisited.copies.get? "d" = some lent := ⟨_, rfl⟩
  have copy : (revisited.copies.get? "d").map (fun lent =>
    (lent.home, lent.item.draft.touched)) = some (0, [1]) := by decide
  simp only [opened, Option.map_some, Option.some.injEq, Prod.mk.injEq] at copy
  obtain ⟨refused, held⟩ := agrees.update "d" lent (.lenient .replace) opened copy.1 rfl
  have lenient : ∀ k ∈ [1], lent.item.draft.conflict? (.lenient .replace) k = none := by
    simp [Draft.conflict?, Refresh.Options.lenient]
  obtain ⟨lent', opened', held⟩ := held (refused.2 lenient)
  refine ⟨lent', opened', ?_⟩
  rw [held 1, copy.2, shown]
  rfl

end Session

end RevisionStore
