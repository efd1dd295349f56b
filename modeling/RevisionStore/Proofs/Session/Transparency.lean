import RevisionStore.Proofs.Session.Twins

/-!
# Passes leave no trace

Under `latestPrior` a run gives the same answers whether passes run or not. The run without
passes is the same list of actions under policies that never run one (`Action.quiet`). The
two runs stay twins step by step, because twins take every action alike (`Twins.perform`);
only answers that show what is retained, or read at a revision that the first run has given
up, may differ (`Action.Comparable`).
-/

namespace RevisionStore

variable {K V : Type} [DecidableEq K]

/-- The specification of a site on which no pass runs. -/
def SiteSpec.quiet (spec : SiteSpec K V) : SiteSpec K V :=
  { spec with policy := .never }

/-- The action under which no pass runs. -/
def Action.quiet : Action K V → Action K V
  | .setPolicy i _ => .setPolicy i .never
  | .setKeeper i _ keeps => .setKeeper i .never keeps
  | action => action

/-- Whether the answer to an action is the same with passes, which led to `s`, as without:
a read of a given revision must be at one that is retained, and the action must not ask what
is retained or has been given up, nor look at a snapshot, which holds nothing back. -/
def Action.Comparable (s : Session K V) : Action K V → Prop
  | .keysAt i r | .rosterAt i r | .containsAt i r _ | .getAt i r _ =>
    ∃ site roster, s.sites[i]? = some site ∧ site.store.roster? r = some roster
  | .retained _ | .historyRevisions _ _ | .describe _ | .grid _ _ _ | .expire _ => False
  | .shareKeeper _ _ | .archive _ | .drainArchive _ => False
  | .takeSnapshot _ _ | .snapshotInfo _ | .readSnapshot _ _ | .closeSnapshot _ => False
  | _ => True

namespace Session

variable {s t : Session K V} {logs : Nat → List (Commit K V)} {i : Nat} {site site' : Site K V}
  {name : String} {lent : Lent (WorkingCopy K V)}

namespace Twins

/-! ## Questions -/

theorem store (twins : t.Twins s logs) (there' : t.sites[i]? = some site')
    (there : s.sites[i]? = some site) (same : site'.Mirrors site) :
    site'.store.Twins site.store (logs i) :=
  ⟨same.store, twins.whole.stores i site' there', twins.pruned.stores i site there⟩

theorem ask {α : Type} (twins : t.Twins s logs) (i : Nat)
    (question : Site K V → Recollection K V → Except Failure α)
    (same : ∀ site' site recollect' recollect, s.sites[i]? = some site → site'.Mirrors site →
      site'.store.Twins site.store (logs i) → question site' recollect' = question site recollect) :
    t.ask i question = s.ask i question := by
  simp only [Session.ask]
  obtain ⟨refusal, refused', refused⟩ | ⟨site', site, usable', usable, there', there, mirrored⟩ :=
    twins.mirrors.usable i
  · simp only [refused', refused]
  · simp only [usable', usable]
    rw [same site' site _ (s.recallOf site) there mirrored (twins.store there' there mirrored)]

/-- An open copy fetches the same in both sessions. -/
theorem fetch (twins : t.Twins s logs) (opened : s.copies.get? name = some lent) {k : K}
    (listed : k ∈ lent.item.draft.base.keys) :
    t.fetch lent.home lent.item.draft.revision k =
      s.fetch lent.home lent.item.draft.revision k := by
  simp only [Session.fetch]
  obtain ⟨refusal, refused', refused⟩ | ⟨site', site, usable', usable, there', there, same⟩ :=
    twins.mirrors.usable lent.home
  · simp only [refused', refused]
  · simp only [usable', usable, same.reconciler]
    exact (twins.store there' there same).getAt_registered _ _
      (twins.pruned.registered opened there) listed

/-! ## Working copies -/

theorem onDraft {α : Type} (twins : t.Twins s logs) (name : String)
    {work : Draft K V → (K → Except Failure (Option V)) → Except Failure α × Draft K V}
    (congr : ∀ (d : Draft K V) fetch' fetch, (∀ k ∈ d.base.keys, fetch' k = fetch k) →
      work d fetch' = work d fetch) : Matches (t.onDraft name work) (s.onDraft name work) := by
  simp only [Session.onDraft]
  rw [twins.mirrors.copies]
  split
  next => exact ⟨rfl, twins.mirrors⟩
  next lent opened =>
    have agree := congr lent.item.draft _ _ fun k => twins.fetch (named_eq_ok_iff.1 opened)
    simp only [agree]
    exact ⟨rfl, twins.mirrors.putCopy name _⟩

theorem checkout (twins : t.Twins s logs) (i : Nat) (name : String) :
    Matches (t.checkout i name) (s.checkout i name) := by
  simp only [Session.checkout]
  rw [twins.mirrors.copies]
  obtain ⟨refusal, missing', missing⟩ | ⟨_, _, found', found, _⟩ := twins.mirrors.site i
  · simp only [missing', missing]
    exact ⟨rfl, twins.mirrors⟩
  · simp only [found', found]
    split
    next => exact ⟨rfl, twins.mirrors⟩
    next =>
      obtain ⟨refusal, refused', refused⟩ | ⟨site', site, usable', usable, there', there, same⟩ :=
        twins.mirrors.usable i
      · simp only [refused', refused]
        exact ⟨rfl, twins.mirrors⟩
      · obtain ⟨id, base, store', store, made', made, mirrored⟩ :=
          (twins.store there' there same).checkout
        simp only [usable', usable, made', made]
        have grown : (t.putSite i { site' with store := store' }).Mirrors
            (s.putSite i { site with store := store }) :=
          twins.mirrors.putSite there' there ⟨mirrored, same.reconciler, same.poisoned⟩
            (twins.mirrors.idle i site' there')
        exact ⟨rfl, grown.putCopy name _⟩

theorem commit (twins : t.Twins s logs) (name : String) (target : Option Nat) :
    Matches (t.commit name target) (s.commit name target) := by
  simp only [Session.commit]
  rw [twins.mirrors.copies, twins.mirrors.clock]
  split
  next => exact ⟨rfl, twins.mirrors⟩
  next lent opened =>
    obtain ⟨refusal, missing', missing⟩ | ⟨site', site, found', found, there', there, same⟩ :=
      twins.mirrors.site (target.getD lent.home)
    · simp only [missing', missing]
      exact ⟨rfl, twins.mirrors⟩
    · simp only [found', found, same.reconciler, same.poisoned]
      split
      next => exact ⟨rfl, twins.mirrors⟩
      next =>
        split
        next => exact ⟨rfl, twins.mirrors⟩
        next =>
          -- both stores take the draft, or both refuse it in the same words
          have idle := twins.mirrors.idle _ site' there'
          obtain ⟨failure, failed', failed⟩ | ⟨store', store, made', made, mirrored⟩ :=
            (twins.store there' there same).commit site.reconciler s.clock lent.item.draft
          · rw [failed', failed]
            cases failure with
            | refused cause => exact ⟨rfl, twins.mirrors⟩
            | fault cause =>
              exact ⟨rfl, twins.mirrors.putSite there' there ⟨same.store, rfl, rfl⟩ idle⟩
          · rw [made', made]
            exact ⟨congrArg Except.ok mirrored.revision,
              twins.mirrors.putSite there' there ⟨mirrored, rfl, rfl⟩ idle⟩

theorem update (twins : t.Twins s logs) (name : String) (options : Refresh.Options) :
    Matches (t.update name options) (s.update name options) := by
  simp only [Session.update]
  rw [twins.mirrors.copies]
  split
  next => exact ⟨rfl, twins.mirrors⟩
  next lent opened =>
    obtain ⟨refusal, refused', refused⟩ | ⟨site', site, usable', usable, there', there, same⟩ :=
      twins.mirrors.usable lent.home
    · -- a site that cannot be used matters only if something is staged
      simp only [refused', refused]
      split
      next => exact ⟨rfl, twins.mirrors⟩
      next => exact ⟨rfl, twins.mirrors⟩
    · simp only [usable', usable, same.reconciler,
        (twins.store there' there same).liveValues site.reconciler]
      exact ⟨rfl, twins.mirrors.putCopy name _⟩

theorem updateWithFlags (twins : t.Twins s logs) (name : String) (flags : Refresh.Flags) :
    Matches (t.updateWithFlags name flags) (s.updateWithFlags name flags) := by
  simp only [Session.updateWithFlags]
  rw [twins.mirrors.copies]
  split
  next => exact ⟨rfl, twins.mirrors⟩
  next =>
    split
    next => exact ⟨rfl, twins.mirrors⟩
    next => exact twins.update name _

theorem stepCursor (twins : t.Twins s logs) (cursor name : String) (value? : Option V) :
    Matches (t.stepCursor cursor name value?) (s.stepCursor cursor name value?) := by
  simp only [Session.stepCursor]
  rw [twins.mirrors.cursors, twins.mirrors.copies]
  split
  next => exact ⟨rfl, twins.mirrors⟩
  next c _ =>
    split
    next => exact ⟨rfl, twins.mirrors⟩
    next lent opened =>
      have agree := Draft.next_congr (fun k => twins.fetch (named_eq_ok_iff.1 opened)) c
      simp only [agree]
      exact ⟨rfl, (twins.mirrors.putCopy name _).putCursor cursor _⟩

/-! ## Actions -/

omit [DecidableEq K] in
/-- What two operations that match say of an action whose answers may be compared under `P`. -/
theorem both {α : Type} {x y : Except Refusal α × Session K V} {P : Prop} (same : Matches x y) :
    x.2.Mirrors y.2 ∧ (P → x.1 = y.1) :=
  ⟨same.after, fun _ => same.answer⟩

omit [DecidableEq K] in
theorem told {α : Type} (mirrors : t.Mirrors s) (form : α → Answer K V) {x y : Except Refusal α}
    (same : x = y) : Matches (t.told form x) (s.told form y) :=
  ⟨congrArg (Except.map form) same, mirrors⟩

/-- A question to a site that twins answer alike. -/
theorem asked {α : Type} (twins : t.Twins s logs) (form : α → Answer K V) (i : Nat)
    (question : Site K V → Recollection K V → Except Failure α)
    (same : ∀ site' site recollect' recollect, s.sites[i]? = some site → site'.Mirrors site →
      site'.store.Twins site.store (logs i) → question site' recollect' = question site recollect) :
    Matches (t.told form (t.ask i question)) (s.told form (s.ask i question)) :=
  told twins.mirrors form (twins.ask i question same)

/-- Twins take every action alike, and answer it alike if the answers can be compared. -/
theorem perform (twins : t.Twins s logs) (action : Action K V) :
    (t.perform action.quiet).2.Mirrors (s.perform action).2 ∧
      (action.Comparable s → (t.perform action.quiet).1 = (s.perform action).1) := by
  have mirrors := twins.mirrors
  cases action with
  | revision i =>
    refine both (twins.asked .number i _ fun _ _ _ _ _ _ stores => ?_)
    exact congrArg Except.ok stores.mirrors.revision
  | size i =>
    refine both (twins.asked .number i _ fun _ _ _ _ _ _ stores => ?_)
    simp only [Store.size, stores.currentRoster]
  | isEmpty i =>
    refine both (twins.asked .flag i _ fun _ _ _ _ _ _ stores => ?_)
    simp only [Store.size, stores.currentRoster]
  | keys i =>
    refine both (twins.asked .keys i _ fun _ _ _ _ _ _ stores => ?_)
    simp only [Store.keys, stores.currentRoster]
  | keysAt i r =>
    refine ⟨mirrors, fun ⟨site, roster, retained, found⟩ => ?_⟩
    refine (twins.asked .keys i _ fun _ _ _ _ there _ stores => ?_).answer
    obtain rfl := Option.some.inj (retained.symm.trans there)
    simp only [Store.keysAt, stores.rosterAt found]
  | rosterAt i r =>
    refine ⟨mirrors, fun ⟨site, roster, retained, found⟩ => ?_⟩
    refine (twins.asked .roster i _ fun _ _ _ _ there _ stores => ?_).answer
    obtain rfl := Option.some.inj (retained.symm.trans there)
    exact stores.rosterAt found
  | contains i k =>
    refine both (twins.asked .flag i _ fun _ _ _ _ _ _ stores => ?_)
    exact stores.contains _ _ k
  | containsAt i r k =>
    refine ⟨mirrors, fun ⟨site, roster, retained, found⟩ => ?_⟩
    refine (twins.asked .flag i _ fun _ _ _ _ there _ stores => ?_).answer
    obtain rfl := Option.some.inj (retained.symm.trans there)
    exact stores.containsAt _ _ found k
  | get i k =>
    refine both (twins.asked .value i _ fun _ _ _ _ _ same stores => ?_)
    rw [same.reconciler]
    exact stores.get _ _ k
  | getAt i r k =>
    refine ⟨mirrors, fun ⟨site, roster, retained, found⟩ => ?_⟩
    refine (twins.asked .value i _ fun _ _ _ _ there same stores => ?_).answer
    obtain rfl := Option.some.inj (retained.symm.trans there)
    rw [same.reconciler]
    exact stores.getAt _ _ found k
  | lookup i =>
    refine both (twins.asked .lookup i _ fun _ _ _ _ _ _ stores => ?_)
    rw [stores.mirrors.latest, stores.mirrors.latest']
  | active i =>
    refine both (twins.asked .registrations i _ fun _ _ _ _ _ _ stores => ?_)
    rw [stores.mirrors.active]
  | asMap i =>
    refine both (twins.asked .map i _ fun _ _ _ _ _ same stores => ?_)
    rw [same.reconciler]
    exact stores.asMap _ _
  | mergeValues i repository own =>
    refine both (twins.asked _ i _ fun _ _ _ _ _ same _ => ?_)
    rw [same.reconciler]
  -- what shows the work of passes is not compared
  | retained i => exact ⟨mirrors, False.elim⟩
  | historyRevisions i k => exact ⟨mirrors, False.elim⟩
  | describe i => exact ⟨mirrors, False.elim⟩
  | grid i rs ks => exact ⟨mirrors, False.elim⟩
  | archive i => exact ⟨mirrors, False.elim⟩
  | snapshotInfo name => exact ⟨mirrors, False.elim⟩
  | checkout i name => exact both ((twins.checkout i name).answered _)
  | commit name target => exact both ((twins.commit name target).answered _)
  | close name target => exact both ((mirrors.close name target).answered _)
  | drop name => exact both ((mirrors.drop name).answered _)
  | expire i =>
    refine ⟨?_, False.elim⟩
    obtain ⟨refusal, refused', refused⟩ | ⟨_, _, t', s', passed', passed, after⟩ := mirrors.expire i
    · simpa [Action.quiet, Session.perform, answered, refused', refused] using mirrors
    · simpa [Action.quiet, Session.perform, answered, passed', passed] using after
  | setReconciler i reconciler => exact both ((mirrors.setReconciler i reconciler).answered _)
  | setPolicy i policy => exact both ((mirrors.setPolicy i policy).answered _)
  | setKeeper i policy keeps => exact both ((mirrors.setKeeper i policy keeps).answered _)
  | shareKeeper i source => exact ⟨mirrors.shareKeeper i source, False.elim⟩
  | drainArchive i => exact ⟨mirrors.drainArchive i, False.elim⟩
  | wait milliseconds =>
    refine ⟨{ mirrors with clock := ?_ }, fun _ => rfl⟩
    exact congrArg (· + milliseconds) mirrors.clock
  | copyInfo name =>
    exact both (told mirrors _ (congrArg (named · name) mirrors.copies))
  | keyStatus name k =>
    exact both (told mirrors _ (congrArg (named · name) mirrors.copies))
  | read name k =>
    refine both ((twins.onDraft name fun d _ _ agree => ?_).answered .value)
    simp only [Draft.read_congr agree]
  | readIndex name i =>
    refine both ((twins.onDraft name fun d _ _ agree => ?_).answered .value)
    simp only [Draft.readIndex_congr agree]
  | edit name k v =>
    refine both ((twins.onDraft name fun d _ _ agree => ?_).answered .value)
    simp only [Draft.edit_congr agree]
  | editIndex name i v =>
    refine both ((twins.onDraft name fun d _ _ agree => ?_).answered .value)
    simp only [Draft.editIndex_congr agree]
  | walk name =>
    refine both ((twins.onDraft name fun d _ _ agree => ?_).answered .pairs)
    exact Draft.walk_congr agree
  | add name k v => exact both ((twins.onDraft name fun _ _ _ _ => rfl).answered fun _ => .done)
  | replace name k v => exact both ((twins.onDraft name fun _ _ _ _ => rfl).answered fun _ => .done)
  | remove name k => exact both ((twins.onDraft name fun _ _ _ _ => rfl).answered .flag)
  | revert name => exact both ((twins.onDraft name fun _ _ _ _ => rfl).answered fun _ => .done)
  | update name options => exact both ((twins.update name options).answered _)
  | updateWithFlags name flags => exact both ((twins.updateWithFlags name flags).answered _)
  | makeCursor name cursor => exact both ((mirrors.makeCursor name cursor).answered _)
  | cloneCursor cursor clone => exact both ((mirrors.cloneCursor cursor clone).answered _)
  | stepCursor cursor name value? => exact both ((twins.stepCursor cursor name value?).answered _)
  | takeSnapshot i name =>
    obtain ⟨taken', after'⟩ := t.takeSnapshot_snapshots i name
    obtain ⟨taken, after⟩ := s.takeSnapshot_snapshots i name
    refine ⟨?_, False.elim⟩
    simpa [Action.quiet, Session.perform, answered, after', after]
      using mirrors.snapshots taken' taken
  | readSnapshot name k =>
    obtain ⟨taken', after'⟩ := t.readSnapshot_snapshots name k
    obtain ⟨taken, after⟩ := s.readSnapshot_snapshots name k
    refine ⟨?_, False.elim⟩
    simpa [Action.quiet, Session.perform, answered, after', after]
      using mirrors.snapshots taken' taken
  | closeSnapshot name =>
    obtain ⟨taken', after'⟩ := t.closeSnapshot_snapshots name
    obtain ⟨taken, after⟩ := s.closeSnapshot_snapshots name
    refine ⟨?_, False.elim⟩
    simpa [Action.quiet, Session.perform, answered, after', after]
      using mirrors.snapshots taken' taken

/-- Twins commit the same. -/
theorem committed?_quiet (twins : t.Twins s logs) (action : Action K V) (i : Nat) :
    t.committed? i action.quiet = s.committed? i action := by
  cases action with
  | commit name target =>
    have answers := (twins.commit name target).answer
    have related := twins.mirrors.sites i
    simp only [Action.quiet, committed?, answers, twins.mirrors.copies]
    generalize t.sites[i]? = there' at related ⊢
    generalize s.sites[i]? = there at related ⊢
    cases related with
    | none => rfl
    | some same =>
      cases (s.commit name target).1 with
      | error refusal => rfl
      | ok r =>
        cases s.copies.get? name with
        | none => rfl
        | some lent => simp only [same.reconciler]
  | _ => rfl

/-- Twins remain twins under every action. -/
theorem step (twins : t.Twins s logs) (action : Action K V) :
    (t.perform action.quiet).2.Twins (s.perform action).2 fun i =>
      logs i ++ (s.committed? i action).toList where
  mirrors := (twins.perform action).1
  whole := by
    have sound := twins.whole.perform action.quiet
    simp only [twins.committed?_quiet action] at sound
    exact sound
  pruned := twins.pruned.perform action

/-- Twins remain twins under every run. -/
theorem run (twins : t.Twins s logs) (actions : List (Action K V)) :
    ∃ logs', (t.run (actions.map Action.quiet)).Twins (s.run actions) logs' := by
  induction actions generalizing t s logs with
  | nil => exact ⟨logs, twins⟩
  | cons action rest ih => exact ih (twins.step action)

/-- Fresh sessions are twins if every store looks up the newest earlier change. -/
theorem start (specs : List (SiteSpec K V)) (latest : ∀ spec ∈ specs, spec.lookup = .latestPrior)
    (clock : Nat) :
    (Session.start (specs.map SiteSpec.quiet) clock).Twins (Session.start specs clock)
      fun _ => [] where
  mirrors := by
    refine ⟨rfl, rfl, rfl, fun i => ?_, fun i site there => ?_⟩
    · simp only [Session.start, List.getElem?_map, List.getElem?_zipIdx]
      cases specified : specs[i]? with
      | none => exact .none
      | some spec =>
        have rule := latest spec (List.mem_of_getElem? specified)
        exact .some ⟨.refl rule, rfl, rfl⟩
    · simp only [Session.start, List.getElem?_map, List.getElem?_zipIdx] at there
      cases specified : specs[i]? with
      | none => simp [specified] at there
      | some spec =>
        obtain rfl : _ = site := by simpa [specified] using there
        exact ⟨.new .never, by simp [Session.start, specified, SiteSpec.quiet], rfl⟩
  whole := .start _ clock
  pruned := .start specs clock

end Twins

/-- Passes leave no trace under `latestPrior`. Run the same actions twice on fresh stores with
this rule, once under whatever policies and once under policies that run no pass: then
whatever is asked next gets the same answer in both runs, if it is one that can be compared. -/
theorem run_quiet (specs : List (SiteSpec K V))
    (latest : ∀ spec ∈ specs, spec.lookup = .latestPrior) (clock : Nat)
    (actions : List (Action K V)) (action : Action K V)
    (comparable : action.Comparable ((start specs clock).run actions)) :
    (((start (specs.map SiteSpec.quiet) clock).run (actions.map Action.quiet)).perform
        action.quiet).1 =
      (((start specs clock).run actions).perform action).1 := by
  obtain ⟨logs, twins⟩ := (Twins.start specs latest clock).run actions
  exact (twins.perform action).2 comparable

/-- The run in which a key is removed and added again gives up three rosters, and the key
reads as it would if it had not. -/
theorem run_quiet_trial :
    let quiet := (start ((trialSpecs .latestPrior).map SiteSpec.quiet) 0).run
      (trialActions.map Action.quiet)
    (quiet.perform (.retained 0)).1 = .ok (.revisions [0, 1, 2, 3, 4]) ∧
      ((trial .latestPrior).perform (.retained 0)).1 = .ok (.revisions [3, 4]) ∧
        (quiet.perform (.getAt 0 4 1)).1 = ((trial .latestPrior).perform (.getAt 0 4 1)).1 := by
  refine ⟨rfl, rfl, ?_⟩
  have latest : ∀ spec ∈ trialSpecs .latestPrior, spec.lookup = .latestPrior := by
    simp [trialSpecs]
  obtain ⟨site, there⟩ : ∃ site, (trial .latestPrior).sites[0]? = some site := ⟨_, rfl⟩
  have retained : ((trial .latestPrior).sites[0]?.bind fun site => site.store.roster? 4) =
      some ⟨4, 0, [1]⟩ := by decide
  rw [there] at retained
  exact run_quiet (trialSpecs .latestPrior) latest 0 trialActions (.getAt 0 4 1)
    ⟨site, _, there, retained⟩

end Session

end RevisionStore
