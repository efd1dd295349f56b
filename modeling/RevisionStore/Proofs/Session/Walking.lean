import RevisionStore.Proofs.Draft.Walking
import RevisionStore.Proofs.Session.Agreement
import RevisionStore.Proofs.Session.Conflicts
import RevisionStore.Proofs.Session.Cursors

/-!
# Walks in a session

A cursor is good for as long as nothing bumps the version of the copy that it was made for.
`Session.Bumps` lists what does. Between bumps the keys of the copy stay the same, and what is left
of the walk is a suffix of them, whatever is read, committed or given up in between
(`Session.Walks`). So the steps of the cursor come to one key after the other, and after a bump
they are all refused (`reachable_cursor_walks`).
-/

namespace RevisionStore

variable {K V : Type}

/-! ## What an action does to a walk -/

/-- An action steps a cursor. -/
def Action.steps (cursor : String) : Action K V → Bool
  | .stepCursor cursor' _ _ => cursor' = cursor
  | _ => false

/-- An action leaves a copy open, and a cursor over it in place: it does not let go of the copy,
gives the name of the cursor to no other one, and does not step it on another copy. -/
def Action.Spares (name cursor : String) : Action K V → Prop
  | .close name' _ | .drop name' => name' ≠ name
  | .makeCursor _ cursor' | .cloneCursor _ cursor' => cursor' ≠ cursor
  | .stepCursor cursor' name' _ => cursor' = cursor → name' = name
  | _ => True

variable [DecidableEq K]

namespace Session

/-- A refresh of a copy in some mode comes to a current key of its site whose value it
overwrites. -/
def Refreshes (s : Session K V) (name : String) (mode : Refresh.Mode) : Prop :=
  ∃ lent site roster k, s.copies.get? name = some lent ∧ s.usable lent.home = .ok site ∧
    site.store.roster? site.store.revision = some roster ∧ k ∈ roster.keys ∧
      lent.item.draft.Refreshable mode k

/-- An action bumps the version of a copy. -/
inductive Bumps (s : Session K V) (name : String) : Action K V → Prop
  | add (k : K) (v : V) : Bumps s name (.add name k v)
  | replace {k : K} {v : V} (done : (s.perform (.replace name k v)).1 = .ok .done) :
      Bumps s name (.replace name k v)
  | remove {k : K} (taken : (s.perform (.remove name k)).1 = .ok (.flag true)) :
      Bumps s name (.remove name k)
  | revert : Bumps s name (.revert name)
  | update {options : Refresh.Options} (done : (s.perform (.update name options)).1 = .ok .done)
      (refreshes : s.Refreshes name options.mode) : Bumps s name (.update name options)
  | updateWithFlags {flags : Refresh.Flags} {options : Refresh.Options}
      (described : flags.toOptions = .ok options)
      (done : (s.perform (.updateWithFlags name flags)).1 = .ok .done)
      (refreshes : s.Refreshes name options.mode) : Bumps s name (.updateWithFlags name flags)

/-- No action of a run bumps the version of a copy. -/
def Undisturbed (s : Session K V) (name : String) : List (Action K V) → Prop
  | [] => True
  | action :: rest => ¬ s.Bumps name action ∧ (s.perform action).2.Undisturbed name rest

variable {s t : Session K V} {name cursor : String} {action : Action K V}
  {lent lent' : Lent (WorkingCopy K V)} {site : Site K V} {c : Cursor}

/-! ## Bumps -/

/-- What bumps the version of a copy asks more of its draft than to read. -/
theorem Bumps.exists_request (bumps : s.Bumps name action) :
    ∃ request, Asks action name request ∧ request.reads = false := by
  cases bumps with
  | add k v => exact ⟨_, .add, rfl⟩
  | replace => exact ⟨_, .replace, rfl⟩
  | remove => exact ⟨_, .remove, rfl⟩
  | revert => exact ⟨_, .revert, rfl⟩
  | update _ refreshes =>
    obtain ⟨_, site, _⟩ := refreshes
    exact ⟨.update _ site.reconciler fun _ => .ok [], .update, rfl⟩
  | @updateWithFlags flags options _ _ refreshes =>
    obtain ⟨_, site, _⟩ := refreshes
    exact ⟨.update options site.reconciler fun _ => .ok [], .updateWithFlags, rfl⟩

section Reacts

variable (opened : s.copies.get? name = some lent)
include opened

theorem perform_add (k : K) (v : V) :
    s.perform (.add name k v) = (.ok .done, s.putDraft name lent (lent.item.draft.add k v)) := by
  simp [perform, answered, onDraft, named_eq_ok_iff.2 opened, Except.map, Except.mapError]

theorem perform_replace (k : K) (v : V) :
    s.perform (.replace name k v) =
      (((lent.item.draft.replace k v).mapError fun rule => .failed (.rule rule)).map fun _ => .done,
        s.putDraft name lent ((lent.item.draft.replace k v).toOption.getD lent.item.draft)) := by
  simp only [perform, answered, onDraft, named_eq_ok_iff.2 opened]
  cases lent.item.draft.replace k v <;> rfl

theorem perform_remove (k : K) :
    s.perform (.remove name k) =
      (((lent.item.draft.remove k).mapError fun rule => .failed (.rule rule)).map
          fun answer => .flag answer.1,
        s.putDraft name lent (lent.item.draft.settled (lent.item.draft.remove k))) := by
  simp only [perform, answered, onDraft, named_eq_ok_iff.2 opened]
  cases lent.item.draft.remove k <;> rfl

theorem perform_revert :
    s.perform (.revert name) = (.ok .done, s.putDraft name lent lent.item.draft.revert) := by
  simp [perform, answered, onDraft, named_eq_ok_iff.2 opened, Except.map, Except.mapError]

theorem perform_updateWithFlags (flags : Refresh.Flags) :
    s.perform (.updateWithFlags name flags) =
      match flags.toOptions with
      | .ok options => s.perform (.update name options)
      | .error cause => (.error (.failed (.refused cause.toStoreError)), s) := by
  simp only [perform, answered, updateWithFlags, named_eq_ok_iff.2 opened]
  cases flags.toOptions <;> rfl

theorem reacts_replace (k : K) (v : V) :
    lent.item.draft.Reacts ((lent.item.draft.replace k v).toOption.getD lent.item.draft)
      (s.Bumps name (.replace name k v)) := by
  have performed := congrArg Prod.fst (perform_replace opened k v)
  cases replaced : lent.item.draft.replace k v with
  | error rule =>
    refine .calm (fun bumps => ?_) (.refl _)
    cases bumps with
    | replace done => simp [performed, replaced, Except.mapError, Except.map] at done
  | ok d' =>
    have done : (s.perform (.replace name k v)).1 = .ok .done := by
      rw [performed, replaced]
      rfl
    exact .bumped (.replace done) (Nat.lt_of_succ_le (Draft.version_of_replace replaced).ge)

theorem reacts_remove (k : K) :
    lent.item.draft.Reacts (lent.item.draft.settled (lent.item.draft.remove k))
      (s.Bumps name (.remove name k)) := by
  have performed := congrArg Prod.fst (perform_remove opened k)
  have spared (other : (s.perform (.remove name k)).1 ≠ .ok (.flag true)) :
      ¬ s.Bumps name (.remove name k) := fun bumps => by
    cases bumps with
    | remove taken => exact other taken
  cases removed : lent.item.draft.remove k with
  | error rule =>
    exact .calm (spared (by simp [performed, removed, Except.mapError, Except.map])) (.refl _)
  | ok answer =>
    obtain ⟨b, d'⟩ := answer
    cases b with
    | false =>
      rw [Draft.eq_of_remove_false removed]
      exact .calm (spared (by simp [performed, removed, Except.mapError, Except.map])) (.refl _)
    | true =>
      have taken : (s.perform (.remove name k)).1 = .ok (.flag true) := by
        rw [performed, removed]
        rfl
      exact .bumped (.remove taken) (Nat.lt_of_succ_le (Draft.version_of_remove_true removed).ge)

theorem reacts_update (usable : s.usable lent.home = .ok site)
    (total : site.reconciler.Total) (kept : site.store.WellKept) (options : Refresh.Options) :
    lent.item.draft.Reacts (lent.item.draft.update options site.reconciler
        (site.store.liveValues site.reconciler)).2
      ((s.perform (.update name options)).1 = .ok .done ∧ s.Refreshes name options.mode) := by
  obtain ⟨roster, current⟩ := kept.current
  have asked : site.store.liveValues site.reconciler lent.item.draft.staged =
      .ok (pairsOf (site.store.shown site.reconciler) lent.item.draft.staged) := by
    rw [Store.liveValues_eq kept total]
  refine (Draft.reacts_update options total asked).congr (and_congr ?_ ?_)
  · rw [perform_update opened usable]
    cases (lent.item.draft.update options site.reconciler
      (site.store.liveValues site.reconciler)).1 <;> simp [Except.mapError, Except.map]
  · simp only [Store.isSome_shown kept total current]
    constructor
    · rintro ⟨_, _, _, k, opened', usable', current', member, refreshable⟩
      obtain rfl := Option.some.inj (opened.symm.trans opened')
      obtain rfl := Except.ok.inj (usable.symm.trans usable')
      obtain rfl := Option.some.inj (current.symm.trans current')
      exact ⟨k, member, refreshable⟩
    · rintro ⟨k, member, refreshable⟩
      exact ⟨lent, site, roster, k, opened, usable, current, member, refreshable⟩

/-- What an action makes of the draft of a copy that is still open after it. -/
theorem reacts_perform (usable : s.usable lent.home = .ok site) (total : site.reconciler.Total)
    (kept : site.store.WellKept) (stays : ¬ LetsGo action name)
    (opened' : (s.perform action).2.copies.get? name = some lent') :
    lent.item.draft.Reacts lent'.item.draft (s.Bumps name action) := by
  have put {d : Draft K V} (left : (s.perform action).2 = s.putDraft name lent d) :
      lent'.item.draft = d := by
    rw [left] at opened'
    exact congrArg (·.item.draft) (Option.some.inj (opened'.symm.trans (Dict.get?_put_self _ _ _)))
  have update (options : Refresh.Options)
      (same : s.perform action = s.perform (.update name options)) :=
    put ((congrArg Prod.snd same).trans (congrArg Prod.snd (perform_update opened usable options)))
      ▸ reacts_update opened usable total kept options
  by_cases reads : ∀ request, Asks action name request → request.reads = true
  · refine .calm (fun bumps => ?_) ?_
    · obtain ⟨request, asks, stages⟩ := bumps.exists_request
      rw [reads request asks] at stages
      cases stages
    · obtain ⟨lent'', opened'', under⟩ := (s.perform_effect action).under opened stays
      obtain rfl := Option.some.inj (opened'.symm.trans opened'')
      cases under with
      | spared => exact .refl _
      | asked asks => exact (Draft.glances_after (reads _ asks)).calm
  · -- only six actions ask more of a draft than to read
    obtain ⟨request, asks, stages⟩ : ∃ request, Asks action name request ∧
        ¬ request.reads = true := by simpa using reads
    cases asks with
    | @add _ k v =>
      rw [put (congrArg Prod.snd (perform_add opened k v))]
      exact .bumped (.add k v) (Nat.lt_of_succ_le (Draft.version_add _ k v).ge)
    | @replace _ k v =>
      rw [put (congrArg Prod.snd (perform_replace opened k v))]
      exact reacts_replace opened k v
    | @remove _ k =>
      rw [put (congrArg Prod.snd (perform_remove opened k))]
      exact reacts_remove opened k
    | revert =>
      rw [put (congrArg Prod.snd (perform_revert opened))]
      exact .bumped .revert (Nat.lt_succ_self _)
    | @update _ options =>
      refine (update options rfl).congr ⟨fun bumps => ?_, fun both => .update both.1 both.2⟩
      cases bumps with
      | update done refreshes => exact ⟨done, refreshes⟩
    | @updateWithFlags _ flags =>
      have performed := perform_updateWithFlags opened flags
      cases described : flags.toOptions with
      | ok options =>
        simp only [described] at performed
        refine (update options performed).congr ⟨fun bumps => ?_, fun both =>
          .updateWithFlags described (performed ▸ both.1) both.2⟩
        cases bumps with
        | updateWithFlags described' done refreshes =>
          obtain rfl := Except.ok.inj (described.symm.trans described')
          exact ⟨performed ▸ done, refreshes⟩
      | error cause =>
        simp only [described] at performed
        rw [performed, opened] at opened'
        obtain rfl := Option.some.inj opened'
        refine .calm (fun bumps => ?_) (.refl _)
        cases bumps with
        | updateWithFlags described' =>
          rw [described] at described'
          cases described'
    | _ => exact absurd rfl stages

end Reacts

/-! ## Cursors under way -/

omit [DecidableEq K] in
theorem not_letsGo_of_spares (spares : action.Spares name cursor) : ¬ LetsGo action name := by
  intro leaves
  cases leaves with
  | close => exact spares rfl
  | drop => exact spares rfl

theorem perform_stepCursor (found : s.cursors.get? cursor = some c)
    (opened : s.copies.get? name = some lent) (value? : Option V) :
    s.perform (.stepCursor cursor name value?) =
      (((c.next lent.item.draft (s.fetch lent.home lent.item.draft.revision)).1.mapError
          .failed).map .pair,
        { s.putDraft name lent (lent.item.draft.after
            (.step (s.fetch lent.home lent.item.draft.revision) c value?)) with
          cursors := s.cursors.put cursor
            (c.next lent.item.draft (s.fetch lent.home lent.item.draft.revision)).2.1 }) := by
  simp only [perform, answered, stepCursor, named_eq_ok_iff.2 found, named_eq_ok_iff.2 opened]
  rfl

/-- What becomes of a cursor in an action that leaves it in place: it comes to the next key, if it
is stepped and the version of the copy is the one that it was made at. -/
theorem exists_cursor_perform (opened : s.copies.get? name = some lent)
    (found : s.cursors.get? cursor = some c) (spares : action.Spares name cursor) :
    ∃ c', (s.perform action).2.cursors.get? cursor = some c' ∧ c'.stamp = c.stamp ∧
      (lent.item.draft.version = c.stamp → c'.remaining lent.item.draft =
        (c.remaining lent.item.draft).drop (if action.steps cursor then 1 else 0)) := by
  by_cases steps : action.steps cursor = true
  · cases action with
    | stepCursor cursor' name' value? =>
      obtain rfl : cursor' = cursor := by simpa [Action.steps] using steps
      obtain rfl : name' = name := spares rfl
      rw [perform_stepCursor found opened]
      refine ⟨_, Dict.get?_put_self _ _ _, ?_, fun fresh => ?_⟩
      · by_cases fresh : lent.item.draft.version = c.stamp
        · rw [Cursor.next_cursor fresh, Cursor.stamp_advance]
        · rw [Cursor.next_of_stale fresh]
      · rw [Cursor.next_cursor fresh, (c.advance_remaining _).2, if_pos steps, List.drop_one]
    | _ => cases steps
  · have still {name' : String} {c' : Cursor} (other : cursor ≠ name') :
        (s.cursors.put name' c').get? cursor = some c := by
      rw [Dict.get?_put_of_ne _ _ other, found]
    refine ⟨c, ?_, rfl, fun _ => by simp [steps]⟩
    have points := s.perform_points action
    generalize (s.perform action).2.cursors = cursors at points
    cases points with
    | apart same => rw [same, found]
    | made => exact still (Ne.symm spares)
    | cloned => exact still (Ne.symm spares)
    | stepped => exact still fun same => steps (by simp [Action.steps, same])

/-- A cursor that was made for a copy when it was `lent`, and has been stepped `n` times since. If
nothing has disturbed the copy, what is left of the walk are the keys that there were then, but
for the first `n`. -/
structure Walks (s : Session K V) (name cursor : String) (lent lent' : Lent (WorkingCopy K V))
    (c : Cursor) (n : Nat) (disturbed : Prop) : Prop where
  opened : s.copies.get? name = some lent'
  found : s.cursors.get? cursor = some c
  home : lent'.home = lent.home
  id : lent'.item.id = lent.item.id
  stamp : c.stamp = lent.item.draft.version
  reacts : lent.item.draft.Reacts lent'.item.draft disturbed
  ahead : ¬ disturbed → c.remaining lent'.item.draft = lent.item.draft.keys.drop n

namespace Walks

variable {n : Nat} {disturbed : Prop} {logs : Nat → List (Commit K V)} {rule : Lookup}

/-- A cursor has all keys before it when it is made. -/
theorem make (opened : s.copies.get? name = some lent) (cursor : String) :
    (s.perform (.makeCursor name cursor)).2.Walks name cursor lent lent lent.item.draft.cursor 0
      False := by
  have made : (s.perform (.makeCursor name cursor)).2 =
      { s with cursors := s.cursors.put cursor lent.item.draft.cursor } := by
    simp [perform, answered, makeCursor, named_eq_ok_iff.2 opened]
  rw [made]
  exact {
    opened := opened
    found := Dict.get?_put_self _ _ _
    home := rfl
    id := rfl
    stamp := rfl
    reacts := .calm not_false (.refl _)
    ahead := fun _ => Cursor.remaining_cursor _ }

/-- A cursor whose copy is undisturbed has the version of the copy. -/
theorem fresh (walks : s.Walks name cursor lent lent' c n disturbed) (calm : ¬ disturbed) :
    lent'.item.draft.version = c.stamp :=
  (walks.reacts.version_eq_iff.2 calm).trans walks.stamp.symm

theorem perform (walks : s.Walks name cursor lent lent' c n disturbed)
    (serves : s.Serves lent.home rule) (sound : s.Sound logs)
    (spares : action.Spares name cursor) :
    ∃ lent'' c', (s.perform action).2.Walks name cursor lent lent'' c'
      (n + if action.steps cursor then 1 else 0) (disturbed ∨ s.Bumps name action) := by
  obtain ⟨site, there, service⟩ := serves
  have usable : s.usable lent'.home = .ok site :=
    usable_eq_ok_iff.2 ⟨walks.home ▸ there, service.sound⟩
  have stays := not_letsGo_of_spares spares
  obtain ⟨lent'', opened'', under⟩ := (s.perform_effect action).under walks.opened stays
  have reacts := reacts_perform walks.opened usable service.total
    (sound.stores _ site there).kept stays opened''
  obtain ⟨c', found', stamp, ahead⟩ := exists_cursor_perform walks.opened walks.found spares
  refine ⟨lent'', c', opened'', found', under.continues.home.trans walks.home,
    under.continues.id.trans walks.id, stamp.trans walks.stamp, walks.reacts.trans reacts,
    fun calm => ?_⟩
  obtain ⟨undisturbed, spared⟩ := not_or.1 calm
  cases reacts with
  | bumped does => exact absurd does spared
  | calm _ calm =>
    rw [Cursor.remaining_congr calm.toSameKeys, ahead (walks.fresh undisturbed),
      walks.ahead undisturbed, List.drop_drop]

theorem run (walks : s.Walks name cursor lent lent' c n disturbed)
    (serves : s.Serves lent.home rule) (sound : s.Sound logs) (actions : List (Action K V))
    (totals : ∀ r, .setReconciler lent.home r ∈ actions → r.Total)
    (spares : ∀ action ∈ actions, action.Spares name cursor) :
    ∃ lent'' c', (s.run actions).Walks name cursor lent lent'' c'
      (n + actions.countP (·.steps cursor)) (disturbed ∨ ¬ s.Undisturbed name actions) := by
  induction actions generalizing s lent' c n disturbed logs with
  | nil => exact ⟨lent', c, by simpa [Undisturbed, Session.run] using walks⟩
  | cons action rest ih =>
    obtain ⟨first, spares⟩ := List.forall_mem_cons.1 spares
    obtain ⟨lent₁, c₁, walks₁⟩ := walks.perform serves sound first
    have serves₁ := serves.perform action fun r asked => totals r (asked ▸ List.mem_cons_self)
    obtain ⟨lent₂, c₂, walks₂⟩ := ih walks₁ serves₁ (sound.perform action)
      (fun r member => totals r (List.mem_cons_of_mem _ member)) spares
    have count : n + (action :: rest).countP (·.steps cursor) =
        (n + if action.steps cursor then 1 else 0) + rest.countP (·.steps cursor) := by
      rw [List.countP_cons]
      omega
    have bumped : (disturbed ∨ ¬ s.Undisturbed name (action :: rest)) ↔
        (disturbed ∨ s.Bumps name action) ∨ ¬ (s.perform action).2.Undisturbed name rest := by
      simp only [Undisturbed]
      tauto
    exact ⟨lent₂, c₂, by rw [count, propext bumped]; exact walks₂⟩

end Walks

/-! ## The steps of a walk -/

section Steps

variable {n : Nat} {disturbed : Prop} {logs : Nat → List (Commit K V)}
  (walks : s.Walks name cursor lent lent' c n disturbed)
include walks

/-- Once the copy has been disturbed every step is refused. -/
theorem perform_stepCursor_of_disturbed (bumped : disturbed) (value? : Option V) :
    (s.perform (.stepCursor cursor name value?)).1 =
      .error (.failed (.refused .changedUnderCursor)) := by
  have stale : lent'.item.draft.version ≠ c.stamp := by
    rw [walks.stamp]
    exact fun same => walks.reacts.version_eq_iff.1 same bumped
  rw [perform_stepCursor walks.found walks.opened, Cursor.next_of_stale stale]
  rfl

/-- When all keys have been stepped on, a step comes to the end. -/
theorem perform_stepCursor_of_end (calm : ¬ disturbed)
    (beyond : lent.item.draft.keys[n]? = none) (value? : Option V) :
    (s.perform (.stepCursor cursor name value?)).1 = .ok (.pair none) := by
  have nothing : c.remaining lent'.item.draft = [] := by
    rw [walks.ahead calm, List.drop_eq_nil_of_le (List.getElem?_eq_none_iff.1 beyond)]
  rw [perform_stepCursor walks.found walks.opened,
    (Cursor.next_of_remaining_nil (walks.fresh calm) nothing).1]
  rfl

/-- Until then a step comes to the next key, with the value that a read of the key gives. -/
theorem perform_stepCursor_of_key (serves : s.Serves lent.home .latestPrior)
    (sound : s.Sound logs) (calm : ¬ disturbed) {k : K}
    (next : lent.item.draft.keys[n]? = some k) (value? : Option V) :
    ∃ v after, (s.perform (.stepCursor cursor name value?)).1 = .ok (.pair (some (k, v))) ∧
      (s.perform (.read name k)).1 = .ok (.value (some v)) ∧
      (s.perform (.stepCursor cursor name value?)).2.copies.get? name = some after ∧
      (k ∈ after.item.draft.added ∨ k ∈ after.item.draft.touched) ∧
      after.item.draft.version = lent'.item.draft.version := by
  obtain ⟨site, there, service⟩ := serves
  rw [← walks.home] at there
  have usable : s.usable lent'.home = .ok site := usable_eq_ok_iff.2 ⟨there, service.sound⟩
  have registered := sound.registered walks.opened there
  have fetches : ∀ k ∈ lent'.item.draft.base.keys,
      ∃ v, s.fetch lent'.home lent'.item.draft.revision k = .ok (some v) := by
    intro k listed
    obtain ⟨v, contents⟩ := Option.isSome_iff_exists.1 ((registered.listed k).1 listed)
    obtain ⟨w, cloned⟩ := service.total.cloned v
    refine ⟨w, ?_⟩
    rw [fetch_of_usable usable, (sound.stores _ site there).tracks.getAt_of_contents
      service.lookup registered.watched contents, cloned]
    rfl
  have ahead : c.remaining lent'.item.draft = k :: lent.item.draft.keys.drop (n + 1) := by
    obtain ⟨bound, rfl⟩ := List.getElem?_eq_some_iff.1 next
    rw [walks.ahead calm, List.drop_eq_getElem_cons bound]
  have member : k ∈ lent'.item.draft.keys := by
    cases walks.reacts with
    | bumped does => exact absurd does calm
    | calm _ same => exact same.keys ▸ List.mem_of_getElem? next
  obtain ⟨v, d, read⟩ := registered.staged.exists_read fetches member
  obtain ⟨answer, left⟩ := Cursor.next_of_read (walks.fresh calm) ahead read
  have performed := perform_stepCursor walks.found walks.opened value?
  refine ⟨v, _, ?_, ?_, by rw [performed]; exact Dict.get?_put_self _ _ _, ?_, ?_⟩
  · rw [performed, answer]
    rfl
  · exact perform_read_of_ok walks.opened (by rw [read]; rfl)
  · exact registered.staged.staged_after_step answer (left ▸ Draft.local?_of_read read) value?
  · exact (Draft.glances_after rfl).calm.version

end Steps

/-- A cursor is made of an open copy of a session that can be reached, whose site has the rule
`latestPrior` and reconcilers that never give up; then anything happens that leaves the copy open
and the cursor in place. The version of the copy stays the same if no action was one that bumps
it, and only then. In this case its keys are what they were, and if the cursor has been stepped
`i` times, the next step answers with the `i`-th of them, counted from zero, and the value that a
read of it gives; the key is touched by that, unless it is added, and the version stays. If all of
them have been stepped on, the step comes to the end. But after any bump every step is refused. -/
theorem reachable_cursor_walks (reached : Reachable s) (opened : s.copies.get? name = some lent)
    (serves : s.Serves lent.home .latestPrior) (cursor : String) (actions : List (Action K V))
    (totals : ∀ r, .setReconciler lent.home r ∈ actions → r.Total)
    (spares : ∀ action ∈ actions, action.Spares name cursor) :
    let made := (s.perform (.makeCursor name cursor)).2
    let t := made.run actions
    let i := actions.countP (·.steps cursor)
    ∃ lent', t.copies.get? name = some lent' ∧ lent'.home = lent.home ∧
      lent'.item.id = lent.item.id ∧
      (lent'.item.draft.version = lent.item.draft.version ↔ made.Undisturbed name actions) ∧
      (made.Undisturbed name actions → lent'.item.draft.keys = lent.item.draft.keys ∧
        ∀ value?,
          (∀ k, lent'.item.draft.keys[i]? = some k → ∃ v after,
            (t.perform (.stepCursor cursor name value?)).1 = .ok (.pair (some (k, v))) ∧
            (t.perform (.read name k)).1 = .ok (.value (some v)) ∧
            (t.perform (.stepCursor cursor name value?)).2.copies.get? name = some after ∧
            (k ∈ after.item.draft.added ∨ k ∈ after.item.draft.touched) ∧
            after.item.draft.version = lent'.item.draft.version) ∧
          (lent'.item.draft.keys[i]? = none →
            (t.perform (.stepCursor cursor name value?)).1 = .ok (.pair none))) ∧
      (¬ made.Undisturbed name actions → ∀ value?,
        (t.perform (.stepCursor cursor name value?)).1 =
          .error (.failed (.refused .changedUnderCursor))) := by
  intro made t i
  have reached' : Reachable made := reached.perform (.makeCursor name cursor)
  obtain ⟨logs, sound⟩ := reached'.sound
  have serves' : made.Serves lent.home .latestPrior := serves.perform _ nofun
  obtain ⟨lent', c, walks⟩ := (Walks.make opened cursor).run serves' sound actions totals spares
  simp only [Nat.zero_add, false_or] at walks
  refine ⟨lent', walks.opened, walks.home, walks.id,
    walks.reacts.version_eq_iff.trans not_not, fun calm => ?_, fun bumped value? => ?_⟩
  · have keys : lent'.item.draft.keys = lent.item.draft.keys := by
      cases walks.reacts with
      | bumped does => exact absurd calm does
      | calm _ same => exact same.keys
    refine ⟨keys, fun value? => ⟨fun k next => ?_, fun beyond => ?_⟩⟩
    · exact perform_stepCursor_of_key walks (serves'.run actions totals) (sound.run actions)
        (not_not.2 calm) (keys ▸ next) value?
    · exact perform_stepCursor_of_end walks (not_not.2 calm) (keys ▸ beyond) value?
  · exact perform_stepCursor_of_disturbed walks bumped value?

/-- One of three base keys is removed in a copy, and another key is added. -/
def strolled : Session Nat Nat :=
  (start (trialSpecs .latestPrior) 0).run
    [.checkout 0 "a", .add "a" 1 5, .add "a" 2 6, .add "a" 3 7, .commit "a" none, .close "a" none,
      .checkout 0 "b", .remove "b" 2, .add "b" 4 8]

/-- Two steps of a cursor. In between the base is given up, and in the second step the value that
is read is overwritten. -/
def strollActions : List (Action Nat Nat) :=
  [.stepCursor "c" "b" none, .checkout 0 "d", .replace "d" 3 9, .commit "d" none, .close "d" none,
    .setPolicy 0 (.crowd 5), .expire 0, .stepCursor "c" "b" (some 1)]

/-- The next step comes to the added key; but once the copy is reverted it is refused. -/
theorem reachable_cursor_walks_strolled :
    let t := (strolled.perform (.makeCursor "b" "c")).2.run strollActions
    (t.perform (.stepCursor "c" "b" none)).1 = .ok (.pair (some (4, 8))) ∧
      ((t.perform (.revert "b")).2.perform (.stepCursor "c" "b" none)).1 =
        .error (.failed (.refused .changedUnderCursor)) := by
  intro t
  have reached : Reachable strolled := .run (.start _ _) _
  obtain ⟨lent, opened⟩ : ∃ lent, strolled.copies.get? "b" = some lent := ⟨_, rfl⟩
  have before : (strolled.copies.get? "b").map (fun lent => (lent.home, lent.item.draft.version)) =
    some (0, 2) := by decide
  simp only [opened, Option.map_some, Option.some.injEq, Prod.mk.injEq] at before
  obtain ⟨home, version⟩ := before
  have specified : (trialSpecs .latestPrior)[0]? =
    some ⟨.plain, .latestPrior, Retention.Plan.standard.policy, .discarding⟩ := rfl
  have serves : strolled.Serves lent.home .latestPrior :=
    home ▸ (Serves.start specified Reconciler.total_plain 0).run _ (by simp)
  have walks (actions : List (Action Nat Nat))
      (spares : ∀ action ∈ actions, action.Spares "b" "c")
      (kept : ∀ r, .setReconciler lent.home r ∉ actions) :=
    reachable_cursor_walks reached opened serves "c" actions
      (fun r member => absurd member (kept r)) spares
  constructor
  · obtain ⟨lent', opened', -, -, undisturbed, calm, -⟩ := walks strollActions
      (by simp [strollActions, Action.Spares]) (by simp [strollActions])
    have after : (t.copies.get? "b").map (fun lent =>
      (lent.item.draft.version, lent.item.draft.keys)) = some (2, [1, 3, 4]) := by decide
    simp only [t, opened', Option.map_some, Option.some.injEq, Prod.mk.injEq] at after
    obtain ⟨version', keys⟩ := after
    obtain ⟨-, steps⟩ := calm (undisturbed.1 (version'.trans version.symm))
    obtain ⟨v, _, step, read, -⟩ := (steps none).1 4 (by rw [keys]; rfl)
    have value : (t.perform (.read "b" 4)).1 = .ok (.value (some 8)) := rfl
    obtain rfl : 8 = v := by simpa using value.symm.trans read
    exact step
  · obtain ⟨lent', opened', -, -, undisturbed, -, refused⟩ := walks (strollActions ++ [.revert "b"])
      (by simp [strollActions, Action.Spares]) (by simp [strollActions])
    rw [run_concat] at opened' refused
    have after : ((t.perform (.revert "b")).2.copies.get? "b").map (·.item.draft.version) =
      some 3 := by decide
    have version' : lent'.item.draft.version = 3 := by simpa [t, opened'] using after
    exact refused (fun calm => by simpa [version, version'] using undisturbed.2 calm) none

end Session

end RevisionStore
