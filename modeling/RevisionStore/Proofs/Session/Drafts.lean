import RevisionStore.Proofs.Session.Course

/-!
# The drafts of open copies

A copy that is open after an action was just opened, with a fresh draft, or it was open before.
Then its draft is as it was, or the action asked something of it (`Effect.copies`).
-/

namespace RevisionStore

variable {K V : Type} [DecidableEq K]

/-- An open copy and what one action makes of it. -/
inductive Lent.Under (action : Action K V) (name : String) :
    Lent (WorkingCopy K V) → Lent (WorkingCopy K V) → Prop
  | spared (lent : Lent (WorkingCopy K V)) : Under action name lent lent
  | asked {lent : Lent (WorkingCopy K V)} {request : Draft.Request K V}
      (asks : Session.Asks action name request) :
      Under action name lent
        { lent with item := { lent.item with draft := lent.item.draft.after request } }

variable {action : Action K V} {name : String} {lent lent' : Lent (WorkingCopy K V)}

theorem Lent.Under.continues (under : lent.Under action name lent') : lent.Continues lent' := by
  cases under with
  | spared => exact .refl _
  | asked asks => exact ⟨rfl, rfl, Draft.evolves_after _⟩

namespace Session

variable {s t : Session K V}

omit [DecidableEq K] in
theorem copies_without (s : Session K V) (name : String) (lent : Lent (WorkingCopy K V)) :
    (s.without name lent).copies = s.copies.erase name := by
  obtain ⟨site, _, left⟩ | ⟨_, left⟩ := s.without_eq_or name lent
  · rw [left]
    rfl
  · rw [left]

theorem copies_expire (s : Session K V) (i : Nat) : (s.expire i).2.copies = s.copies := by
  obtain ⟨site, _, passed⟩ | same := s.expire_eq_or i
  · rw [passed]
    rfl
  · rw [same]

/-- A copy that is open after an action was open before, or has a fresh draft over the current
roster. -/
theorem Effect.copies (effect : s.Effect action t) (opened' : t.copies.get? name = some lent') :
    (∃ lent, s.copies.get? name = some lent ∧ lent.Under action name lent') ∨
      lent'.item.draft = .new lent'.item.draft.base ∧
        ∃ site', t.sites[lent'.home]? = some site' ∧
          site'.store.roster? site'.store.revision = some lent'.item.draft.base := by
  have still (opened : s.copies.get? name = some lent') :
      ∃ lent, s.copies.get? name = some lent ∧ lent.Under action name lent' :=
    ⟨lent', opened, .spared _⟩
  have erased {name' : String} (opened : (s.copies.erase name').get? name = some lent') :
      s.copies.get? name = some lent' := by
    rw [Dict.get?_erase] at opened
    split at opened
    next => cases opened
    next => exact opened
  cases effect with
  | aside calm sites archives copies => exact .inl (still (copies ▸ opened'))
  | @redrafted _ _ name' lent request calm opened asks sites archives copies =>
    rw [copies, putDraft, Dict.get?_put] at opened'
    split at opened'
    next same =>
      obtain rfl := Option.some.inj opened'
      exact .inl ⟨lent, same ▸ opened, same ▸ .asked asks⟩
    next => exact .inl (still opened')
  | refitted calm there refitted sites archives copies => exact .inl (still (copies ▸ opened'))
  | reconciled there => exact .inl (still opened')
  | @opened j name' site id base store there free made announced =>
    rw [Dict.get?_put] at opened'
    split at opened'
    next =>
      obtain rfl := Option.some.inj opened'
      obtain ⟨current, _, rfl⟩ := Store.checkout_eq_ok_iff.1 made
      exact .inr ⟨rfl, _, (getElem?_putSite there).trans (if_pos rfl), current⟩
    next => exact .inl (still opened')
  | committed opened there succeeded logged => exact .inl (still opened')
  | left calm opened => exact .inl (still (erased (copies_without s _ _ ▸ opened')))
  | closed calm opened =>
    rw [copies_expire, copies_without] at opened'
    exact .inl (still (erased opened'))
  | passed j => exact .inl (still (copies_expire s j ▸ opened'))
  | drained there recording => exact .inl (still opened')

/-- A copy stays open unless an action lets go of it. -/
theorem Effect.under (effect : s.Effect action t) (opened : s.copies.get? name = some lent)
    (stays : ¬ LetsGo action name) :
    ∃ lent', t.copies.get? name = some lent' ∧ lent.Under action name lent' := by
  have still (copies : t.copies = s.copies) :
      ∃ lent', t.copies.get? name = some lent' ∧ lent.Under action name lent' :=
    ⟨lent, copies ▸ opened, .spared lent⟩
  have spared {name' : String} (leaves : LetsGo action name')
      (copies : t.copies = s.copies.erase name') :
      ∃ lent', t.copies.get? name = some lent' ∧ lent.Under action name lent' := by
    have other : name ≠ name' := fun same => stays (same ▸ leaves)
    exact ⟨lent, by rw [copies, Dict.get?_erase_of_ne _ other, opened], .spared lent⟩
  cases effect with
  | aside calm sites archives copies => exact still copies
  | @redrafted _ _ name' found request calm opened' asks sites archives copies =>
    by_cases same : name = name'
    · subst same
      obtain rfl := Option.some.inj (opened.symm.trans opened')
      exact ⟨_, copies ▸ Dict.get?_put_self _ _ _, .asked asks⟩
    · exact ⟨lent, by rw [copies, putDraft, Dict.get?_put_of_ne _ _ same, opened], .spared lent⟩
  | refitted calm there refitted sites archives copies => exact still copies
  | reconciled there => exact still rfl
  | @opened j name' site id base store there free made announced =>
    have other : name ≠ name' := by
      rintro rfl
      simp [free] at opened
    exact ⟨lent, by rw [Dict.get?_put_of_ne _ _ other, opened], .spared lent⟩
  | committed opened there succeeded logged => exact still rfl
  | left calm opened' leaves => exact spared leaves (copies_without s _ _)
  | closed calm opened' leaves =>
    exact spared leaves ((copies_expire _ _).trans (copies_without s _ _))
  | passed j => exact still (copies_expire s j)
  | drained there recording => exact still rfl

end Session

end RevisionStore
