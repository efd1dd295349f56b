import RevisionStore.Proofs.Session.Drafts

/-!
# Cursors in a session

Cursors are made of copies, cloned and stepped, and no other action takes notice of them
(`Session.Points`).
-/

namespace RevisionStore

namespace Session

variable {K V : Type}

section Operations

variable (s : Session K V) {i : Nat} {name : String}

theorem cursors_without (lent : Lent (WorkingCopy K V)) :
    (s.without name lent).cursors = s.cursors := by
  obtain ⟨_, _, left⟩ | ⟨_, left⟩ := s.without_eq_or name lent <;> rw [left]
  rfl

theorem cursors_drop : (s.drop name).2.cursors = s.cursors := by
  simp only [Session.drop]
  split
  next => rfl
  next lent _ => exact s.cursors_without lent

variable [DecidableEq K]

theorem cursors_expire : (s.expire i).2.cursors = s.cursors := by
  obtain ⟨_, _, passed⟩ | same := s.expire_eq_or i
  · rw [passed]
    rfl
  · rw [same]

theorem cursors_close (target : Option Nat) : (s.close name target).2.cursors = s.cursors := by
  obtain same | ⟨lent, _, left | closed⟩ := s.close_eq_or name target
  · rw [same]
  · rw [left, cursors_without]
  · rw [closed, cursors_expire, cursors_without]

theorem cursors_onDraft {α : Type}
    (work : Draft K V → (K → Except Failure (Option V)) → Except Failure α × Draft K V) :
    (s.onDraft name work).2.cursors = s.cursors := by
  simp only [onDraft]
  split <;> rfl

theorem cursors_update (options : Refresh.Options) :
    (s.update name options).2.cursors = s.cursors := by
  simp only [Session.update]
  repeat' split
  all_goals rfl

end Operations

variable [DecidableEq K]

/-- What one action makes of the cursors of a session. -/
inductive Points (s : Session K V) : Action K V → Dict String Cursor → Prop
  | apart {action : Action K V} {cursors : Dict String Cursor} (same : cursors = s.cursors) :
      Points s action cursors
  | made {name cursor : String} {lent : Lent (WorkingCopy K V)}
      (opened : s.copies.get? name = some lent) :
      Points s (.makeCursor name cursor) (s.cursors.put cursor lent.item.draft.cursor)
  | cloned {cursor clone : String} {c : Cursor} (found : s.cursors.get? cursor = some c) :
      Points s (.cloneCursor cursor clone) (s.cursors.put clone c)
  | stepped {cursor name : String} {value? : Option V} {c : Cursor}
      {lent : Lent (WorkingCopy K V)} (found : s.cursors.get? cursor = some c)
      (opened : s.copies.get? name = some lent) :
      Points s (.stepCursor cursor name value?)
        (s.cursors.put cursor
          (c.next lent.item.draft (s.fetch lent.home lent.item.draft.revision)).2.1)

variable (s : Session K V)

theorem stepCursor_points (cursor name : String) (value? : Option V) :
    s.Points (.stepCursor cursor name value?) (s.stepCursor cursor name value?).2.cursors := by
  simp only [stepCursor]
  split
  next => exact .apart rfl
  next c found =>
    split
    next => exact .apart rfl
    next lent opened => exact .stepped (named_eq_ok_iff.1 found) (named_eq_ok_iff.1 opened)

theorem perform_points (action : Action K V) : s.Points action (s.perform action).2.cursors := by
  cases action with
  | makeCursor name cursor =>
    simp only [perform, answered, makeCursor]
    split
    next => exact .apart rfl
    next lent opened => exact .made (named_eq_ok_iff.1 opened)
  | cloneCursor cursor clone =>
    simp only [perform, answered, cloneCursor]
    split
    next => exact .apart rfl
    next c found => exact .cloned (named_eq_ok_iff.1 found)
  | stepCursor cursor name value? => exact s.stepCursor_points cursor name value?
  | close name target => exact .apart (s.cursors_close target)
  | drop name => exact .apart s.cursors_drop
  | expire i => exact .apart s.cursors_expire
  | read | readIndex | edit | editIndex | add | replace | remove | revert | walk =>
    exact .apart (s.cursors_onDraft _)
  | update name options => exact .apart (s.cursors_update options)
  | updateWithFlags name flags =>
    simp only [perform, answered, updateWithFlags]
    repeat' split
    all_goals first | exact .apart rfl | exact .apart (s.cursors_update _)
  | checkout | commit | setReconciler | setPolicy | setKeeper | shareKeeper | drainArchive
  | takeSnapshot | readSnapshot | closeSnapshot =>
    simp only [perform, answered, Session.checkout, Session.commit, setReconciler, setPolicy,
      setKeeper, shareKeeper, drainArchive, takeSnapshot, readSnapshot, closeSnapshot]
    repeat' split
    all_goals exact .apart rfl
  | _ => exact .apart rfl

end Session

end RevisionStore
