import RevisionStore.Proofs.Session.Frame

/-!
# Where policies come from

A pass counts that it was asked for, and sites can be put under one warden, but no operation
makes up a policy: what is there after an action was there before, or the action has installed
it (`mem_policies_perform`).
-/

namespace RevisionStore

variable {K V : Type}

/-- An action gives a policy to a site. -/
inductive Action.Installs : Action K V → Retention.Policy K → Prop
  | setPolicy (i : Nat) (policy : Retention.Policy K) : Installs (.setPolicy i policy) policy
  | setKeeper (i : Nat) (policy : Retention.Policy K) (archive : Retention.Archive K V) :
      Installs (.setKeeper i policy archive) policy

namespace Session

/-- The policies that the wardens of a session follow. -/
def policies (s : Session K V) : List (Retention.Policy K) :=
  s.wardens.map (·.policy)

variable (s : Session K V) {i : Nat} {name : String} {policy : Retention.Policy K}

/-- A site follows the standard policy or one of the session's. -/
theorem policy_keeperOf (site : Site K V) :
    (s.keeperOf site).warden.policy = Retention.Plan.standard.policy ∨
      (s.keeperOf site).warden.policy ∈ s.policies := by
  simp only [keeperOf, List.getD_eq_getElem?_getD]
  cases found : s.wardens[site.warden]? with
  | none => exact .inl rfl
  | some warden => exact .inr (List.mem_map_of_mem (List.mem_of_getElem? found))

theorem policies_putKeeper {site : Site K V} {keeper : Retention.Keeper K V}
    (same : keeper.warden.policy = (s.keeperOf site).warden.policy) :
    (s.putKeeper site keeper).policies = s.policies :=
  map_set_of_getD same

theorem policies_without (lent : Lent (WorkingCopy K V)) :
    (s.without name lent).policies = s.policies := by
  obtain ⟨_, _, left⟩ | ⟨_, left⟩ := s.without_eq_or name lent
  · rw [left]
    rfl
  · rw [left]
    rfl

variable [DecidableEq K]

theorem policies_expire : (s.expire i).2.policies = s.policies := by
  obtain ⟨site, _, passed⟩ | same := s.expire_eq_or i
  · rw [passed]
    refine policies_putKeeper _ ?_
    -- a pass only counts
    simp only [Store.expire]
    split <;> rfl
  · rw [same]

theorem policies_close (target : Option Nat) :
    (s.close name target).2.policies = s.policies := by
  obtain same | ⟨lent, _, left | closed⟩ := s.close_eq_or name target
  · rw [same]
  · rw [left, policies_without]
  · rw [closed, policies_expire, policies_without]

/-- An action leaves the policies alone, unless it installs one. -/
theorem policies_perform (action : Action K V) (other : ∀ policy, ¬ action.Installs policy) :
    (s.perform action).2.policies = s.policies := by
  cases action with
  | setPolicy i policy => exact absurd (.setPolicy i policy) (other policy)
  | setKeeper i policy archive => exact absurd (.setKeeper i policy archive) (other policy)
  | expire i => exact s.policies_expire
  | close name target => exact s.policies_close target
  | drop name =>
    simp only [perform, answered, Session.drop]
    split
    next => rfl
    next lent _ => exact s.policies_without lent
  | drainArchive i =>
    simp only [perform, answered, drainArchive]
    repeat' split
    all_goals first | rfl | exact policies_putKeeper _ rfl
  | checkout | commit | setReconciler | shareKeeper | read | readIndex | edit | editIndex | add
  | replace | remove | revert | walk | update | updateWithFlags | makeCursor | cloneCursor
  | stepCursor | takeSnapshot | readSnapshot | closeSnapshot =>
    simp only [perform, answered, Session.checkout, Session.commit, setReconciler, shareKeeper,
      onDraft, Session.update, updateWithFlags, makeCursor, cloneCursor, stepCursor, takeSnapshot,
      readSnapshot, closeSnapshot]
    repeat' split
    all_goals rfl
  | _ => rfl

omit [DecidableEq K] in
theorem mem_policies_of_hired {t : Session K V} {installed : Retention.Policy K}
    (wardens : t.wardens = s.wardens ++ [.new installed]) (member : policy ∈ t.policies) :
    policy ∈ s.policies ∨ policy = installed := by
  simpa [policies, wardens, Retention.Warden.new] using member

/-- A policy that is there after an action was there before, or the action has installed it. -/
theorem mem_policies_perform (action : Action K V)
    (member : policy ∈ (s.perform action).2.policies) :
    policy ∈ s.policies ∨ action.Installs policy := by
  by_cases installs : ∃ installed, action.Installs installed
  · obtain ⟨installed, installs⟩ := installs
    cases installs with
    | setPolicy i =>
      simp only [perform, answered, setPolicy] at member
      split at member
      next => exact .inl member
      next =>
        obtain before | rfl := s.mem_policies_of_hired rfl member
        · exact .inl before
        · exact .inr (.setPolicy i policy)
    | setKeeper i _ archive =>
      simp only [perform, answered, setKeeper] at member
      split at member
      next => exact .inl member
      next =>
        obtain before | rfl := s.mem_policies_of_hired rfl member
        · exact .inl before
        · exact .inr (.setKeeper i policy archive)
  · rw [policies_perform s action fun installed does => installs ⟨installed, does⟩] at member
    exact .inl member

end Session

end RevisionStore
