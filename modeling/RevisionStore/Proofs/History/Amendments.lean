import Mathlib.Data.List.MinMax
import RevisionStore.Proofs.History.Selection

/-!
# Histories as logs

An `Amendment` is something done to a history: a change is recorded at any revision, or the
changes at some revisions are removed. What a history holds after some amendments are the
changes that still stand (`standing`), those that no later amendment supersedes; they come in the
order in which they were recorded, whatever their revisions are.

A lookup in the history answers as a scan of this log does (`Lookup.scan?`), and the archive is
asked exactly when the log has no change at or below the revision (`amended_reads_log`). To tell
whether it is asked, the lookup is stated for an archive with effects of its own (`readAtM`).
-/

namespace RevisionStore

/-- Something that is done to a history. -/
inductive Amendment (V : Type) where
  | added (r : Revision) (v : V)
  | modified (r : Revision) (v : V)
  | deleted (r : Revision)
  | removed (rs : List Revision)

namespace Amendment

variable {K V : Type}

/-- The change of `k` that an amendment records, if it records one. -/
def change? (k : K) : Amendment V → Option (Change K V)
  | .added r v => some (.added k v r)
  | .modified r v => some (.modified k v r)
  | .deleted r => some (.deleted k r)
  | .removed _ => none

/-- Whether an amendment does away with what was recorded at `r` before. -/
def supersedes (r : Revision) : Amendment V → Bool
  | .added r' _ | .modified r' _ | .deleted r' => r' = r
  | .removed rs => rs.contains r

end Amendment

variable {K V : Type}

/-- The changes of `k` that stand after some amendments: no later one supersedes them. -/
def standing (k : K) : List (Amendment V) → List (Change K V)
  | [] => []
  | amendment :: later =>
    let recorded := (amendment.change? k).toList
    recorded.filter (fun c => !later.any (·.supersedes c.revision)) ++ standing k later

/-- The change that answers a lookup at `r` in a log in any order. -/
def Lookup.scan? (rule : Lookup) (log : List (Change K V)) (r : Revision) :
    Option (Change K V) :=
  match rule with
  -- the one exactly at `r` if there is one, otherwise the one at the smallest revision below
  | .earliestPrior =>
    (log.find? fun c => c.revision = r).or
      ((log.filter fun c => c.revision < r).argmin (·.revision))
  -- the one at the greatest revision at most `r`
  | .latestPrior => (log.filter fun c => c.revision ≤ r).argmax (·.revision)

namespace History

def amend (h : History K V) : Amendment V → History K V
  | .added r v => h.recordAdded r v
  | .modified r v => h.recordModified r v
  | .deleted r => h.recordDeleted r
  | .removed rs => (h.removeRevisions rs).1

/-- The history of `k` that some amendments build. -/
def amended (k : K) (amendments : List (Amendment V)) : History K V :=
  amendments.foldl amend (empty k)

/-- The value visible at `r`, when recollecting it is something that happens. -/
def readAtM {m : Type → Type} [Monad m] (h : History K V) (rule : Lookup)
    (recollect : K → Revision → m (Option (Change K V))) (r : Revision) :
    m (Option (Sighting V)) :=
  match h.select? rule r with
  | some c => pure (c.value?.map .resident)
  | none => do
    let found? ← recollect h.key r
    return (found?.bind (·.value?)).map .retrieved

/-- An archive that notes what it is asked. -/
def noting (recollect : Recollection K V) (k : K) (r : Revision) :
    StateM (List (K × Revision)) (Option (Change K V)) := do
  modify fun asked => asked ++ [(k, r)]
  return recollect k r

variable {h : History K V} {rule : Lookup} {r : Revision} {c : Change K V} {k : K}
  {amendment : Amendment V} {amendments : List (Amendment V)} {log : List (Change K V)}
  {recollect : Recollection K V}

/-! ## What stands -/

theorem mem_standing_concat :
    c ∈ standing k (amendments ++ [amendment]) ↔
      amendment.change? k = some c ∨
        c ∈ standing k amendments ∧ amendment.supersedes c.revision = false := by
  induction amendments with
  | nil => simp [standing]
  | cons first later ih =>
    simp only [List.cons_append, standing, List.mem_append, List.mem_filter, ih, List.any_append,
      List.any_cons, List.any_nil, Bool.or_false, Bool.not_or, Bool.and_eq_true,
      Bool.not_eq_true']
    tauto

theorem key_amend : (h.amend amendment).key = h.key := by
  cases amendment <;> rfl

/-- An amendment puts its change in the place of what it supersedes. -/
theorem mem_amend :
    c ∈ (h.amend amendment).changes ↔
      amendment.change? h.key = some c ∨
        c ∈ h.changes ∧ amendment.supersedes c.revision = false := by
  have recorded (d : Change K V) :
      c ∈ (h.insert d).changes ↔
        some d = some c ∨ c ∈ h.changes ∧ decide (d.revision = c.revision) = false := by
    rw [mem_insert, Option.some.injEq, decide_eq_false_iff_not, eq_comm, ne_comm]
  cases amendment with
  | added r v => exact recorded _
  | modified r v => exact recorded _
  | deleted r => exact recorded _
  | removed rs =>
    simp only [amend, removeRevisions, keep, List.mem_filter, Amendment.change?,
      Amendment.supersedes, Bool.not_eq_true', reduceCtorEq, false_or]

theorem key_amended (k : K) (amendments : List (Amendment V)) : (amended k amendments).key = k := by
  induction amendments using List.reverseRecOn with
  | nil => rfl
  | append_singleton before amendment ih =>
    rw [amended, List.foldl_concat]
    exact key_amend.trans ih

/-- A history holds the changes that stand. -/
theorem mem_amended : c ∈ (amended k amendments).changes ↔ c ∈ standing k amendments := by
  induction amendments using List.reverseRecOn with
  | nil => rfl
  | append_singleton before amendment ih =>
    rw [mem_standing_concat, ← ih, amended, List.foldl_concat, ← amended, mem_amend, key_amended]

/-- A change that stands has a value unless it is a tombstone. -/
theorem coherent_of_standing (stands : c ∈ standing k amendments) : c.Coherent := by
  induction amendments using List.reverseRecOn with
  | nil => cases stands
  | append_singleton before amendment ih =>
    obtain recorded | ⟨stands, _⟩ := mem_standing_concat.1 stands
    · cases amendment with
      | added r v => cases recorded; exact Change.coherent_added k v r
      | modified r v => cases recorded; exact Change.coherent_modified k v r
      | deleted r => cases recorded; exact Change.coherent_deleted k r
      | removed rs => cases recorded
    · exact ih stands

/-! ## Lookups scan the log -/

/-- A scan finds nothing exactly if the log has nothing at or below the revision. -/
theorem scan?_eq_none_iff : rule.scan? log r = none ↔ ∀ d ∈ log, r < d.revision := by
  cases rule with
  | earliestPrior =>
    simp only [Lookup.scan?, Option.or_eq_none_iff, List.find?_eq_none, List.argmin_eq_none,
      List.filter_eq_nil_iff, decide_eq_true_eq, ← forall₂_and]
    refine forall₂_congr fun d _ => ⟨fun ⟨elsewhere, before⟩ => ?_, fun later => ?_⟩
    · exact Nat.lt_of_le_of_ne (Nat.not_lt.1 before) (Ne.symm elsewhere)
    · exact ⟨Nat.ne_of_gt later, Nat.lt_asymm later⟩
  | latestPrior =>
    simp only [Lookup.scan?, List.argmax_eq_none, List.filter_eq_nil_iff, decide_eq_true_eq,
      Nat.not_le]

/-- What a scan finds is what the rule prefers. -/
theorem prefers_of_scan? (found : rule.scan? log r = some c) :
    c ∈ log ∧ c.revision ≤ r ∧
      ∀ d ∈ log, d.revision ≤ r → rule.Prefers r c.revision d.revision := by
  cases rule with
  | earliestPrior =>
    obtain exactly | ⟨elsewhere, smallest⟩ := Option.or_eq_some_iff.1 found
    · have at_r : c.revision = r := by simpa using List.find?_some exactly
      exact ⟨List.mem_of_find?_eq_some exactly, Nat.le_of_eq at_r, fun _ _ _ => .inl at_r⟩
    · obtain ⟨member, below⟩ := List.mem_filter.1 (List.argmin_mem smallest)
      simp only [decide_eq_true_eq] at below
      refine ⟨member, Nat.le_of_lt below, fun d hd le => .inr ?_⟩
      have other : d.revision ≠ r := by simpa using List.find?_eq_none.1 elsewhere d hd
      have before : d ∈ log.filter fun c => c.revision < r :=
        List.mem_filter.2 ⟨hd, by simpa using Nat.lt_of_le_of_ne le other⟩
      exact ⟨other, List.le_of_mem_argmin before smallest⟩
  | latestPrior =>
    obtain ⟨member, below⟩ := List.mem_filter.1 (List.argmax_mem found)
    refine ⟨member, by simpa using below, fun d hd le => ?_⟩
    exact List.le_of_mem_argmax (List.mem_filter.2 ⟨hd, by simpa using le⟩) found

/-- A lookup in a history answers as a scan of its changes, in whatever order they are. -/
theorem select?_eq_scan? (same : ∀ d, d ∈ h.changes ↔ d ∈ log) :
    h.select? rule r = rule.scan? log r := by
  cases found : rule.scan? log r with
  | none =>
    refine select?_eq_none_iff.2 fun d hd => ?_
    exact scan?_eq_none_iff.1 found d ((same d).1 hd)
  | some c =>
    obtain ⟨member, below, preferred⟩ := prefers_of_scan? found
    refine select?_eq_some_iff.2 ⟨(same c).2 member, below, fun d hd => ?_⟩
    exact preferred d ((same d).1 hd)

/-! ## When the archive is asked -/

theorem readAt_of_select? (selected : h.select? rule r = some c) :
    h.readAt rule recollect r = c.value?.map .resident := by
  simp only [readAt, selected]

theorem readAt_of_unselected (unselected : h.select? rule r = none) :
    h.readAt rule recollect r = ((recollect h.key r).bind (·.value?)).map .retrieved := by
  simp only [readAt, unselected]

/-- With an archive that does nothing but recollect, a lookup is the one without effects. -/
theorem readAtM_pure {m : Type → Type} [Monad m] [LawfulMonad m] :
    h.readAtM rule (fun k r => (pure (recollect k r) : m _)) r =
      pure (h.readAt rule recollect r) := by
  simp only [readAtM, readAt]
  cases h.select? rule r with
  | some c => rfl
  | none => simp

/-- A lookup that finds a change does not ask the archive. -/
theorem readAtM_of_select? {m : Type → Type} [Monad m]
    {ask : K → Revision → m (Option (Change K V))} (selected : h.select? rule r = some c) :
    h.readAtM rule ask r = pure (c.value?.map .resident) := by
  simp only [readAtM, selected]

/-- A lookup that finds no change asks the archive once, about its key and revision. -/
theorem readAtM_noting_of_unselected (unselected : h.select? rule r = none)
    (asked : List (K × Revision)) :
    (h.readAtM rule (noting recollect) r).run asked =
      (((recollect h.key r).bind (·.value?)).map .retrieved, asked ++ [(h.key, r)]) := by
  simp only [readAtM, unselected]
  rfl

/-- Whatever is done to a history of `k`, and in whatever order of revisions: a lookup at `r`
answers with the change that a scan of the changes that stand finds under its rule, and the scan
finds one if there is one at or below `r`. If it is a tombstone the answer is nothing, otherwise
it is the value of the change, and the archive is not asked in either case. If there is none, the
archive is asked once, about `k` at `r`, and what it recollects is the answer. -/
theorem amended_reads_log (k : K) (amendments : List (Amendment V)) (rule : Lookup)
    (recollect : Recollection K V) (r : Revision) (asked : List (K × Revision)) :
    let h := amended k amendments
    let log := standing k amendments
    h.select? rule r = rule.scan? log r ∧
      (rule.scan? log r = none ↔ ∀ c ∈ log, r < c.revision) ∧
      ((h.readAtM rule (noting recollect) r).run asked).1 = h.readAt rule recollect r ∧
      (∀ c, rule.scan? log r = some c → c.isTombstone = true →
        (h.readAtM rule (noting recollect) r).run asked = (none, asked)) ∧
      (∀ c, rule.scan? log r = some c → c.isTombstone = false →
        ∃ v, c.value? = some v ∧
          (h.readAtM rule (noting recollect) r).run asked = (some (.resident v), asked)) ∧
      (rule.scan? log r = none →
        (h.readAtM rule (noting recollect) r).run asked =
          (((recollect k r).bind (·.value?)).map .retrieved, asked ++ [(k, r)])) := by
  intro h log
  have selects : h.select? rule r = rule.scan? log r := select?_eq_scan? fun d => mem_amended
  have answered {c : Change K V} (found : rule.scan? log r = some c) :
      (h.readAtM rule (noting recollect) r).run asked = (c.value?.map .resident, asked) := by
    rw [readAtM_of_select? (selects.trans found)]
    rfl
  have unanswered (nothing : rule.scan? log r = none) :
      (h.readAtM rule (noting recollect) r).run asked =
        (((recollect k r).bind (·.value?)).map .retrieved, asked ++ [(k, r)]) := by
    rw [readAtM_noting_of_unselected (selects.trans nothing), key_amended]
  have coherent {c : Change K V} (found : rule.scan? log r = some c) : c.Coherent :=
    coherent_of_standing (prefers_of_scan? found).1
  refine ⟨selects, scan?_eq_none_iff, ?_, ?_, ?_, unanswered⟩
  · cases found : rule.scan? log r with
    | some c => rw [answered found, readAt_of_select? (selects.trans found)]
    | none => rw [unanswered found, readAt_of_unselected (selects.trans found), key_amended]
  · intro c found tombstone
    rw [answered found, (coherent found).value?_eq_none tombstone, Option.map_none]
  · intro c found kept
    obtain ⟨v, value⟩ := (coherent found).exists_value? kept
    exact ⟨v, value, by rw [answered found, value, Option.map_some]⟩

example :
    let h : History Nat Nat :=
      amended 1 [.modified 5 9, .added 2 5, .modified 3 7, .removed [5], .modified 2 6]
    h.readAt .latestPrior (fun _ _ => none) 9 = some (.resident 7) ∧
      h.readAt .earliestPrior (fun _ _ => none) 9 = some (.resident 6) := by decide

end History

end RevisionStore
