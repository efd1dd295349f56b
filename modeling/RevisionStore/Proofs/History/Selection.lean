import RevisionStore.History
import Mathlib.Data.List.Nodup
import Mathlib.Tactic.Tauto

/-!
# Which change answers a lookup

A lookup at `r` looks at the changes at or below `r` and takes the one that its rule
prefers there (`select?_eq_some_iff`); it finds nothing exactly when there is no such
change. Everything else about lookups follows from this description: what recording
a later change does to them, and what dropping changes does.
-/

namespace RevisionStore

/-- What a lookup at `r` prefers: under either rule a change at `r` itself, otherwise the
oldest or the newest. -/
def Lookup.Prefers (rule : Lookup) (r a b : Revision) : Prop :=
  match rule with
  | .earliestPrior => a = r ∨ b ≠ r ∧ a ≤ b
  | .latestPrior => b ≤ a

namespace History

/-- In a list ordered by an asymmetric relation the first match comes before all others. -/
theorem find?_eq_some_iff_of_pairwise {α : Type} {R : α → α → Prop} {p : α → Bool}
    (asymmetric : ∀ a b, R a b → ¬ R b a) {l : List α} (ordered : l.Pairwise R) (c : α) :
    l.find? p = some c ↔ c ∈ l ∧ p c = true ∧ ∀ d ∈ l, p d = true → d = c ∨ R c d := by
  induction l with
  | nil => simp
  | cons a l ih =>
    obtain ⟨before, ordered⟩ := List.pairwise_cons.1 ordered
    by_cases matched : p a = true
    · rw [List.find?_cons_of_pos matched, Option.some.injEq]
      constructor
      · rintro rfl
        refine ⟨List.mem_cons_self, matched, fun d member _ => ?_⟩
        obtain rfl | member := List.mem_cons.1 member
        · exact .inl rfl
        · exact .inr (before d member)
      · rintro ⟨member, _, first⟩
        obtain rfl | member := List.mem_cons.1 member
        · rfl
        · obtain same | after := first a List.mem_cons_self matched
          · exact same
          · exact absurd after (asymmetric _ _ (before c member))
    · rw [List.find?_cons_of_neg matched, ih ordered]
      constructor
      · rintro ⟨member, holds, first⟩
        refine ⟨List.mem_cons_of_mem a member, holds, fun d hd pd => ?_⟩
        obtain rfl | hd := List.mem_cons.1 hd
        · exact absurd pd matched
        · exact first d hd pd
      · rintro ⟨member, holds, first⟩
        obtain rfl | member := List.mem_cons.1 member
        · exact absurd holds matched
        · exact ⟨member, holds, fun d hd => first d (List.mem_cons_of_mem a hd)⟩

/-- In a list that is strictly ascending by rank no rank occurs twice. -/
theorem eq_of_pairwise_lt {α : Type} {rank : α → Nat} {l : List α}
    (ordered : l.Pairwise fun a b => rank a < rank b) {a b : α} (ha : a ∈ l) (hb : b ∈ l)
    (same : rank a = rank b) : a = b := by
  have distinct : (l.map rank).Nodup := List.pairwise_map.2 (ordered.imp Nat.ne_of_lt)
  exact List.inj_on_of_nodup_map distinct ha hb same

variable {K V : Type} {h h' : History K V} {rule : Lookup} {r : Revision} {c d : Change K V}

/-- A history has at most one change per revision. -/
theorem eq_of_revision_eq (hc : c ∈ h.changes) (hd : d ∈ h.changes)
    (same : c.revision = d.revision) : c = d :=
  eq_of_pairwise_lt h.ascending hc hd same

theorem revision_le_iff (hc : c ∈ h.changes) (hd : d ∈ h.changes) :
    c.revision ≤ d.revision ↔ c = d ∨ c.revision < d.revision := by
  constructor
  · intro le
    obtain same | lt := Nat.eq_or_lt_of_le le
    · exact .inl (eq_of_revision_eq hc hd same)
    · exact .inr lt
  · rintro (rfl | lt)
    · exact Nat.le_refl _
    · exact Nat.le_of_lt lt

/-! ## Lookups -/

theorem changeAt?_eq_some_iff : h.changeAt? r = some c ↔ c ∈ h.changes ∧ c.revision = r := by
  constructor
  · intro found
    exact ⟨List.mem_of_find?_eq_some found, by simpa using List.find?_some found⟩
  · rintro ⟨member, rfl⟩
    cases found : h.changeAt? c.revision with
    | none =>
      have := List.find?_eq_none.1 found c member
      simp at this
    | some d =>
      have at_r : d.revision = c.revision := by simpa using List.find?_some found
      rw [eq_of_revision_eq (List.mem_of_find?_eq_some found) member at_r]

theorem changeAt?_eq_none_iff : h.changeAt? r = none ↔ ∀ d ∈ h.changes, d.revision ≠ r := by
  simp [changeAt?, List.find?_eq_none]

theorem prior?_earliest_eq_some_iff :
    h.prior? .earliestPrior r = some c ↔
      c ∈ h.changes ∧ c.revision < r ∧
        ∀ d ∈ h.changes, d.revision < r → c.revision ≤ d.revision := by
  rw [prior?, find?_eq_some_iff_of_pairwise (fun _ _ => Nat.lt_asymm) h.ascending]
  simp only [decide_eq_true_eq]
  refine and_congr_right fun member => and_congr_right fun _ => ?_
  refine forall₂_congr fun d hd => imp_congr_right fun _ => ?_
  rw [revision_le_iff member hd, eq_comm]

theorem prior?_latest_eq_some_iff :
    h.prior? .latestPrior r = some c ↔
      c ∈ h.changes ∧ c.revision < r ∧
        ∀ d ∈ h.changes, d.revision < r → d.revision ≤ c.revision := by
  have descending : h.changes.reverse.Pairwise fun a b => b.revision < a.revision :=
    List.pairwise_reverse.2 h.ascending
  simp only [prior?, List.findRev?_eq_find?_reverse]
  rw [find?_eq_some_iff_of_pairwise (fun _ _ => Nat.lt_asymm) descending]
  simp only [List.mem_reverse, decide_eq_true_eq]
  refine and_congr_right fun member => and_congr_right fun _ => ?_
  refine forall₂_congr fun d hd => imp_congr_right fun _ => ?_
  rw [revision_le_iff hd member]

theorem prior?_eq_none_iff : h.prior? rule r = none ↔ ∀ d ∈ h.changes, r ≤ d.revision := by
  cases rule <;> simp [prior?, List.find?_eq_none]

/-- A lookup answers with the change that its rule prefers among those at or below the revision. -/
theorem select?_eq_some_iff :
    h.select? rule r = some c ↔
      c ∈ h.changes ∧ c.revision ≤ r ∧
        ∀ d ∈ h.changes, d.revision ≤ r → rule.Prefers r c.revision d.revision := by
  rw [select?]
  cases recorded : h.changeAt? r with
  | some e =>
    obtain ⟨member, rfl⟩ := changeAt?_eq_some_iff.1 recorded
    simp only [Option.orElse_eq_orElse, Option.orElse_eq_or, Option.some_or, Option.some.injEq]
    -- under either rule the change at `r` is preferred to any other
    constructor
    · rintro rfl
      refine ⟨member, Nat.le_refl _, fun d hd le => ?_⟩
      cases rule with
      | earliestPrior => exact .inl rfl
      | latestPrior => exact le
    · rintro ⟨hc, le, preferred⟩
      refine eq_of_revision_eq member hc ?_
      have best := preferred e member (Nat.le_refl _)
      cases rule with
      | earliestPrior =>
        obtain same | ⟨ne, _⟩ := best
        · exact same.symm
        · exact absurd rfl ne
      | latestPrior => exact Nat.le_antisymm best le
  | none =>
    have elsewhere := changeAt?_eq_none_iff.1 recorded
    -- nothing is recorded at `r`, so that at or below it means before it
    have below : ∀ d ∈ h.changes, d.revision ≤ r ↔ d.revision < r := by
      intro d hd
      exact ⟨fun le => Nat.lt_of_le_of_ne le (elsewhere d hd), Nat.le_of_lt⟩
    simp only [Option.orElse_eq_orElse, Option.orElse_eq_or, Option.none_or]
    cases rule with
    | earliestPrior =>
      rw [prior?_earliest_eq_some_iff]
      refine and_congr_right fun hc => and_congr (below c hc).symm <| forall₂_congr fun d hd => ?_
      rw [below d hd]
      refine imp_congr_right fun _ => ⟨fun le => .inr ⟨elsewhere d hd, le⟩, ?_⟩
      rintro (same | ⟨_, le⟩)
      · exact absurd same (elsewhere c hc)
      · exact le
    | latestPrior =>
      rw [prior?_latest_eq_some_iff]
      refine and_congr_right fun hc => and_congr (below c hc).symm <| forall₂_congr fun d hd => ?_
      rw [below d hd]
      rfl

theorem select?_eq_none_iff : h.select? rule r = none ↔ ∀ d ∈ h.changes, r < d.revision := by
  have split : h.select? rule r = none ↔ h.changeAt? r = none ∧ h.prior? rule r = none := by
    simp [select?]
  rw [split]
  constructor
  · rintro ⟨exactly, before⟩ d hd
    have other : d.revision ≠ r := changeAt?_eq_none_iff.1 exactly d hd
    exact Nat.lt_of_le_of_ne (prior?_eq_none_iff.1 before d hd) other.symm
  · intro later
    constructor
    · exact changeAt?_eq_none_iff.2 fun d hd => Nat.ne_of_gt (later d hd)
    · exact prior?_eq_none_iff.2 fun d hd => Nat.le_of_lt (later d hd)

theorem mem_of_select? (selected : h.select? rule r = some c) : c ∈ h.changes :=
  (select?_eq_some_iff.1 selected).1

theorem le_of_select? (selected : h.select? rule r = some c) : c.revision ≤ r :=
  (select?_eq_some_iff.1 selected).2.1

/-- Histories that agree at and below a revision answer alike there. -/
theorem select?_congr
    (agree : ∀ d : Change K V, d.revision ≤ r → (d ∈ h'.changes ↔ d ∈ h.changes)) :
    h'.select? rule r = h.select? rule r := by
  refine Option.ext fun c => ?_
  rw [select?_eq_some_iff, select?_eq_some_iff]
  constructor
  · rintro ⟨member, le, preferred⟩
    exact ⟨(agree c le).1 member, le, fun d hd below => preferred d ((agree d below).2 hd) below⟩
  · rintro ⟨member, le, preferred⟩
    exact ⟨(agree c le).2 member, le, fun d hd below => preferred d ((agree d below).1 hd) below⟩

/-- Dropping changes other than the one that answers leaves the answer as it is. -/
theorem select?_eq_of_subset (fewer : h'.changes ⊆ h.changes)
    (kept : ∀ c, h.select? rule r = some c → c ∈ h'.changes) :
    h'.select? rule r = h.select? rule r := by
  cases selected : h.select? rule r with
  | none =>
    exact select?_eq_none_iff.2 fun d hd => select?_eq_none_iff.1 selected d (fewer hd)
  | some c =>
    obtain ⟨_, le, preferred⟩ := select?_eq_some_iff.1 selected
    exact select?_eq_some_iff.2 ⟨kept c selected, le, fun d hd => preferred d (fewer hd)⟩

/-! ## The most recent change -/

theorem head?_eq_some_iff :
    h.head? = some c ↔ c ∈ h.changes ∧ ∀ d ∈ h.changes, d.revision ≤ c.revision := by
  have descending : h.changes.reverse.Pairwise fun a b => b.revision < a.revision :=
    List.pairwise_reverse.2 h.ascending
  have head : h.head? = h.changes.reverse.find? fun _ => true := by
    rw [head?, List.getLast?_eq_head?_reverse]
    cases h.changes.reverse <;> rfl
  rw [head, find?_eq_some_iff_of_pairwise (fun _ _ => Nat.lt_asymm) descending]
  simp only [List.mem_reverse, true_and, forall_const]
  refine and_congr_right fun member => forall₂_congr fun d hd => ?_
  rw [revision_le_iff hd member]

theorem head?_eq_none_iff : h.head? = none ↔ h.changes = [] :=
  List.getLast?_eq_none_iff

theorem mem_of_head? (head : h.head? = some c) : c ∈ h.changes :=
  (head?_eq_some_iff.1 head).1

theorem isLive_of_head? (head : h.head? = some c) : h.isLive = !c.isTombstone := by
  simp [isLive, isDeletedAtHead, head]

theorem leading?_of_head? (head : h.head? = some c) : h.leading? = c.value? := by
  simp [leading?, head]

/-- From the most recent change on, the newest earlier change is the most recent one. -/
theorem select?_latest_of_head? (head : h.head? = some c) (since : c.revision ≤ r) :
    h.select? .latestPrior r = some c := by
  obtain ⟨member, newest⟩ := head?_eq_some_iff.1 head
  exact select?_eq_some_iff.2 ⟨member, since, fun d hd _ => newest d hd⟩

/-! ## Recording -/

theorem mem_insert :
    d ∈ (h.insert c).changes ↔ d = c ∨ d ∈ h.changes ∧ d.revision ≠ c.revision := by
  simp only [insert, place, List.mem_append, List.mem_filter, List.mem_cons, decide_eq_true_eq,
    Nat.ne_iff_lt_or_gt]
  tauto

theorem head?_insert (later : ∀ d ∈ h.changes, d.revision ≤ c.revision) :
    (h.insert c).head? = some c := by
  refine head?_eq_some_iff.2 ⟨mem_insert.2 (.inl rfl), fun d hd => ?_⟩
  obtain rfl | ⟨hd, _⟩ := mem_insert.1 hd
  · exact Nat.le_refl _
  · exact later d hd

theorem select?_insert_self : (h.insert c).select? rule c.revision = some c := by
  refine select?_eq_some_iff.2 ⟨mem_insert.2 (.inl rfl), Nat.le_refl _, fun d _ le => ?_⟩
  cases rule with
  | earliestPrior => exact .inl rfl
  | latestPrior => exact le

/-- Recording a change leaves lookups at earlier revisions as they are. -/
theorem select?_insert_of_lt (earlier : r < c.revision) :
    (h.insert c).select? rule r = h.select? rule r := by
  refine select?_congr fun d le => ?_
  have lt : d.revision < c.revision := Nat.lt_of_le_of_lt le earlier
  rw [mem_insert]
  constructor
  · rintro (rfl | ⟨hd, _⟩)
    · exact absurd lt (Nat.lt_irrefl _)
    · exact hd
  · intro hd
    exact .inr ⟨hd, Nat.ne_of_lt lt⟩

end History

end RevisionStore
