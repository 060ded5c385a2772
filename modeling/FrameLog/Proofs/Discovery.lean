import FrameLog.Discovery
import Mathlib.Data.List.Perm.Subperm

/-!
# Discoveries and further matches

A rule that applies to some matches applies to them in any order and with others among them. So the
order of the matches has no influence on the discovery, and further matches keep it or put one of a
higher priority in its place.
-/

namespace FrameLog

variable {found more : List Binding} {goal : Goal}

/-! ## Rules and further matches -/

theorem any_of_subset {α : Type} {as bs : List α} {p : α → Bool} (h : as ⊆ bs)
    (hany : as.any p = true) : bs.any p = true := by
  obtain ⟨a, ha, hp⟩ := List.any_eq_true.mp hany
  exact List.any_eq_true.mpr ⟨a, h ha, hp⟩

theorem Observation.values_subset (h : found ⊆ more) :
    (Observation.mk goal found).values ⊆ (Observation.mk goal more).values := by
  intro v hv
  rcases List.mem_append.mp hv with hv | hv
  · obtain ⟨b, hb, hbv⟩ := List.mem_flatMap.mp hv
    exact List.mem_append_left _ (List.mem_flatMap.mpr ⟨b, h hb, hbv⟩)
  · exact List.mem_append_right _ hv

/-- What calls for attention does so no less when there is more to see: values are only looked for,
and numbers of matches are only bounded from below. -/
theorem Rule.applies_of_subperm {r : Rule} (h : found.Subperm more)
    (hr : r.applies ⟨goal, found⟩ = true) : r.applies ⟨goal, more⟩ = true := by
  have hvalues : (Observation.mk goal found).values ⊆ (Observation.mk goal more).values :=
    Observation.values_subset h.subset
  have hlength := h.length_le
  cases r with
  | error =>
      obtain ⟨hgoal, hatom⟩ := Bool.and_eq_true_iff.mp hr
      exact Bool.and_eq_true_iff.mpr ⟨hgoal, any_of_subset hvalues hatom⟩
  | recursion threshold =>
      obtain ⟨hgoal, hmany⟩ := Bool.and_eq_true_iff.mp hr
      have hmany : threshold < found.length := of_decide_eq_true hmany
      exact Bool.and_eq_true_iff.mpr ⟨hgoal, decide_eq_true (Nat.lt_of_lt_of_le hmany hlength)⟩
  | memoryAnomaly threshold =>
      obtain ⟨hgoal, hlarge⟩ := Bool.and_eq_true_iff.mp hr
      exact Bool.and_eq_true_iff.mpr
        ⟨hgoal, any_of_subset (List.filterMap_subset _ hvalues) hlarge⟩
  | nullParameter =>
      obtain ⟨hgoal, hnull⟩ := Bool.and_eq_true_iff.mp hr
      exact Bool.and_eq_true_iff.mpr ⟨hgoal, any_of_subset hvalues hnull⟩
  | deadlock =>
      obtain ⟨hgoal, hatom⟩ := Bool.and_eq_true_iff.mp hr
      exact Bool.and_eq_true_iff.mpr ⟨hgoal, any_of_subset hvalues hatom⟩
  | pattern threshold =>
      have hmany : threshold < found.length := of_decide_eq_true hr
      exact decide_eq_true (Nat.lt_of_lt_of_le hmany hlength)

theorem Rule.applies_perm (r : Rule) (h : found.Perm more) :
    r.applies ⟨goal, found⟩ = r.applies ⟨goal, more⟩ :=
  Bool.eq_iff_iff.mpr ⟨applies_of_subperm h.subperm, applies_of_subperm h.symm.subperm⟩

/-! ## The first rule that applies -/

/-- When more rules apply, the first that does comes no later. -/
theorem exists_find?_of_imp {α : Type} [DecidableEq α] {p q : α → Bool} {as : List α} {a : α}
    (hpq : ∀ a, p a = true → q a = true) (h : as.find? p = some a) :
    ∃ b, as.find? q = some b ∧ as.idxOf b ≤ as.idxOf a := by
  induction as with
  | nil => cases h
  | cons c as ih =>
      by_cases hq : q c = true
      · exact ⟨c, List.find?_cons_of_pos hq, by simp⟩
      · have hp : ¬ p c = true := fun hp => hq (hpq c hp)
        rw [List.find?_cons_of_neg hp] at h
        obtain ⟨b, hb, hle⟩ := ih h
        refine ⟨b, (List.find?_cons_of_neg hq).trans hb, ?_⟩
        have hca : c ≠ a := fun hca => hp (hca ▸ List.find?_some h)
        have hcb : c ≠ b := fun hcb => hq (hcb ▸ List.find?_some hb)
        rw [List.idxOf_cons_ne _ hca, List.idxOf_cons_ne _ hcb]
        exact Nat.succ_le_succ hle

/-- The place in the order of priority. -/
def Discovery.rank (d : Discovery) : Nat :=
  [error, recursion, memoryAnomaly, nullParameter, deadlock, pattern].idxOf d

/-- The standard rules stand in the order of priority of what they report. -/
theorem Thresholds.idxOf_rules {t : Thresholds} {r : Rule} (h : r ∈ t.rules) :
    t.rules.idxOf r = r.kind.rank := by
  simp only [rules, List.mem_cons, List.not_mem_nil, or_false] at h
  rcases h with rfl | rfl | rfl | rfl | rfl | rfl <;>
    simp [rules, Rule.kind, Discovery.rank]

theorem classify_eq_some_iff {rules : List Rule} {k : Discovery} :
    classify rules goal found = some k ↔
      found ≠ [] ∧ ∃ r, rules.find? (·.applies ⟨goal, found⟩) = some r ∧ r.kind = k := by
  cases found with
  | nil => simp [classify]
  | cons b found => simp [classify, Option.map_eq_some_iff]

theorem classify_perm (rules : List Rule) (goal : Goal) (h : found.Perm more) :
    classify rules goal found = classify rules goal more := by
  have happlies : (fun r : Rule => r.applies ⟨goal, found⟩) = fun r => r.applies ⟨goal, more⟩ :=
    funext fun r => r.applies_perm h
  rw [classify, classify, happlies, h.isEmpty_eq]

/-- Further matches, wherever they stand, leave a discovery of the same or a higher priority. -/
theorem classify_of_subperm {t : Thresholds} {k : Discovery} (h : found.Subperm more)
    (hk : classify t.rules goal found = some k) :
    ∃ j, classify t.rules goal more = some j ∧ j.rank ≤ k.rank := by
  obtain ⟨hne, r, hr, rfl⟩ := classify_eq_some_iff.mp hk
  obtain ⟨s, hs, hle⟩ := exists_find?_of_imp (fun _ => Rule.applies_of_subperm h) hr
  rw [Thresholds.idxOf_rules (List.mem_of_find?_eq_some hr),
    Thresholds.idxOf_rules (List.mem_of_find?_eq_some hs)] at hle
  have hmore : more ≠ [] := fun hnil => hne (List.subperm_nil.mp (hnil ▸ h))
  exact ⟨s.kind, classify_eq_some_iff.mpr ⟨hmore, s, hs, rfl⟩, hle⟩

/-- Whatever the thresholds and the goal, the order of the matches does not influence the discovery,
and further matches never take it away or leave one of a lower priority. -/
theorem classify_monotone (t : Thresholds) (goal : Goal) (found : List Binding) :
    (∀ reordered, reordered.Perm found →
      classify t.rules goal reordered = classify t.rules goal found) ∧
    ∀ k, classify t.rules goal found = some k → ∀ more,
      ∃ j, classify t.rules goal (found ++ more) = some j ∧ j.rank ≤ k.rank :=
  ⟨fun _ h => classify_perm t.rules goal h,
    fun _ hk more => classify_of_subperm (List.sublist_append_left found more).subperm hk⟩

/-- A frame waits for a lock. -/
def lockedFrame : Binding := .ofList [("F", .int 6), ("N", .atom "waiting_for"), ("V", .atom "lock_b")]

/-- A frame has a handler that is null. -/
def unhandledFrame : Binding := .ofList [("F", .int 5), ("N", .atom "handler"), ("V", .null)]

/-- Which parameters are there? -/
def allParameters : Goal := ⟨.param, [.var "F", .var "N", .var "V"]⟩

theorem classify_monotone_lockedFrame :
    classify ({} : Thresholds).rules allParameters [lockedFrame] = some .deadlock ∧
    [unhandledFrame, lockedFrame].Perm [lockedFrame, unhandledFrame] ∧
    classify ({} : Thresholds).rules allParameters [unhandledFrame, lockedFrame] =
      classify ({} : Thresholds).rules allParameters [lockedFrame, unhandledFrame] ∧
    ∃ j, classify ({} : Thresholds).rules allParameters [lockedFrame, unhandledFrame] = some j ∧
      j.rank ≤ Discovery.deadlock.rank := by
  have hlocked : classify ({} : Thresholds).rules allParameters [lockedFrame] = some .deadlock := by
    decide +kernel
  have hperm : [unhandledFrame, lockedFrame].Perm [lockedFrame, unhandledFrame] := .swap _ _ _
  obtain ⟨horder, -⟩ := classify_monotone {} allParameters [lockedFrame, unhandledFrame]
  obtain ⟨-, hmore⟩ := classify_monotone {} allParameters [lockedFrame]
  exact ⟨hlocked, hperm, horder _ hperm, hmore _ hlocked [unhandledFrame]⟩

end FrameLog
