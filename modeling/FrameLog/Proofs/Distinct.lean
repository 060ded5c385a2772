import Mathlib.Data.List.Induction

/-!
# Lists without repetitions

What keeping the first occurrence of every element does to a list, told from the end of the list, and
what follows when the keys of a list are not repeated.
-/

namespace FrameLog

variable {α β γ : Type}

/-- When only the element with one key adds something, and keys are not repeated, all that is added
comes from that element. -/
theorem flatMap_eq_of_nodup {key : α → β} {as : List α} (h : (as.map key).Nodup) {a : α}
    (ha : a ∈ as) {f : α → List γ} (hf : ∀ b ∈ as, key b ≠ key a → f b = []) :
    as.flatMap f = f a := by
  induction as with
  | nil => cases ha
  | cons b as ih =>
      obtain ⟨hb, has⟩ := List.nodup_cons.mp h
      rw [List.flatMap_cons]
      rcases List.mem_cons.mp ha with rfl | ha
      · have hrest : as.flatMap f = [] := by
          rw [List.flatMap_eq_nil_iff]
          intro c hc
          exact hf c (List.mem_cons_of_mem _ hc) fun heq => hb (heq ▸ List.mem_map_of_mem hc)
        rw [hrest, List.append_nil]
      · have hne : key b ≠ key a := fun heq => hb (heq ▸ List.mem_map_of_mem ha)
        rw [hf b List.mem_cons_self hne, List.nil_append]
        exact ih has ha fun c hc => hf c (List.mem_cons_of_mem _ hc)

variable [DecidableEq α] [DecidableEq β]

/-- An element at the end is kept if it is new. -/
theorem eraseDups_concat (as : List α) (a : α) :
    (as ++ [a]).eraseDups = if a ∈ as then as.eraseDups else as.eraseDups ++ [a] := by
  rw [List.eraseDups_append]
  split
  · rename_i h
    simp [List.removeAll, h]
  · rename_i h
    simp [List.removeAll, h, List.eraseDups_cons]

theorem nodup_eraseDups (as : List α) : as.eraseDups.Nodup := by
  induction as using List.reverseRecOn with
  | nil => exact List.nodup_nil
  | append_singleton as a ih =>
      rw [eraseDups_concat]
      split
      · exact ih
      · rename_i h
        refine List.nodup_append.mpr ⟨ih, List.pairwise_singleton _ a, fun b hb c hc => ?_⟩
        rintro rfl
        obtain rfl := List.mem_singleton.mp hc
        exact h (List.mem_eraseDups.mp hb)

theorem eraseDups_of_nodup {as : List α} (h : as.Nodup) : as.eraseDups = as := by
  induction as using List.reverseRecOn with
  | nil => rfl
  | append_singleton as a ih =>
      obtain ⟨has, -, hdisjoint⟩ := List.nodup_append.mp h
      have ha : a ∉ as := fun hmem => hdisjoint a hmem a (List.mem_singleton_self a) rfl
      rw [eraseDups_concat, if_neg ha, ih has]

/-- Repetitions that are left out before a further step make no difference after it. -/
theorem eraseDups_flatMap_eraseDups (f : α → List β) (as : List α) :
    (as.eraseDups.flatMap f).eraseDups = (as.flatMap f).eraseDups := by
  induction as using List.reverseRecOn with
  | nil => rfl
  | append_singleton as a ih =>
      rw [eraseDups_concat, List.flatMap_append, List.eraseDups_append, ← ih]
      have hmem : ∀ b, b ∈ as.eraseDups.flatMap f ↔ b ∈ as.flatMap f := by simp
      split
      · rename_i h
        have hold : ([a].flatMap f).removeAll (as.flatMap f) = [] := by
          simp only [List.removeAll, List.flatMap_singleton, List.filter_eq_nil_iff]
          intro b hb
          have hb' : b ∈ as.flatMap f := List.mem_flatMap.mpr ⟨a, h, hb⟩
          simpa using hb'
        rw [hold, List.eraseDups_nil, List.append_nil]
      · have hsame : ([a].flatMap f).removeAll (as.eraseDups.flatMap f) =
            ([a].flatMap f).removeAll (as.flatMap f) := by
          simp only [List.removeAll, List.elem_eq_mem, hmem]
        rw [List.flatMap_append, List.eraseDups_append, hsame]

theorem eraseDups_eraseDups (as : List α) : as.eraseDups.eraseDups = as.eraseDups := by
  have h := eraseDups_flatMap_eraseDups (fun a : α => [a]) as
  rwa [List.flatMap_singleton', List.flatMap_singleton'] at h

end FrameLog
