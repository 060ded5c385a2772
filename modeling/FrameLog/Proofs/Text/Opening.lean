import Mathlib.Data.List.Basic

/-!
# Openings of texts

What a text begins with, when it is put together from pieces that are known.
-/

namespace FrameLog

/-- Neither text begins with the other one. -/
def Apart (s t : String) : Prop := ¬ s.toList <+: t.toList ∧ ¬ t.toList <+: s.toList

instance (s t : String) : Decidable (Apart s t) := inferInstanceAs (Decidable (_ ∧ _))

variable {text s t : String}

theorem startsWith_append (s rest : String) : (s ++ rest).startsWith s = true := by
  simp [String.startsWith_string_iff]

theorem startsWith_append_right (h : text.startsWith s = true) (rest : String) :
    (text ++ rest).startsWith s = true := by
  rw [String.startsWith_string_iff] at h ⊢
  rw [String.toList_append]
  exact h.trans (List.prefix_append _ _)

theorem startsWith_trans (h : text.startsWith s = true) (hst : t.toList <+: s.toList) :
    text.startsWith t = true := by
  rw [String.startsWith_string_iff] at h ⊢
  exact hst.trans h

theorem not_startsWith (h : text.startsWith s = true) (hst : Apart s t) :
    ¬ text.startsWith t = true := by
  intro ht
  rw [String.startsWith_string_iff] at h ht
  rcases List.prefix_or_prefix_of_prefix h ht with hpre | hpre
  · exact hst.1 hpre
  · exact hst.2 hpre

theorem startsWith_intercalate (h : text.startsWith s = true) (sep : String) (lines : List String) :
    (sep.intercalate (text :: lines)).startsWith s = true := by
  rw [String.startsWith_string_iff] at h ⊢
  refine h.trans ?_
  cases lines with
  | nil => simp
  | cons line lines => simp [String.intercalate_cons_cons]

/-! ## Separators -/

/-- What stands before the first separator is told from a beginning that ends in one. -/
theorem eq_before_separator {c : Char} {xs ys zs : List Char} (hys : c ∉ ys) (hzs : c ∉ zs)
    (h : xs ++ [c] <+: ys ++ c :: zs) : xs = ys := by
  induction ys generalizing xs with
  | nil =>
      cases xs with
      | nil => rfl
      | cons x xs =>
          obtain ⟨-, h⟩ := List.cons_prefix_cons.mp h
          exact absurd (h.mem (by simp)) hzs
  | cons y ys ih =>
      cases xs with
      | nil =>
          obtain ⟨rfl, -⟩ := List.cons_prefix_cons.mp h
          exact absurd List.mem_cons_self hys
      | cons x xs =>
          obtain ⟨rfl, hxs⟩ := List.cons_prefix_cons.mp h
          rw [ih (fun hmem => hys (List.mem_cons_of_mem _ hmem)) hxs]

theorem mem_toList_intercalate {sep : String} {texts : List String} {c : Char}
    (h : c ∈ (sep.intercalate texts).toList) : c ∈ sep.toList ∨ ∃ t ∈ texts, c ∈ t.toList := by
  induction texts with
  | nil => simp at h
  | cons t ts ih =>
      cases ts with
      | nil => exact .inr ⟨t, by simp, by simpa using h⟩
      | cons u us =>
          rw [String.intercalate_cons_cons, String.toList_append, String.toList_append,
            List.mem_append, List.mem_append] at h
          rcases h with (h | h) | h
          · exact .inr ⟨t, List.mem_cons_self, h⟩
          · exact .inl h
          · exact (ih h).imp_right fun ⟨t, ht, hc⟩ => ⟨t, List.mem_cons_of_mem _ ht, hc⟩

end FrameLog
