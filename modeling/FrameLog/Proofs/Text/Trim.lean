import FrameLog.Text
import Mathlib.Data.List.DropRight

/-! # Trimming

Trimming is the only inverse of putting blanks around a text that is not blank at its ends. -/

namespace FrameLog.Text

/-- A run of blanks, perhaps empty. -/
def Blanks (cs : List Char) : Prop := ∀ c ∈ cs, isBlank c = true

/-- A text whose first and last characters exist and are not blank. -/
structure Tight (cs : List Char) : Prop where
  head : ∃ c, cs.head? = some c ∧ isBlank c = false
  last : ∃ c, cs.getLast? = some c ∧ isBlank c = false

variable {cs t w w' : List Char}

theorem Blanks.nil : Blanks [] := fun _ h => absurd h List.not_mem_nil

theorem Blanks.singleton {c : Char} (h : isBlank c = true) : Blanks [c] := by
  intro d hd
  rwa [List.mem_singleton.mp hd]

theorem Blanks.append (h : Blanks w) (h' : Blanks w') : Blanks (w ++ w') := by
  intro c hc
  rcases List.mem_append.mp hc with hc | hc
  · exact h c hc
  · exact h' c hc

/-! ## Tight texts -/

theorem Tight.ne_nil (h : Tight cs) : cs ≠ [] := by
  obtain ⟨c, hc, -⟩ := h.head
  intro he
  rw [he] at hc
  cases hc

theorem Tight.append (h : Tight cs) (h' : Tight t) (mid : List Char) :
    Tight (cs ++ mid ++ t) := by
  obtain ⟨c, hc, hblank⟩ := h.head
  obtain ⟨d, hd, hblank'⟩ := h'.last
  refine ⟨⟨c, ?_, hblank⟩, ⟨d, ?_, hblank'⟩⟩
  · rw [List.append_assoc, List.head?_append, hc]
    rfl
  · rw [List.getLast?_append, hd]
    rfl

theorem Tight.singleton {c : Char} (h : isBlank c = false) : Tight [c] :=
  ⟨⟨c, rfl, h⟩, ⟨c, rfl, h⟩⟩

/-- A text without blanks is tight unless it is empty. -/
theorem Tight.of_forall (hne : cs ≠ []) (h : ∀ c ∈ cs, isBlank c = false) : Tight cs :=
  ⟨⟨cs.head hne, List.head?_eq_some_head hne, h _ (List.head_mem hne)⟩,
    ⟨cs.getLast hne, List.getLast?_eq_some_getLast hne, h _ (List.getLast_mem hne)⟩⟩

/-! ## What trimming leaves -/

theorem exists_trim (cs : List Char) :
    ∃ w w', Blanks w ∧ Blanks w' ∧ cs = w ++ trim cs ++ w' := by
  refine ⟨cs.takeWhile isBlank, (cs.dropWhile isBlank).rtakeWhile isBlank, ?_, ?_, ?_⟩
  · exact fun c hc => List.mem_takeWhile_imp hc
  · exact fun c hc => List.mem_rtakeWhile_imp hc
  · have hright : trim cs ++ (cs.dropWhile isBlank).rtakeWhile isBlank = cs.dropWhile isBlank :=
      List.rdropWhile_append_rtakeWhile
    rw [List.append_assoc, hright, List.takeWhile_append_dropWhile]

theorem tight_trim (h : trim cs ≠ []) : Tight (trim cs) := by
  have hpre : trim cs <+: cs.dropWhile isBlank := List.rdropWhile_prefix isBlank _
  have hhead : (trim cs).head? = (cs.dropWhile isBlank).head? := by
    obtain ⟨rest, hrest⟩ := hpre
    rw [← hrest, List.head?_append_of_ne_nil _ h]
  have hnot := List.head?_dropWhile_not isBlank cs
  rw [← hhead, List.head?_eq_some_head h] at hnot
  refine ⟨⟨(trim cs).head h, List.head?_eq_some_head h, by simpa using hnot⟩, ?_⟩
  have hlast : ¬ isBlank ((trim cs).getLast h) = true := List.rdropWhile_last_not isBlank _ h
  exact ⟨(trim cs).getLast h, List.getLast?_eq_some_getLast h, by simpa using hlast⟩

theorem trim_surround (ht : Tight t) (hw : Blanks w) (hw' : Blanks w') :
    trim (w ++ t ++ w') = t := by
  have hleft : (w ++ t ++ w').dropWhile isBlank = t ++ w' := by
    obtain ⟨c, hc, hblank⟩ := ht.head
    obtain ⟨rest, rfl⟩ := List.head?_eq_some_iff.mp hc
    rw [List.append_assoc, List.dropWhile_append_of_pos hw, List.cons_append,
      List.dropWhile_cons_of_neg (by simp [hblank])]
  obtain ⟨c, hc, hblank⟩ := ht.last
  obtain ⟨front, rfl⟩ := List.getLast?_eq_some_iff.mp hc
  have hrev : ∀ d ∈ w'.reverse, isBlank d = true := fun d hd => hw' d (List.mem_reverse.mp hd)
  unfold trim trimRight
  rw [hleft, List.reverse_append, List.dropWhile_append_of_pos hrev, List.reverse_concat,
    List.dropWhile_cons_of_neg (by simp [hblank]), ← List.reverse_concat, List.reverse_reverse]

theorem trim_eq_iff (ht : Tight t) :
    trim cs = t ↔ ∃ w w', Blanks w ∧ Blanks w' ∧ cs = w ++ t ++ w' := by
  constructor
  · rintro rfl
    exact exists_trim cs
  · rintro ⟨w, w', hw, hw', rfl⟩
    exact trim_surround ht hw hw'

theorem Tight.trim_eq (h : Tight cs) : trim cs = cs :=
  (trim_eq_iff h).mpr ⟨[], [], .nil, .nil, by simp⟩

theorem Blanks.trim_eq (h : Blanks cs) : trim cs = [] := by
  by_contra hne
  obtain ⟨c, hc, hblank⟩ := (tight_trim hne).head
  obtain ⟨w, w', -, -, heq⟩ := exists_trim cs
  have hmem : c ∈ cs := by
    rw [heq]
    simp [List.mem_of_head? hc]
  rw [h c hmem] at hblank
  cases hblank

theorem trim_eq_nil_iff : trim cs = [] ↔ Blanks cs := by
  constructor
  · intro h
    obtain ⟨w, w', hw, hw', heq⟩ := exists_trim cs
    rw [heq, h, List.append_nil]
    exact hw.append hw'
  · exact Blanks.trim_eq

/-- Blanks around a text make no difference to what trimming leaves. -/
theorem trim_blanks (hw : Blanks w) (hw' : Blanks w') (cs : List Char) :
    trim (w ++ cs ++ w') = trim cs := by
  obtain ⟨u, u', hu, hu', heq⟩ := exists_trim cs
  have hcut : w ++ cs ++ w' = (w ++ u) ++ trim cs ++ (u' ++ w') := by
    conv_lhs => rw [heq]
    simp only [List.append_assoc]
  by_cases h : trim cs = []
  · rw [hcut, h, List.append_nil]
    exact ((hw.append hu).append (hu'.append hw')).trim_eq
  · rw [hcut]
    exact trim_surround (tight_trim h) (hw.append hu) (hu'.append hw')

/-- What holds of the blanks and of the trimmed text holds of all characters. -/
theorem forall_mem_of_trim {P : Char → Prop} (hblank : ∀ c, isBlank c = true → P c)
    (h : ∀ c ∈ trim cs, P c) : ∀ c ∈ cs, P c := by
  obtain ⟨w, w', hw, hw', heq⟩ := exists_trim cs
  intro c hc
  rw [heq] at hc
  rcases List.mem_append.mp hc with hc | hc
  · rcases List.mem_append.mp hc with hc | hc
    · exact hblank c (hw c hc)
    · exact h c hc
  · exact hblank c (hw' c hc)

theorem trim_trim (cs : List Char) : trim (trim cs) = trim cs := by
  by_cases h : trim cs = []
  · rw [h]
    rfl
  · exact (tight_trim h).trim_eq

end FrameLog.Text
