import FrameLog.Proofs.Query.Grammar
import Mathlib.Data.List.TakeDrop

/-! # Reading arguments and predicates

The token readers accept exactly the tokens of the grammar. -/

namespace FrameLog
open Text

/-! ## Kinds of characters -/

/-- Digits and small letters begin no variable. -/
theorem not_variable_start {c : Char} (h : c.isDigit = true ∨ c.isLower = true) :
    (c.isUpper || c == '_') = false := by
  rw [isDigit_iff, isLower_iff] at h
  have hupper : ¬ c.isUpper = true := by rw [isUpper_iff]; omega
  have hunder : c ≠ '_' := by
    rintro rfl
    revert h
    decide
  simp [hupper, hunder]

theorem isDigit_eq_false_of_isLower {c : Char} (h : c.isLower = true) : c.isDigit = false := by
  rw [Bool.eq_false_iff, Ne, isDigit_iff]
  rw [isLower_iff] at h
  omega

/-! ## Constants -/

theorem Decimal.read?_digits {ds : List Char} (hne : ds ≠ []) (hds : ∀ d ∈ ds, d.isDigit = true) :
    Decimal.read? ds = some ⟨Decimal.ofDigits ds, 0⟩ := by
  have hspan : ds.span Char.isDigit = (ds, []) := by
    rw [List.span_eq_takeWhile_dropWhile, List.takeWhile_eq_self_iff.mpr hds,
      List.dropWhile_eq_nil_iff.mpr hds]
  have hempty : ds.isEmpty = false := by rwa [List.isEmpty_eq_false_iff]
  simp only [Decimal.read?, hspan, hempty, Decimal.readExponent?, List.append_nil,
    List.length_nil, Bool.false_eq_true, if_false, Option.map_some]
  rfl

theorem Value.readNumber?_digits {ds : List Char} (hne : ds ≠ [])
    (hds : ∀ d ∈ ds, d.isDigit = true) :
    Value.readNumber? ds = some (if Decimal.ofDigits ds < 2 ^ 63 then
      .int (Int64.ofInt (Decimal.ofDigits ds))
      else .float (Decimal.toBinary64 ⟨Decimal.ofDigits ds, 0⟩)) := by
  have hall : ds.all Char.isDigit = true := List.all_eq_true.mpr hds
  unfold Value.readNumber?
  rw [Decimal.read?_digits hne hds]
  split <;> simp_all

/-- A token that begins no variable stands for a constant. -/
theorem Term.ofToken_constant {c : Char} (h : c.isDigit = true ∨ c.isLower = true)
    (cs : List Char) : Term.ofToken (c :: cs) = .const (Value.ofToken (c :: cs)) := by
  have hstart := not_variable_start h
  unfold Term.ofToken
  split
  · rename_i heq
    cases heq
    exact absurd hstart (by decide)
  · rename_i heq
    cases heq
    rw [if_neg (by simp [hstart])]
  · rfl

theorem Term.ofToken_digits {ds : List Char} (hne : ds ≠ []) (hds : ∀ d ∈ ds, d.isDigit = true) :
    Term.ofToken ds = .const (if Decimal.ofDigits ds < 2 ^ 63 then
      .int (Int64.ofInt (Decimal.ofDigits ds))
      else .float (Decimal.toBinary64 ⟨Decimal.ofDigits ds, 0⟩)) := by
  obtain ⟨c, cs, rfl⟩ := List.exists_cons_of_ne_nil hne
  have hc : c.isDigit = true := hds c List.mem_cons_self
  rw [Term.ofToken_constant (.inl hc), Value.ofToken]
  simp only [hc, if_true]
  rw [Value.readNumber?_digits hne hds, Option.getD_some]

theorem Term.ofToken_word {c : Char} (hc : c.isLower = true) (cs : List Char) :
    Term.ofToken (c :: cs) = .const (if c :: cs = "null".toList then .null
      else .atom (String.ofList (c :: cs))) := by
  have hnull : String.ofList (c :: cs) = "null" ↔ c :: cs = "null".toList := by
    rw [← String.toList_inj, String.toList_ofList]
  rw [Term.ofToken_constant (.inr hc), Value.ofToken]
  simp only [isDigit_eq_false_of_isLower hc, Bool.false_eq_true, if_false, hnull]

theorem Term.ofToken_variable {c : Char} {cs : List Char} (hc : c.isUpper = true ∨ c = '_')
    (hne : c :: cs ≠ ['_']) : Term.ofToken (c :: cs) = .var (String.ofList (c :: cs)) := by
  unfold Term.ofToken
  split
  · rename_i heq
    exact absurd heq hne
  · rename_i heq
    cases heq
    rw [if_pos (by simpa using hc)]
  · rename_i heq
    cases heq

theorem toInt_ofInt_of_lt {n : Nat} (h : n < 2 ^ 63) : (Int64.ofInt n).toInt = n :=
  Int64.toInt_ofInt_of_le (by omega) (by omega)

/-! ## Arguments -/

variable {cs : List Char} {a : Term}

theorem ArgumentText.ofToken_eq (h : ArgumentText cs a) : Term.ofToken cs = a := by
  cases h with
  | anonymous => rfl
  | «variable» hc _ hne => exact Term.ofToken_variable hc hne
  | @integer _ n hne hds hn =>
      have hlt : Decimal.ofDigits cs < 2 ^ 63 := by
        have := n.toInt_lt
        omega
      rw [Term.ofToken_digits hne hds, if_pos hlt, ← hn, Int64.ofInt_toInt]
  | large hne hds hn => rw [Term.ofToken_digits hne hds, if_neg (Nat.not_lt.mpr hn)]
  | null => decide
  | atom hc _ hne => rw [Term.ofToken_word hc, if_neg hne]

theorem ArgumentText.isArgumentToken (h : ArgumentText cs a) : isArgumentToken cs = true := by
  have hdigits : ∀ {ds : List Char}, ds ≠ [] → (∀ d ∈ ds, d.isDigit = true) →
      isNumeralToken ds = true := by
    intro ds hne hds
    rw [isNumeralToken, List.all_eq_true.mpr hds, List.isEmpty_eq_false_iff.mpr hne]
    rfl
  have hword : ∀ {ds : List Char}, WordChars ds → ds.all isWordChar = true :=
    fun h => List.all_eq_true.mpr h
  cases h with
  | anonymous => decide
  | «variable» hc hcs _ => simp [FrameLog.isArgumentToken, isVariableToken, hc, hword hcs]
  | integer hne hds => simp [FrameLog.isArgumentToken, hdigits hne hds]
  | large hne hds => simp [FrameLog.isArgumentToken, hdigits hne hds]
  | null => decide
  | atom hc hcs _ => simp [FrameLog.isArgumentToken, isAtomToken, hc, hword hcs]

theorem exists_argumentText (h : isArgumentToken cs = true) : ∃ a, ArgumentText cs a := by
  simp only [isArgumentToken, Bool.or_eq_true] at h
  rcases h with (h | h) | h
  · obtain - | ⟨c, cs⟩ := cs
    · cases h
    · simp only [isVariableToken, Bool.and_eq_true, Bool.or_eq_true, beq_iff_eq] at h
      by_cases hne : c :: cs = ['_']
      · rw [hne]
        exact ⟨_, .anonymous⟩
      · exact ⟨_, .variable h.1 (List.all_eq_true.mp h.2) hne⟩
  · simp only [isNumeralToken, Bool.and_eq_true, Bool.not_eq_true', List.isEmpty_eq_false_iff,
      List.all_eq_true] at h
    by_cases hlt : Decimal.ofDigits cs < 2 ^ 63
    · exact ⟨_, .integer h.1 h.2 (toInt_ofInt_of_lt hlt)⟩
    · exact ⟨_, .large h.1 h.2 (Nat.not_lt.mp hlt)⟩
  · obtain - | ⟨c, cs⟩ := cs
    · cases h
    · simp only [isAtomToken, Bool.and_eq_true] at h
      by_cases hne : c :: cs = "null".toList
      · rw [hne]
        exact ⟨_, .null⟩
      · exact ⟨_, .atom h.1 (List.all_eq_true.mp h.2) hne⟩

theorem Goal.readArgument_eq_ok_iff : Goal.readArgument cs = .ok a ↔ ArgumentText cs a := by
  unfold Goal.readArgument
  constructor
  · intro h
    split at h
    · cases h
    · split at h
      · rename_i htoken
        obtain ⟨b, hb⟩ := exists_argumentText htoken
        rw [hb.ofToken_eq] at h
        cases h
        exact hb
      · cases h
  · intro h
    rw [if_neg (by simp [h.ne_nil]), if_pos h.isArgumentToken, h.ofToken_eq]
    rfl

/-! ## Predicates -/

theorem Vocabulary.resolve?_eq_some_iff {v : Vocabulary} {s : String} {p : Predicate} :
    v.resolve? s = some p ↔ s = p.name ∧ v.accepts p = true := by
  rw [Vocabulary.resolve?, Option.filter_eq_some_iff, Named.find?_eq_some_iff]
  rfl

theorem Predicate.isEmpty_name (p : Predicate) : p.name.toList.isEmpty = false := by
  cases p <;> decide

theorem Predicate.isAtomToken_name (p : Predicate) : isAtomToken p.name.toList = true := by
  cases p <;> decide

theorem Goal.readPredicate_eq_ok_iff {v : Vocabulary} {p : Predicate} :
    Goal.readPredicate v cs = .ok p ↔ cs = p.name.toList ∧ v.accepts p = true := by
  have hname : String.ofList cs = p.name ↔ cs = p.name.toList := by
    rw [← String.toList_inj, String.toList_ofList]
  rw [← hname, ← Vocabulary.resolve?_eq_some_iff]
  unfold Goal.readPredicate
  constructor
  · intro h
    split at h
    · cases h
    · split at h
      · split at h <;> cases h
      · simp only at h
        split at h
        · rename_i heq
          cases h
          exact heq
        · cases h
  · intro h
    obtain ⟨rfl, -⟩ : cs = p.name.toList ∧ v.accepts p = true := by
      rwa [Vocabulary.resolve?_eq_some_iff, hname] at h
    simp only [p.isEmpty_name, p.isAtomToken_name, h, Bool.false_eq_true, Bool.not_true, if_false]
    rfl

end FrameLog
