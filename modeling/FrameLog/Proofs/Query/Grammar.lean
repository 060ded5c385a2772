import FrameLog.Query.Reader
import FrameLog.Proofs.Text.Trim
import Mathlib.Algebra.Group.Nat.Defs

/-! # The grammar of queries

Which texts derive which queries, said without reference to the reader. -/

namespace FrameLog
open Text

/-! ## Tokens -/

/-- Word characters only: `[A-Za-z0-9_]*`. -/
def WordChars (cs : List Char) : Prop := ∀ c ∈ cs, isWordChar c = true

/-- The text of an argument and the term that it stands for. -/
inductive ArgumentText : List Char → Term → Prop
  | anonymous : ArgumentText ['_'] .anonymous
  -- `[A-Z_][A-Za-z0-9_]*`, other than `_`
  | variable {c cs} (hc : c.isUpper = true ∨ c = '_') (hcs : WordChars cs) (hne : c :: cs ≠ ['_']) :
      ArgumentText (c :: cs) (.var (String.ofList (c :: cs)))
  -- `[0-9]+`, a number that fits
  | integer {ds n} (hne : ds ≠ []) (hds : ∀ d ∈ ds, d.isDigit = true)
      (hn : Int64.toInt n = Decimal.ofDigits ds) : ArgumentText ds (.const (.int n))
  -- `[0-9]+`, a number that does not fit
  | large {ds} (hne : ds ≠ []) (hds : ∀ d ∈ ds, d.isDigit = true)
      (hn : 2 ^ 63 ≤ Decimal.ofDigits ds) :
      ArgumentText ds (.const (.float (Decimal.toBinary64 ⟨Decimal.ofDigits ds, 0⟩)))
  | null : ArgumentText "null".toList (.const .null)
  -- `[a-z][A-Za-z0-9_]*`, other than `null`
  | atom {c cs} (hc : c.isLower = true) (hcs : WordChars cs) (hne : c :: cs ≠ "null".toList) :
      ArgumentText (c :: cs) (.const (.atom (String.ofList (c :: cs))))

/-! ## Lists, goals and queries -/

/-- Items with commas between them, and blanks around the commas. -/
inductive Separated {α : Type} (Item : List Char → α → Prop) : List Char → List α → Prop
  | one {cs a} (h : Item cs a) : Separated Item cs [a]
  | more {cs w w' rest a as} (h : Item cs a) (hw : Blanks w) (hw' : Blanks w')
      (hrest : Separated Item rest as) : Separated Item (cs ++ w ++ ',' :: (w' ++ rest)) (a :: as)

/-- The text of a goal: a name of the vocabulary and arguments in parentheses. -/
inductive GoalText (v : Vocabulary) : List Char → Goal → Prop
  | mk {g w₁ w₂ w₃ inner} (hp : v.accepts g.predicate = true)
      (h₁ : Blanks w₁) (h₂ : Blanks w₂) (h₃ : Blanks w₃)
      (hargs : Separated ArgumentText inner g.args) :
      GoalText v (g.predicate.name.toList ++ w₁ ++ '(' :: (w₂ ++ inner ++ w₃) ++ [')']) g

/-- The text of a goal, with a negation sign before it if the condition is negated. -/
inductive ConditionText (v : Vocabulary) : List Char → Condition → Prop
  | positive {cs g} (h : GoalText v cs g) : ConditionText v cs ⟨g, false⟩
  | negated {w cs g} (hw : Blanks w) (h : GoalText v cs g) :
      ConditionText v ('\\' :: '+' :: (w ++ cs)) ⟨g, true⟩

/-- The text between the query mark and the period. Its first goal is negated only when it is the
only one. -/
inductive BodyText (v : Vocabulary) : List Char → Question → Prop
  | negated {w cs g} (hw : Blanks w) (h : GoalText v cs g) :
      BodyText v ('\\' :: '+' :: (w ++ cs)) (.negated g)
  | simple {cs g} (h : GoalText v cs g) : BodyText v cs (.simple g)
  | compound {cs w w' rest g ds} (h : GoalText v cs g) (hw : Blanks w) (hw' : Blanks w')
      (hrest : Separated (ConditionText v) rest ds) :
      BodyText v (cs ++ w ++ ',' :: (w' ++ rest)) (.compound ⟨⟨g, false⟩ :: ds⟩)

/-- The text of a query: a query mark, a body and a period. -/
inductive QueryText (v : Vocabulary) : List Char → Question → Prop
  | mk {w body w' k} (hw : Blanks w) (hw' : Blanks w') (h : BodyText v body k) :
      QueryText v ('?' :: '-' :: (w ++ body ++ w') ++ ['.']) k

/-! ## Characters -/

theorem isDigit_iff {c : Char} : c.isDigit = true ↔ 48 ≤ c.toNat ∧ c.toNat ≤ 57 := by
  change (decide (48 ≤ c.val) && decide (c.val ≤ 57)) = true ↔ _
  rw [Bool.and_eq_true, decide_eq_true_iff, decide_eq_true_iff, UInt32.le_iff_toNat_le,
    UInt32.le_iff_toNat_le]
  exact Iff.rfl

theorem isUpper_iff {c : Char} : c.isUpper = true ↔ 65 ≤ c.toNat ∧ c.toNat ≤ 90 := by
  change decide (65 ≤ c.val ∧ c.val ≤ 90) = true ↔ _
  rw [decide_eq_true_iff, UInt32.le_iff_toNat_le, UInt32.le_iff_toNat_le]
  exact Iff.rfl

theorem isLower_iff {c : Char} : c.isLower = true ↔ 97 ≤ c.toNat ∧ c.toNat ≤ 122 := by
  change (decide (97 ≤ c.val) && decide (c.val ≤ 122)) = true ↔ _
  rw [Bool.and_eq_true, decide_eq_true_iff, decide_eq_true_iff, UInt32.le_iff_toNat_le,
    UInt32.le_iff_toNat_le]
  exact Iff.rfl

theorem isWordChar_iff {c : Char} : isWordChar c = true ↔
    ((c.isUpper = true ∨ c.isLower = true) ∨ c.isDigit = true) ∨ c = '_' := by
  change (((c.isUpper || c.isLower) || c.isDigit) || c == '_') = true ↔ _
  rw [Bool.or_eq_true, Bool.or_eq_true, Bool.or_eq_true, beq_iff_eq]

theorem isWordChar.toNat {c : Char} (h : isWordChar c = true) :
    (48 ≤ c.toNat ∧ c.toNat ≤ 57) ∨ (65 ≤ c.toNat ∧ c.toNat ≤ 122) := by
  rw [isWordChar_iff, isUpper_iff, isLower_iff, isDigit_iff] at h
  rcases h with ((h | h) | h) | rfl
  · omega
  · omega
  · exact .inl h
  · decide

/-- Word characters are no blanks and do not structure a query. -/
theorem isWordChar.plain {c : Char} (h : isWordChar c = true) :
    isBlank c = false ∧ c ≠ '(' ∧ c ≠ ')' ∧ c ≠ ',' := by
  have hn := isWordChar.toNat h
  refine ⟨?_, ?_, ?_, ?_⟩
  · simp only [isBlank, Bool.or_eq_false_iff, Bool.and_eq_false_iff, decide_eq_false_iff_not,
      beq_eq_false_iff_ne]
    omega
  all_goals
    rintro rfl
    exact absurd h (by decide)

theorem isBlank.plain {c : Char} (h : isBlank c = true) : c ≠ '(' ∧ c ≠ ')' ∧ c ≠ ',' := by
  refine ⟨?_, ?_, ?_⟩
  all_goals
    rintro rfl
    exact absurd h (by decide)

theorem WordChars.cons {c : Char} {cs : List Char} (hc : isWordChar c = true)
    (hcs : WordChars cs) : WordChars (c :: cs) := by
  intro d hd
  rcases List.mem_cons.mp hd with rfl | hd
  · exact hc
  · exact hcs d hd

theorem WordChars.of_all {cs : List Char} (h : cs.all isWordChar = true) : WordChars cs :=
  List.all_eq_true.mp h

theorem Predicate.wordChars_name (p : Predicate) : WordChars p.name.toList := by
  cases p <;> exact .of_all (by decide)

/-- A text without parentheses. -/
def Flat (cs : List Char) : Prop := ∀ c ∈ cs, c ≠ '(' ∧ c ≠ ')'

variable {v : Vocabulary} {cs ds : List Char}

theorem Flat.append (h : Flat cs) (h' : Flat ds) : Flat (cs ++ ds) := by
  intro c hc
  rcases List.mem_append.mp hc with hc | hc
  · exact h c hc
  · exact h' c hc

theorem Flat.open_not_mem (h : Flat cs) : '(' ∉ cs := fun hc => (h _ hc).1 rfl

theorem Flat.close_not_mem (h : Flat cs) : ')' ∉ cs := fun hc => (h _ hc).2 rfl

theorem Text.Blanks.flat (h : Blanks cs) : Flat cs := fun c hc =>
  ⟨(isBlank.plain (h c hc)).1, (isBlank.plain (h c hc)).2.1⟩

theorem WordChars.flat (h : WordChars cs) : Flat cs := fun c hc =>
  ⟨(isWordChar.plain (h c hc)).2.1, (isWordChar.plain (h c hc)).2.2.1⟩

/-! ## Derivable texts are tight -/

theorem ArgumentText.wordChars {a : Term} (h : ArgumentText cs a) : WordChars cs := by
  cases h with
  | anonymous => exact .of_all (by decide)
  | «variable» hc hcs =>
      refine hcs.cons ?_
      rcases hc with hc | rfl
      · exact isWordChar_iff.mpr (.inl (.inl (.inl hc)))
      · decide
  | integer _ hds => exact fun d hd => isWordChar_iff.mpr (.inl (.inr (hds d hd)))
  | large _ hds => exact fun d hd => isWordChar_iff.mpr (.inl (.inr (hds d hd)))
  | null => exact .of_all (by decide)
  | atom hc hcs => exact hcs.cons (isWordChar_iff.mpr (.inl (.inl (.inr hc))))

theorem ArgumentText.ne_nil {a : Term} (h : ArgumentText cs a) : cs ≠ [] := by
  cases h with
  | integer hne => exact hne
  | large hne => exact hne
  | null => decide
  | _ => exact List.cons_ne_nil _ _

theorem ArgumentText.tight {a : Term} (h : ArgumentText cs a) : Tight cs :=
  .of_forall h.ne_nil fun c hc => (isWordChar.plain (h.wordChars c hc)).1

theorem Separated.tight {α : Type} {Item : List Char → α → Prop} {as : List α}
    (hitem : ∀ {cs a}, Item cs a → Tight cs) (h : Separated Item cs as) : Tight cs := by
  induction h with
  | one h => exact hitem h
  | @more cs w w' rest a as h _ _ _ ih =>
      have := (hitem h).append ih (w ++ ',' :: w')
      simpa using this

theorem Separated.exists_cons {α : Type} {Item : List Char → α → Prop} {as : List α}
    (h : Separated Item cs as) : ∃ b bs, as = b :: bs := by
  cases h with
  | one _ => exact ⟨_, _, rfl⟩
  | more _ _ _ _ => exact ⟨_, _, rfl⟩

theorem Separated.forall_mem {α : Type} {Item : List Char → α → Prop} {as : List α}
    {P : Char → Prop} (hitem : ∀ {cs a}, Item cs a → ∀ c ∈ cs, P c)
    (hblank : ∀ c, isBlank c = true → P c) (hcomma : P ',') (h : Separated Item cs as) :
    ∀ c ∈ cs, P c := by
  induction h with
  | one h => exact hitem h
  | more h hw hw' _ ih =>
      intro c hc
      simp only [List.mem_append, List.mem_cons] at hc
      rcases hc with (hc | hc) | rfl | hc | hc
      · exact hitem h c hc
      · exact hblank c (hw c hc)
      · exact hcomma
      · exact hblank c (hw' c hc)
      · exact ih c hc

/-- Arguments contain no parentheses. -/
theorem Separated.flat {as : List Term} (h : Separated ArgumentText cs as) : Flat cs :=
  h.forall_mem (fun h => h.wordChars.flat)
    (fun _ hc => ⟨(isBlank.plain hc).1, (isBlank.plain hc).2.1⟩) (by decide)

theorem Predicate.tight_name (p : Predicate) : Tight p.name.toList :=
  .of_forall (by cases p <;> decide) fun c hc => (isWordChar.plain (p.wordChars_name c hc)).1

theorem GoalText.tight {g : Goal} (h : GoalText v cs g) : Tight cs := by
  obtain ⟨-, -, -, -, -⟩ := h
  rw [List.append_assoc _ _ ('(' :: _)]
  exact g.predicate.tight_name.append (.singleton (by decide)) _

theorem tight_negation {w : List Char} (h : Tight cs) : Tight ('\\' :: '+' :: (w ++ cs)) := by
  have hsign : Tight ['\\'] := .singleton (by decide)
  exact hsign.append h ('+' :: w)

theorem ConditionText.tight {c : Condition} (h : ConditionText v cs c) : Tight cs := by
  cases h with
  | positive h => exact h.tight
  | negated _ h => exact tight_negation h.tight

theorem BodyText.tight {k : Question} (h : BodyText v cs k) : Tight cs := by
  cases h with
  | negated _ h => exact tight_negation h.tight
  | simple h => exact h.tight
  | compound h hw hw' hrest =>
      exact (Separated.more (ConditionText.positive h) hw hw' hrest).tight ConditionText.tight

theorem QueryText.tight {k : Question} (h : QueryText v cs k) : Tight cs := by
  obtain ⟨-, -, -⟩ := h
  have hmark : Tight ['?'] := .singleton (by decide)
  have hperiod : Tight ['.'] := .singleton (by decide)
  exact hmark.append hperiod _

end FrameLog
