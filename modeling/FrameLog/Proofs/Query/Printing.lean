import FrameLog.Proofs.Query.Reading

/-! # Printing queries

Printing a question and reading it are inverse to each other, as far as constants are no floats. -/

namespace FrameLog
open Text

/-! ## What can be written -/

/-- The argument reads as it prints. -/
inductive Term.WellFormed : Term → Prop
  | anonymous : WellFormed .anonymous
  -- `[A-Z_][A-Za-z0-9_]*`, other than `_`
  | variable {name c cs} (hname : name.toList = c :: cs) (hc : c.isUpper = true ∨ c = '_')
      (hcs : WordChars cs) (hne : name ≠ "_") : WellFormed (.var name)
  | integer {n} (hn : 0 ≤ Int64.toInt n) : WellFormed (.const (.int n))
  | null : WellFormed (.const .null)
  -- `[a-z][A-Za-z0-9_]*`, other than `null`
  | atom {text c cs} (htext : text.toList = c :: cs) (hc : c.isLower = true) (hcs : WordChars cs)
      (hne : text ≠ "null") : WellFormed (.const (.atom text))

/-- The goal has a predicate of the vocabulary and well-formed arguments, one at least. -/
structure Goal.WellFormed (v : Vocabulary) (g : Goal) : Prop where
  predicate : v.accepts g.predicate = true
  nonempty : g.args ≠ []
  args : ∀ a ∈ g.args, a.WellFormed

namespace Question

/-- The goals, negated or not, in order. -/
def goals : Question → List Goal
  | simple g => [g]
  | negated g => [g]
  | compound c => c.conditions.map (·.goal)

/-- A conjunction is of two conditions or more, the first of them not negated. -/
def Shaped : Question → Prop
  | compound c => 2 ≤ c.size ∧ ∀ d, c.conditions.head? = some d → d.negated = false
  | _ => True

structure WellFormed (v : Vocabulary) (k : Question) : Prop where
  goals : ∀ g ∈ k.goals, g.WellFormed v
  shaped : k.Shaped

/-- No constant is a float. -/
def FloatFree (k : Question) : Prop := ∀ g ∈ k.goals, ∀ a ∈ g.args, ∀ x, a ≠ .const (.float x)

end Question

/-! ## Well-formed questions derive from what they print -/

theorem Term.WellFormed.argumentText {a : Term} (h : a.WellFormed) :
    ArgumentText a.text.toList a := by
  cases h with
  | anonymous => exact .anonymous
  | @«variable» name c cs hname hc hcs hne =>
      have hvar : name = String.ofList (c :: cs) := by rw [← hname, String.ofList_toList]
      have hne' : c :: cs ≠ ['_'] := fun h => hne (by rw [hvar, h])
      simp only [Term.text]
      rw [hname, hvar]
      exact .variable hc hcs hne'
  | @integer n hn =>
      obtain ⟨m, hm⟩ := Int.eq_ofNat_of_zero_le hn
      have htext : (Term.text (.const (.int n))).toList = Nat.toDigits 10 m := by
        simp only [Term.text, Value.text, hm]
        exact Nat.toList_repr
      have hdigits : ∀ d ∈ Nat.toDigits 10 m, d.isDigit = true := fun d hd =>
        Nat.isDigit_of_mem_toDigits (by decide) (by decide) hd
      rw [htext]
      refine .integer Nat.toDigits_ne_nil hdigits ?_
      rw [hm, Decimal.ofDigits, Nat.ofDigitChars_ten_toDigits]
  | null => exact .null
  | @atom text c cs htext hc hcs hne =>
      have hatom : text = String.ofList (c :: cs) := by rw [← htext, String.ofList_toList]
      have hne' : c :: cs ≠ "null".toList := fun h => hne (by rw [hatom, h, String.ofList_toList])
      simp only [Term.text, Value.text]
      rw [htext, hatom]
      exact .atom hc hcs hne'

/-- A list prints with a comma and a blank between its items. -/
theorem separated_intercalate {α : Type} {Item : List Char → α → Prop} (text : α → String)
    {as : List α} (hne : as ≠ []) (h : ∀ a ∈ as, Item (text a).toList a) :
    Separated Item (", ".intercalate (as.map text)).toList as := by
  rw [String.toList_intercalate, List.map_map]
  induction as with
  | nil => exact absurd rfl hne
  | cons a as ih =>
      cases as with
      | nil =>
          rw [List.map_singleton, List.intercalate_singleton]
          exact .one (h a List.mem_cons_self)
      | cons b bs =>
          have hrest := ih (List.cons_ne_nil b bs) fun x hx => h x (List.mem_cons_of_mem a hx)
          have hblank : Blanks [' '] := .singleton (by decide)
          have hmore := Separated.more (h a List.mem_cons_self) .nil hblank hrest
          rw [List.append_nil] at hmore
          rw [List.map_cons, List.map_cons, List.intercalate_cons_cons, ← List.map_cons]
          rw [List.append_assoc]
          exact hmore

variable {v : Vocabulary}

theorem Goal.WellFormed.goalText {g : Goal} (h : g.WellFormed v) : GoalText v g.text.toList g := by
  have hargs := separated_intercalate Term.text h.nonempty fun a ha => (h.args a ha).argumentText
  have hgoal := GoalText.mk h.predicate .nil .nil .nil hargs
  simp only [List.append_nil, List.nil_append] at hgoal
  rw [Goal.text, String.toList_append, String.toList_append, String.toList_append,
    List.append_assoc _ "(".toList]
  exact hgoal

theorem Condition.conditionText {d : Condition} (h : d.goal.WellFormed v) :
    ConditionText v d.text.toList d := by
  obtain ⟨g, negated⟩ := d
  have hblank : Blanks [' '] := .singleton (by decide)
  cases negated with
  | false =>
      simp only [Condition.text, Bool.false_eq_true, if_false, String.empty_append]
      exact .positive h.goalText
  | true =>
      simp only [Condition.text, if_true, String.toList_append]
      exact .negated hblank h.goalText

theorem Separated.bodyText {cs : List Char} {ds : List Condition}
    (h : Separated (ConditionText v) cs ds) (hsize : 2 ≤ ds.length)
    (hfirst : ∀ d, ds.head? = some d → d.negated = false) : BodyText v cs (.compound ⟨ds⟩) := by
  cases h with
  | one _ => exact absurd hsize (by simp)
  | more hd hw hw' hrest =>
      cases hd with
      | positive hg => exact .compound hg hw hw' hrest
      | negated _ _ => cases hfirst _ rfl

/-- A question prints as a body between a query mark and a period. -/
theorem Question.WellFormed.queryText {k : Question} (h : k.WellFormed v) :
    QueryText v k.text.toList k := by
  have hblank : Blanks [' '] := .singleton (by decide)
  have hframe : ∀ body, BodyText v body k →
      QueryText v ("?- ".toList ++ body ++ ".".toList) k := by
    intro body hbody
    have hquery := QueryText.mk hblank .nil hbody
    rw [List.append_nil] at hquery
    exact hquery
  cases k with
  | simple g =>
      have hg := h.goals g List.mem_cons_self
      simp only [Question.text, String.toList_append]
      exact hframe _ (.simple hg.goalText)
  | negated g =>
      have hg := h.goals g List.mem_cons_self
      simp only [Question.text, String.toList_append]
      exact hframe _ (.negated hblank hg.goalText)
  | compound c =>
      obtain ⟨hsize, hfirst⟩ := h.shaped
      have hne : c.conditions ≠ [] := by
        intro hnil
        rw [Conjunction.size, hnil] at hsize
        cases hsize
      have hlist := separated_intercalate Condition.text hne fun d hd =>
        Condition.conditionText (h.goals d.goal (List.mem_map.mpr ⟨d, hd, rfl⟩))
      simp only [Question.text, Conjunction.text, String.toList_append]
      exact hframe _ (hlist.bodyText hsize hfirst)

/-! ## Derived questions are well formed -/

theorem ArgumentText.wellFormed {cs : List Char} {a : Term} (h : ArgumentText cs a)
    (hfloat : ∀ x, a ≠ .const (.float x)) : a.WellFormed := by
  cases h with
  | anonymous => exact .anonymous
  | «variable» hc hcs hne =>
      refine .variable String.toList_ofList hc hcs fun h => hne ?_
      rw [← String.toList_ofList (l := _ :: _), h]
      rfl
  | integer _ _ hn => exact .integer (by rw [hn]; exact Int.natCast_nonneg _)
  | large => exact absurd rfl (hfloat _)
  | null => exact .null
  | atom hc hcs hne =>
      refine .atom String.toList_ofList hc hcs fun h => hne ?_
      rw [← String.toList_ofList (l := _ :: _), h]

theorem Separated.exists_text {α : Type} {Item : List Char → α → Prop} {cs : List Char}
    {as : List α} (h : Separated Item cs as) : ∀ a ∈ as, ∃ ds, Item ds a := by
  induction h with
  | one h =>
      intro a ha
      rw [List.mem_singleton.mp ha]
      exact ⟨_, h⟩
  | more h _ _ _ ih =>
      intro a ha
      rcases List.mem_cons.mp ha with rfl | ha
      · exact ⟨_, h⟩
      · exact ih a ha

theorem GoalText.wellFormed {cs : List Char} {g : Goal} (h : GoalText v cs g)
    (hfloat : ∀ a ∈ g.args, ∀ x, a ≠ .const (.float x)) : g.WellFormed v := by
  obtain ⟨hp, -, -, -, hargs⟩ := h
  obtain ⟨b, bs, hcons⟩ := hargs.exists_cons
  refine ⟨hp, by rw [hcons]; exact List.cons_ne_nil b bs, fun a ha => ?_⟩
  obtain ⟨ds, hds⟩ := hargs.exists_text a ha
  exact hds.wellFormed (hfloat a ha)

theorem BodyText.exists_goalText {cs : List Char} {k : Question} (h : BodyText v cs k) :
    ∀ g ∈ k.goals, ∃ ds, GoalText v ds g := by
  intro g hg
  cases h with
  | negated _ h =>
      rw [List.mem_singleton.mp hg]
      exact ⟨_, h⟩
  | simple h =>
      rw [List.mem_singleton.mp hg]
      exact ⟨_, h⟩
  | compound h hw hw' hrest =>
      obtain ⟨d, hd, rfl⟩ := List.mem_map.mp hg
      obtain ⟨ds, hds⟩ := (Separated.more (ConditionText.positive h) hw hw' hrest).exists_text d hd
      cases hds with
      | positive h => exact ⟨_, h⟩
      | negated _ h => exact ⟨_, h⟩

theorem BodyText.shaped {cs : List Char} {k : Question} (h : BodyText v cs k) : k.Shaped := by
  cases h with
  | negated _ _ => trivial
  | simple _ => trivial
  | compound _ _ _ hrest =>
      obtain ⟨d, ds, rfl⟩ := hrest.exists_cons
      refine ⟨by simp [Conjunction.size], fun c hc => ?_⟩
      cases hc
      rfl

theorem QueryText.shaped {cs : List Char} {k : Question} (h : QueryText v cs k) : k.Shaped := by
  obtain ⟨-, -, hbody⟩ := h
  exact hbody.shaped

theorem QueryText.wellFormed {cs : List Char} {k : Question} (h : QueryText v cs k)
    (hfloat : k.FloatFree) : k.WellFormed v := by
  obtain ⟨-, -, hbody⟩ := h
  refine ⟨fun g hg => ?_, hbody.shaped⟩
  obtain ⟨ds, hds⟩ := hbody.exists_goalText g hg
  exact hds.wellFormed (hfloat g hg)

/-! ## The two are inverse -/

theorem Question.WellFormed.read_text {k : Question} (h : k.WellFormed v) :
    Query.read v k.text = .ok ⟨k.text, k⟩ := by
  have htext : trim k.text.toList = k.text.toList := h.queryText.tight.trim_eq
  have hread := Query.read_of_derives (s := k.text) (htext.symm ▸ h.queryText)
  rwa [htext, String.ofList_toList] at hread

/-- A well-formed question is read back from what it prints, and what is read without a float is
well formed. -/
theorem Question.read_text_inverse (v : Vocabulary) :
    (∀ k : Question, k.WellFormed v → Query.read v k.text = .ok ⟨k.text, k⟩) ∧
    ∀ (s : String) (q : Query), Query.read v s = .ok q → q.question.FloatFree →
      q.question.WellFormed v ∧
        Query.read v q.question.text = .ok ⟨q.question.text, q.question⟩ := by
  refine ⟨fun k hk => hk.read_text, fun s q hq hfloat => ?_⟩
  have hk : q.question.WellFormed v := (Query.derives_of_read hq).2.wellFormed hfloat
  exact ⟨hk, hk.read_text⟩

/-- Which frames failed without calling another? -/
def failedLeaves : Question :=
  .compound ⟨[⟨⟨.status, [.var "X", .const (.atom "error")]⟩, false⟩,
    ⟨⟨.calls, [.var "X", .anonymous]⟩, true⟩]⟩

theorem failedLeaves_wellFormed : failedLeaves.WellFormed .full := by
  have hx : "X".toList = ['X'] := rfl
  have herror : "error".toList = ['e', 'r', 'r', 'o', 'r'] := rfl
  have hvar : (Term.var "X").WellFormed :=
    .variable hx (.inl (by decide)) (.of_all (by decide)) (by decide)
  have hatom : (Term.const (.atom "error")).WellFormed :=
    .atom herror (by decide) (.of_all (by decide)) (by decide)
  refine ⟨fun g hg => ?_, by decide, fun d hd => by cases hd; rfl⟩
  simp only [failedLeaves, Question.goals, List.map_cons, List.map_nil, List.mem_cons,
    List.not_mem_nil, or_false] at hg
  rcases hg with rfl | rfl
  · exact ⟨rfl, List.cons_ne_nil _ _, by simp [hvar, hatom]⟩
  · exact ⟨rfl, List.cons_ne_nil _ _, by simp [hvar, Term.WellFormed.anonymous]⟩

theorem read_text_inverse_failedLeaves :
    failedLeaves.WellFormed .full ∧ failedLeaves.FloatFree ∧
    Query.read .full "?- status(X, error), \\+ calls(X, _)." =
      .ok ⟨"?- status(X, error), \\+ calls(X, _).", failedLeaves⟩ ∧
    Query.read .full failedLeaves.text = .ok ⟨failedLeaves.text, failedLeaves⟩ := by
  have htext : failedLeaves.text = "?- status(X, error), \\+ calls(X, _)." := by decide
  have hfloat : failedLeaves.FloatFree := by
    simp [failedLeaves, Question.FloatFree, Question.goals]
  obtain ⟨hprint, hread⟩ := Question.read_text_inverse .full
  have hk := hprint failedLeaves failedLeaves_wellFormed
  refine ⟨failedLeaves_wellFormed, hfloat, ?_, (hread _ _ hk hfloat).2⟩
  rw [← htext]
  exact hk

end FrameLog
