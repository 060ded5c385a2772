import FrameLog.Proofs.Query.Reading

/-! # Conditions of a compound body

A body of several conditions is judged condition by condition: each is a condition of the body exactly
when it is a query by itself, and the first one that is none is reported. -/

namespace FrameLog
open Text

/-! ## Causes within causes -/

namespace QueryError

/-- The error says where another one was found. -/
inductive Wraps : QueryError → QueryError → Prop
  | negation (cause : QueryError) : Wraps (.inNegation cause) cause
  | condition (position : Nat) (cause : QueryError) : Wraps (.inCondition position cause) cause

/-- The error says nothing of where another one was found. -/
def Bare (e : QueryError) : Prop := ∀ cause, ¬ Wraps e cause

/-- The error says at most once where another one was found. -/
def Shallow (e : QueryError) : Prop := ∀ cause, Wraps e cause → cause.Bare

/-- An error of a body, as it is reported for a condition among others. -/
def amongOthers : QueryError → QueryError
  | noBody => blankCondition
  | inNegation cause => cause
  | cause => cause

theorem Bare.root_eq {e : QueryError} (h : e.Bare) : e.root = e := by
  cases e with
  | inNegation cause => exact absurd (.negation cause) (h cause)
  | inCondition position cause => exact absurd (.condition position cause) (h cause)
  | _ => rfl

theorem Bare.shallow {e : QueryError} (h : e.Bare) : e.Shallow := fun cause hwraps =>
  absurd hwraps (h cause)

theorem Bare.inNegation {e : QueryError} (h : e.Bare) : (inNegation e).Shallow := by
  rintro _ ⟨⟩
  exact h

theorem Bare.inCondition {e : QueryError} (h : e.Bare) (position : Nat) :
    (inCondition position e).Shallow := by
  rintro _ ⟨⟩
  exact h

/-- An error that is not its own root is one step from it. -/
theorem Shallow.root_cases {e : QueryError} (h : e.Shallow) : e.root = e ∨ Wraps e e.root := by
  cases e with
  | inNegation cause =>
      right
      rw [root, (h cause (.negation cause)).root_eq]
      exact .negation cause
  | inCondition position cause =>
      right
      rw [root, (h cause (.condition position cause)).root_eq]
      exact .condition position cause
  | _ => exact .inl rfl

end QueryError

/-- The question that a condition is by itself. -/
def Condition.alone (c : Condition) : Question :=
  if c.negated then .negated c.goal else .simple c.goal

theorem Condition.alone_inj {c d : Condition} (h : c.alone = d.alone) : c = d := by
  obtain ⟨g, b⟩ := c
  obtain ⟨g', b'⟩ := d
  cases b <;> cases b' <;> cases h <;> rfl

variable {v : Vocabulary} {cs : List Char} {e : QueryError}

/-! ## Errors of a goal -/

/-- An error of a goal wraps nothing and is reported alike for a condition among others. -/
def QueryError.OfGoal (e : QueryError) : Prop := e.Bare ∧ e.amongOthers = e

theorem Goal.readArgument_blames (token : List Char) :
    Blames QueryError.OfGoal (Goal.readArgument token) := by
  unfold Goal.readArgument
  split
  · exact .throw ⟨nofun, rfl⟩
  · split
    · exact .pure _
    · exact .throw ⟨nofun, rfl⟩

theorem Goal.readPredicate_blames (v : Vocabulary) (name : List Char) :
    Blames QueryError.OfGoal (Goal.readPredicate v name) := by
  unfold Goal.readPredicate
  split
  · exact .throw ⟨nofun, rfl⟩
  · split
    · split
      · exact .throw ⟨nofun, rfl⟩
      · exact .throw ⟨nofun, rfl⟩
    · dsimp only
      split
      · exact .pure _
      · exact .throw ⟨nofun, rfl⟩

theorem Goal.readArguments_blames (name interior : List Char) :
    Blames QueryError.OfGoal (Goal.readArguments name interior) := by
  unfold Goal.readArguments
  split
  · exact .throw ⟨nofun, rfl⟩
  · exact .mapM (fun token => readArgument_blames (trim token)) _

theorem Goal.read_blames (v : Vocabulary) (body : List Char) :
    Blames QueryError.OfGoal (Goal.read v body) := by
  unfold Goal.read
  split
  dsimp only
  split
  · exact .throw ⟨nofun, rfl⟩
  · refine .guard ⟨nofun, rfl⟩ (.bind (readPredicate_blames v _) fun predicate => ?_)
    refine .guard ⟨nofun, rfl⟩ (.guard ⟨nofun, rfl⟩ ?_)
    exact .bind (readArguments_blames _ _) fun args => .pure _

/-! ## One condition by itself -/

/-- A text that is not cut is a condition just as it is a question. -/
theorem Condition.read_alone (v : Vocabulary) (h : Query.segments cs = [cs]) :
    (Condition.read v cs).map Condition.alone =
      (Question.read v cs).mapError QueryError.amongOthers := by
  unfold Condition.read Question.read
  -- the two differ in what they say of an empty text and in the place of an error after a sign
  split
  · rfl
  · cases negatedPart? cs with
    | none =>
        rw [h]
        cases hread : Goal.read v cs with
        | error e =>
            have := (Goal.read_blames v cs e hread).2
            exact congrArg Except.error this.symm
        | ok g => rfl
    | some goal =>
        cases goal with
        | nil => rfl
        | cons c goal =>
            dsimp only
            cases Goal.read v (c :: goal) <;> rfl

/-- The question between the mark and the period. -/
theorem Query.read_enclosed (v : Vocabulary) (body : String) :
    Query.read v ("?-" ++ body ++ ".") =
      (Question.read v (trim body.toList)).map (Query.mk ("?-" ++ body ++ ".")) := by
  have hlist : ("?-" ++ body ++ ".").toList = '?' :: '-' :: (body.toList ++ ['.']) := by simp
  have hlast : ('?' :: '-' :: (body.toList ++ ['.'])).getLast? = some '.' :=
    List.getLast?_concat (l := '?' :: '-' :: body.toList)
  have htight : Tight ('?' :: '-' :: (body.toList ++ ['.'])) :=
    ⟨⟨'?', rfl, by decide⟩, ⟨'.', hlast, by decide⟩⟩
  unfold Query.read
  simp only [hlist, htight.trim_eq, hlast, List.isEmpty_cons, Bool.false_eq_true, if_false, ne_eq,
    not_true, List.dropLast_concat]
  rw [← hlist, String.ofList_toList]
  rfl

/-- The reading of a text between the mark and the period. -/
def Query.readBody (v : Vocabulary) (body : List Char) : Except QueryError Query :=
  Query.read v ("?-" ++ String.ofList body ++ ".")

/-- A segment is a condition when it is a query by itself; else the error is the same but for its
place. -/
theorem Query.segment_cases (v : Vocabulary) {s : List Char} (h : s ∈ Query.segments cs) :
    (∃ d q, Condition.read v (trim s) = .ok d ∧ Query.readBody v s = .ok q ∧
      q.question = d.alone) ∨
    ∃ cause, Condition.read v (trim s) = .error cause.amongOthers ∧
      Query.readBody v s = .error cause := by
  have halone := Condition.read_alone v (Query.segments_trim_of_mem h)
  rw [Query.readBody, Query.read_enclosed, String.toList_ofList]
  cases hd : Condition.read v (trim s) with
  | ok d =>
      cases hk : Question.read v (trim s) with
      | ok k =>
          rw [hd, hk] at halone
          exact .inl ⟨d, _, rfl, rfl, (Except.ok.inj halone).symm⟩
      | error cause =>
          rw [hd, hk] at halone
          cases halone
  | error e =>
      cases hk : Question.read v (trim s) with
      | ok k =>
          rw [hd, hk] at halone
          cases halone
      | error cause =>
          rw [hd, hk] at halone
          exact .inr ⟨cause, congrArg _ (Except.error.inj halone), rfl⟩

theorem Query.condition_eq_ok_iff {s : List Char} (h : s ∈ Query.segments cs) {d : Condition} :
    Condition.read v (trim s) = .ok d ↔ ∃ q, Query.readBody v s = .ok q ∧ q.question = d.alone := by
  rcases Query.segment_cases v h with ⟨d', q, hd, hq, hquestion⟩ | ⟨cause, hd, hq⟩
  · rw [hd, hq]
    constructor
    · rintro ⟨⟩
      exact ⟨q, rfl, hquestion⟩
    · rintro ⟨_, ⟨⟩, halone⟩
      rw [Condition.alone_inj (hquestion.symm.trans halone)]
  · simp [hd, hq]

theorem Query.exists_condition_iff {s : List Char} (h : s ∈ Query.segments cs) :
    (∃ d, Condition.read v (trim s) = .ok d) ↔ ∃ q, Query.readBody v s = .ok q := by
  rcases Query.segment_cases v h with ⟨d, q, hd, hq, -⟩ | ⟨cause, hd, hq⟩
  · exact iff_of_true ⟨d, hd⟩ ⟨q, hq⟩
  · simp [hd, hq]

theorem Query.condition_eq_error_iff {s : List Char} (h : s ∈ Query.segments cs) :
    Condition.read v (trim s) = .error e ↔
      ∃ cause, Query.readBody v s = .error cause ∧ e = cause.amongOthers := by
  rcases Query.segment_cases v h with ⟨d, q, hd, hq, -⟩ | ⟨cause, hd, hq⟩
  · simp [hd, hq]
  · simp [hd, hq, eq_comm]

/-! ## Several conditions -/

theorem exists_forall₂_iff {α β : Type} {R : α → β → Prop} {as : List α} :
    (∃ bs, List.Forall₂ R as bs) ↔ ∀ a ∈ as, ∃ b, R a b := by
  induction as with
  | nil => simp
  | cons a as ih =>
      rw [List.forall_mem_cons, ← ih]
      simp only [List.forall₂_cons_left_iff]
      constructor
      · rintro ⟨_, b, bs, hb, hbs, rfl⟩
        exact ⟨⟨b, hb⟩, bs, hbs⟩
      · rintro ⟨⟨b, hb⟩, bs, hbs⟩
        exact ⟨_, b, bs, hb, hbs, rfl⟩

theorem Conjunction.read_map_trim (v : Vocabulary) (segments : List (List Char)) :
    Conjunction.read v (segments.map trim) = Conjunction.read v segments := by
  unfold Conjunction.read
  rw [List.zipIdx_map]
  simp only [List.mapM_map, Function.comp_def, Prod.map, id, trim_trim]

theorem Question.read_compound (hpositive : ¬ ['\\', '+'] <+: trim cs)
    (hseveral : 2 ≤ (Query.segments cs).length) : Question.read v (trim cs) =
      (Conjunction.read v (Query.segments cs)).map Question.compound := by
  have hpart : negatedPart? (trim cs) = none := by
    rw [Option.eq_none_iff_forall_ne_some]
    intro part hpart
    obtain ⟨rest, heq, -⟩ := negatedPart?_eq_some_iff.mp hpart
    exact hpositive ⟨rest, heq.symm⟩
  -- the reader cuts the trimmed text, whose segments differ in blanks at their ends only
  have htrim := Query.map_trim_segments cs
  have hlength : 2 ≤ (Query.segments (trim cs)).length := by
    rw [← List.length_map trim, htrim, List.length_map]
    exact hseveral
  rw [← Conjunction.read_map_trim, ← htrim, Conjunction.read_map_trim]
  unfold Question.read
  obtain ⟨p, q, ps, hsegments⟩ : ∃ p q ps, Query.segments (trim cs) = p :: q :: ps := by
    match Query.segments (trim cs), hlength with
    | p :: q :: ps, _ => exact ⟨p, q, ps, rfl⟩
  have hne : (trim cs).isEmpty = false := by
    rw [List.isEmpty_eq_false_iff]
    intro hempty
    rw [hempty] at hsegments
    cases hsegments
  rw [hne, hpart, hsegments]
  rfl

theorem Conjunction.exists_read_iff {segments : List (List Char)} :
    (∃ c, Conjunction.read v segments = .ok c) ↔
      ∀ s ∈ segments, ∃ d, Condition.read v (trim s) = .ok d := by
  rw [← exists_forall₂_iff]
  simp only [Conjunction.read_eq_ok_iff, Condition.read_eq_ok_iff]
  exact ⟨fun ⟨c, hc⟩ => ⟨c.conditions, hc⟩, fun ⟨ds, hds⟩ => ⟨⟨ds⟩, hds⟩⟩

theorem Query.readBody_several (hpositive : ¬ ['\\', '+'] <+: trim cs)
    (hseveral : 2 ≤ (Query.segments cs).length) : Query.readBody v cs =
      (Conjunction.read v (Query.segments cs)).map fun c =>
        ⟨"?-" ++ String.ofList cs ++ ".", .compound c⟩ := by
  rw [Query.readBody, Query.read_enclosed, String.toList_ofList,
    Question.read_compound hpositive hseveral]
  cases Conjunction.read v (Query.segments cs) <;> rfl

/-- A body is judged by its segments, each of which is read by itself: all of them must be queries, and
these are its conditions; or else the first that is none is reported with its place. -/
structure Query.ReadByConditions (v : Vocabulary) (body : List Char) : Prop where
  accepted : (∃ q, readBody v body = .ok q) ↔ ∀ s ∈ segments body, ∃ q, readBody v s = .ok q
  conditions : ∀ q, readBody v body = .ok q → ∃ c : Conjunction, q.question = .compound c ∧
    List.Forall₂ (fun s d => ∃ q, readBody v s = .ok q ∧ q.question = d.alone)
      (segments body) c.conditions
  refused : ∀ e, readBody v body = .error e ↔ ∃ before s rest cause,
    segments body = before ++ s :: rest ∧ (∀ s' ∈ before, ∃ q, readBody v s' = .ok q) ∧
    readBody v s = .error cause ∧ e = .inCondition (before.length + 1) cause.amongOthers

theorem Query.readByConditions (hpositive : ¬ ['\\', '+'] <+: trim cs)
    (hseveral : 2 ≤ (Query.segments cs).length) : Query.ReadByConditions v cs := by
  have hread := Query.readBody_several (v := v) hpositive hseveral
  refine ⟨?_, fun q hq => ?_, fun e => ?_⟩
  · calc (∃ q, Query.readBody v cs = .ok q)
        ↔ ∃ c, Conjunction.read v (Query.segments cs) = .ok c := by
          simp [hread, map_eq_ok_iff]
      _ ↔ ∀ s ∈ Query.segments cs, ∃ d, Condition.read v (trim s) = .ok d :=
          Conjunction.exists_read_iff
      _ ↔ ∀ s ∈ Query.segments cs, ∃ q, Query.readBody v s = .ok q :=
          forall₂_congr fun s hs => Query.exists_condition_iff hs
  · rw [hread, map_eq_ok_iff] at hq
    obtain ⟨c, hc, rfl⟩ := hq
    simp only [Conjunction.read_eq_ok_iff, ← Condition.read_eq_ok_iff] at hc
    have hmem := (List.forall₂_and_left _ _).mpr ⟨fun s hs => hs, hc⟩
    exact ⟨c, rfl, hmem.imp fun s d h => (Query.condition_eq_ok_iff h.1).mp h.2⟩
  · rw [hread, map_eq_error_iff, Conjunction.read_eq_error_iff]
    constructor
    · rintro ⟨before, s, rest, _, hsplit, hbefore, hs, rfl⟩
      have hmem : ∀ s' ∈ before ++ s :: rest, s' ∈ Query.segments cs := fun s' h => hsplit ▸ h
      obtain ⟨cause, hcause, rfl⟩ := (Query.condition_eq_error_iff (hmem s (by simp))).mp hs
      refine ⟨before, s, rest, cause, hsplit, fun s' hs' => ?_, hcause, rfl⟩
      exact (Query.exists_condition_iff (hmem s' (by simp [hs']))).mp (hbefore s' hs')
    · rintro ⟨before, s, rest, cause, hsplit, hbefore, hcause, rfl⟩
      have hmem : ∀ s' ∈ before ++ s :: rest, s' ∈ Query.segments cs := fun s' h => hsplit ▸ h
      refine ⟨before, s, rest, _, hsplit, fun s' hs' => ?_,
        (Query.condition_eq_error_iff (hmem s (by simp))).mpr ⟨cause, hcause, rfl⟩, rfl⟩
      exact (Query.exists_condition_iff (hmem s' (by simp [hs']))).mpr (hbefore s' hs')

/-! ## Errors of a query -/

theorem Condition.read_blames (v : Vocabulary) (segment : List Char) :
    Blames QueryError.Bare (Condition.read v segment) := by
  have hgoal : ∀ body, Blames QueryError.Bare (Goal.read v body) := fun body =>
    (Goal.read_blames v body).mono fun _ h => h.1
  unfold Condition.read
  split
  · exact .throw nofun
  · split
    · exact .bind (hgoal _) fun _ => .pure _
    · exact .throw nofun
    · exact .bind (hgoal _) fun _ => .pure _

theorem Conjunction.read_blames (v : Vocabulary) (segments : List (List Char)) :
    Blames QueryError.Shallow (Conjunction.read v segments) := by
  refine .bind (.mapM (fun s => ?_) _) fun _ => .pure _
  exact (Condition.read_blames v _).mapError fun _ h => h.inCondition s.2

theorem Question.read_blames (v : Vocabulary) (body : List Char) :
    Blames QueryError.Shallow (Question.read v body) := by
  have hbare : ∀ {e : QueryError}, e.Bare → e.Shallow := QueryError.Bare.shallow
  unfold Question.read
  split
  · exact .throw (hbare nofun)
  · split
    · exact .throw (hbare nofun)
    · exact .bind ((Goal.read_blames v _).mapError fun _ h => h.1.inNegation) fun _ => .pure _
    · split
      · exact .bind ((Goal.read_blames v _).mono fun _ h => h.1.shallow) fun _ => .pure _
      · exact .bind (Conjunction.read_blames v _) fun _ => .pure _

theorem Query.read_blames (v : Vocabulary) (input : String) :
    Blames QueryError.Shallow (Query.read v input) := by
  have hbare : ∀ {e : QueryError}, e.Bare → e.Shallow := QueryError.Bare.shallow
  unfold Query.read
  refine .guard (hbare nofun) ?_
  split
  · exact .guard (hbare nofun) (.bind (Question.read_blames v _) fun _ => .pure _)
  · exact .throw (hbare nofun)

/-- A body that does not begin with a negation sign and has several segments is judged by them, each
read by itself between a mark and a period. Whatever the text, an error says at most once where it was
found, so its root is at most one step away. -/
theorem Query.read_conditions (v : Vocabulary) :
    (∀ body : String, ¬ ['\\', '+'] <+: trim body.toList →
      2 ≤ (Query.segments body.toList).length → Query.ReadByConditions v body.toList) ∧
    ∀ input e, Query.read v input = .error e →
      e.Shallow ∧ (e.root = e ∨ QueryError.Wraps e e.root) := by
  refine ⟨fun body hpositive hseveral => Query.readByConditions hpositive hseveral, ?_⟩
  intro input e he
  have hshallow := Query.read_blames v input e he
  exact ⟨hshallow, hshallow.root_cases⟩

/-- The second condition is wrong, and so is the last one. -/
def capitalCalls : String := " status(X, active), \\+ Calls(X, _), frame(X, F, _, _), "

theorem read_conditions_capitalCalls :
    ¬ ['\\', '+'] <+: trim capitalCalls.toList ∧ 2 ≤ (Query.segments capitalCalls.toList).length ∧
    Query.read .full "?- \\+ Calls(X, _)." =
      .error (.inNegation (.uppercasePredicate "Calls")) ∧
    Query.read .full ("?-" ++ capitalCalls ++ ".") =
      .error (.inCondition 2 (.uppercasePredicate "Calls")) ∧
    (QueryError.inCondition 2 (.uppercasePredicate "Calls")).Shallow := by
  have hpositive : ¬ ['\\', '+'] <+: trim capitalCalls.toList := by decide +kernel
  have hseveral : 2 ≤ (Query.segments capitalCalls.toList).length := by decide +kernel
  obtain ⟨hconditions, hshallow⟩ := Query.read_conditions .full
  have halone : Query.read .full "?- \\+ Calls(X, _)." =
      .error (.inNegation (.uppercasePredicate "Calls")) := by decide +kernel
  have hbefore : ∀ s ∈ [" status(X, active)".toList], ∃ q, Query.readBody .full s = .ok q := by
    intro s hs
    obtain rfl := List.mem_singleton.mp hs
    exact ⟨⟨"?- status(X, active).", .simple ⟨.status, [.var "X", .const (.atom "active")]⟩⟩,
      by decide +kernel⟩
  have hread : Query.read .full ("?-" ++ capitalCalls ++ ".") =
      .error (.inCondition 2 (.uppercasePredicate "Calls")) :=
    ((hconditions capitalCalls hpositive hseveral).refused _).mpr
      ⟨_, " \\+ Calls(X, _)".toList, [" frame(X, F, _, _)".toList, [' ']], _,
        by decide +kernel, hbefore, halone, rfl⟩
  exact ⟨hpositive, hseveral, halone, hread, (hshallow _ _ hread).1⟩

end FrameLog
