import FrameLog.Proofs.Join.Extension
import FrameLog.Proofs.Query.Printing
import FrameLog.Session

/-!
# The variables of an answer

Whatever the facts hold, the bindings of an answer all give values to the same variables, which are
those that the positive goals of the question name.
-/

namespace FrameLog

/-! ## What a join binds -/

/-- The binding gives values to the named variables and to no others. -/
def Binding.Binds (b : Binding) (names : List String) : Prop := ∀ x, x ∈ b.keys ↔ x ∈ names

section

variable {facts : FactBase} {answers : List Binding} {m e : Binding}

theorem Binding.binds_empty : Binding.empty.Binds [] := by simp [Binds, keys, empty]

theorem Binding.Binds.congr {names names' : List String} (h : m.Binds names)
    (hnames : ∀ x, x ∈ names ↔ x ∈ names') : m.Binds names' := fun x => (h x).trans (hnames x)

/-- Bindings of the same variables list them alike, since they are sorted. -/
theorem Binding.Binds.keys_eq {names : List String} (hm : m.Binds names) (he : e.Binds names) :
    m.keys = e.keys := by
  have hall : List.Forall₂ (fun d d' => d.1 = d'.1 ∧ True) m.entries e.entries :=
    forall₂_of_lookup (R := fun _ _ => True) m.sorted e.sorted fun x => by
      have hx : (∃ v, m.get? x = some v) ↔ ∃ v, e.get? x = some v := by
        rw [← mem_keys_iff, ← mem_keys_iff, hm x, he x]
      change Option.Rel _ (m.get? x) (e.get? x)
      cases hmx : m.get? x <;> cases hex : e.get? x <;> simp_all
  have hkeys : List.Forall₂ Eq m.keys e.keys :=
    List.forall₂_map_left_iff.mpr (List.forall₂_map_right_iff.mpr (hall.imp fun _ _ h => h.1))
  rwa [List.forall₂_eq_eq_eq] at hkeys

theorem Goal.binds_of_mem_answers {g : Goal} (h : m ∈ g.answers facts) : m.Binds g.names := by
  obtain ⟨f, -, hf⟩ := List.mem_filterMap.mp h
  intro x
  rw [Fact.mem_keys_match? hf, mem_names_iff]

theorem Condition.binds_of_mem_extensions {c : Condition} {names : List String}
    (hm : m.Binds names) (he : e ∈ c.extensions facts m) : e.Binds (names ++ positiveVars [c]) := by
  intro x
  rw [List.mem_append, ← hm x]
  cases hc : c.negated with
  | true =>
      obtain ⟨rfl, -⟩ := (mem_extensions_negated hc).mp he
      simp [positiveVars, hc]
  | false =>
      rw [mem_keys_extension hc he]
      simp [mem_positiveVars_iff, hc]

theorem binds_of_mem_foldl_extend (cs ds : List Condition)
    (h : ∀ m ∈ answers, m.Binds (positiveVars cs)) :
    ∀ m ∈ ds.foldl (fun answers d => d.extend facts answers) answers,
      m.Binds (positiveVars (cs ++ ds)) := by
  induction ds generalizing cs answers with
  | nil => simpa using h
  | cons d ds ih =>
      have hnext : ∀ e ∈ d.extend facts answers, e.Binds (positiveVars (cs ++ [d])) := by
        intro e he
        obtain ⟨m, hm, hem⟩ := Condition.exists_of_mem_extend he
        rw [positiveVars_append]
        exact Condition.binds_of_mem_extensions (h m hm) hem
      simpa using ih (cs ++ [d]) hnext

theorem Conjunction.binds_of_mem_answers {c : Conjunction} (h : m ∈ c.answers facts) :
    m.Binds (positiveVars c.conditions) := by
  unfold answers at h
  match hc : c.conditions with
  | [] => simp [hc] at h
  | first :: rest =>
      rw [hc] at h
      refine binds_of_mem_foldl_extend [first] rest (fun e he => ?_) m h
      rw [first.answers_eq_extensions] at he
      exact Condition.binds_of_mem_extensions Binding.binds_empty he

theorem Question.binds_of_mem_answers {k : Question} (h : m ∈ k.answers facts) :
    m.Binds (k.positiveGoals.flatMap Goal.names) := by
  cases k with
  | simple g => simpa [positiveGoals] using Goal.binds_of_mem_answers h
  | negated g =>
      obtain rfl : m = .empty := by
        simp only [answers, Goal.negatedAnswers] at h
        split at h
        · exact List.mem_singleton.mp h
        · cases h
      exact Binding.binds_empty
  | compound c =>
      refine (Conjunction.binds_of_mem_answers h).congr fun x => ?_
      rw [mem_positiveVars_iff, List.mem_flatMap]
      simp only [mem_positiveGoals_compound, Goal.mem_names_iff]
      constructor
      · rintro ⟨d, hd, hneg, hx⟩
        exact ⟨d.goal, ⟨d, hd, hneg, rfl⟩, hx⟩
      · rintro ⟨_, ⟨d, hd, hneg, rfl⟩, hx⟩
        exact ⟨d, hd, hneg, hx⟩

end

/-! ## The variables of a question -/

namespace Question

theorem vars_eq (k : Question) : k.vars = firstAppearances (k.goals.flatMap Goal.names) := by
  cases k with
  | simple g => simp [vars, Goal.vars, goals, Goal.names]
  | negated g => simp [vars, Goal.vars, goals, Goal.names]
  | compound c =>
      simp only [vars, Conjunction.vars, goals, List.flatMap_map]
      exact firstAppearances_flatMap (fun d : Condition => d.goal.names) c.conditions

theorem mem_goals_of_mem_positiveGoals {k : Question} {g : Goal} (h : g ∈ k.positiveGoals) :
    g ∈ k.goals := by
  cases k with
  | simple _ => exact h
  | negated _ => cases h
  | compound c =>
      obtain ⟨d, hd, -, rfl⟩ := mem_positiveGoals_compound.mp h
      exact List.mem_map_of_mem hd

end Question

theorem ArgumentText.var_ne_underscore {cs : List Char} {x : String}
    (h : ArgumentText cs (.var x)) : x ≠ "_" := by
  cases h with
  | «variable» _ _ hne =>
      rintro heq
      refine hne ?_
      rw [← String.toList_ofList (l := _ :: _), heq]
      rfl

theorem GoalText.exists_argumentText {v : Vocabulary} {cs : List Char} {g : Goal}
    (h : GoalText v cs g) : ∀ a ∈ g.args, ∃ ds, ArgumentText ds a := by
  obtain ⟨-, -, -, -, hargs⟩ := h
  exact hargs.exists_text

theorem QueryText.exists_goalText {v : Vocabulary} {cs : List Char} {k : Question}
    (h : QueryText v cs k) : ∀ g ∈ k.goals, ∃ ds, GoalText v ds g := by
  obtain ⟨-, -, hbody⟩ := h
  exact hbody.exists_goalText

/-- No variable of a query that was read is called `_`. -/
theorem Query.underscore_not_mem {v : Vocabulary} {input : String} {q : Query}
    (h : Query.read v input = .ok q) : "_" ∉ q.question.goals.flatMap Goal.names := by
  intro hmem
  obtain ⟨g, hg, hx⟩ := List.mem_flatMap.mp hmem
  obtain ⟨-, htext⟩ := Query.derives_of_read h
  obtain ⟨_, hgoal⟩ := htext.exists_goalText g hg
  obtain ⟨_, hvar⟩ := hgoal.exists_argumentText _ (Goal.mem_names_iff.mp hx)
  exact hvar.var_ne_underscore rfl

/-! ## Numbered lines -/

/-- The line has a number and shows the value of a variable. -/
def Report.ShowsAssignment (line : String) : Prop :=
  ∃ (n : Nat) (x : String) (v : Value) (rest : String),
    line = "  " ++ toString n ++ ". " ++ (x ++ " = " ++ v.text ++ rest)

theorem Binding.exists_text {b : Binding} (h : b.isEmpty = false) :
    ∃ (x : String) (v : Value) (rest : String), b.text = x ++ " = " ++ v.text ++ rest := by
  unfold isEmpty at h
  rcases hb : b.entries with - | ⟨⟨x, v⟩, - | ⟨e, es⟩⟩
  · simp [hb] at h
  · exact ⟨x, v, "", by simp [text, hb]⟩
  · refine ⟨x, v, ", " ++ ", ".intercalate ((e :: es).map fun p => p.1 ++ " = " ++ p.2.text), ?_⟩
    simp [text, hb, String.intercalate_cons_cons, String.append_assoc]

theorem Report.showsAssignment_of_mem_numbered {bindings : List Binding}
    (h : ∀ b ∈ bindings, b.isEmpty = false) :
    ∀ line ∈ numbered bindings, ShowsAssignment line := by
  intro line hline
  obtain ⟨⟨b, n⟩, hb, rfl⟩ := List.mem_map.mp hline
  obtain ⟨x, v, rest, htext⟩ := Binding.exists_text (h b (List.fst_mem_of_mem_zipIdx hb))
  exact ⟨n, x, v, rest, by simp only [htext]⟩

/-! ## Answers -/

/-- The answer has the variables of the question, and its bindings those of the positive goals. -/
structure Answer.HasSchema (a : Answer) (k : Question) : Prop where
  vars : InOrderOfAppearance a.vars (k.goals.flatMap Goal.names)
  binds : ∀ b ∈ a.bindings, b.Binds (k.positiveGoals.flatMap Goal.names)
  uniform : ∀ b ∈ a.bindings, ∀ b' ∈ a.bindings, b.keys = b'.keys
  listed : ∀ b ∈ a.bindings, ∀ x ∈ b.keys, x ∈ a.vars ∧ x ≠ "_"
  /-- Either every binding is empty or none is. -/
  alike : (∀ b ∈ a.bindings, b.isEmpty = true) ∨ ∀ b ∈ a.bindings, b.isEmpty = false
  /-- The bindings are shown as a mere number, or each in a line with an assignment. -/
  shown :
    Report.found a.bindings =
        "Yes - found " ++ toString a.bindings.length ++ " matching fact(s)." ∨
      Report.found a.bindings = "\n".intercalate
        (("Found " ++ toString a.bindings.length ++ " result(s):") ::
          Report.numbered a.bindings) ∧
      ∀ line ∈ Report.numbered a.bindings, Report.ShowsAssignment line

theorem Binding.isEmpty_eq_keys (b : Binding) : b.isEmpty = b.keys.isEmpty := by
  simp [isEmpty, keys]

theorem Report.found_shown {bindings : List Binding}
    (h : (∀ b ∈ bindings, b.isEmpty = true) ∨ ∀ b ∈ bindings, b.isEmpty = false) :
    found bindings = "Yes - found " ++ toString bindings.length ++ " matching fact(s)." ∨
      found bindings = "\n".intercalate
        (("Found " ++ toString bindings.length ++ " result(s):") :: numbered bindings) ∧
      ∀ line ∈ numbered bindings, ShowsAssignment line := by
  by_cases hall : bindings.all Binding.isEmpty = true
  · exact .inl (if_pos hall)
  · rcases h with h | h
    · exact absurd (List.all_eq_true.mpr h) hall
    · exact .inr ⟨if_neg hall, showsAssignment_of_mem_numbered h⟩

namespace Session

theorem run_eq_answered_iff {s : Session} {input : String} {a : Answer} :
    s.run input = .answered a ↔
      ∃ q, Query.read s.settings.vocabulary input = .ok q ∧ s.evaluate q = a := by
  unfold run read
  cases Query.read s.settings.vocabulary input with
  | error cause => simp
  | ok q => simp

/-- An answer that a session gives to a text has the variables of the query that was read: all of
them, in the order of their appearance, for the answer as a whole, and those of the positive goals
for every binding. -/
theorem schema_of_run {s : Session} {input : String} {a : Answer} (h : s.run input = .answered a) :
    ∃ q, Query.read s.settings.vocabulary input = .ok q ∧ a = s.evaluate q ∧
      a.HasSchema q.question := by
  obtain ⟨q, hq, rfl⟩ := run_eq_answered_iff.mp h
  have hvars : InOrderOfAppearance q.question.vars (q.question.goals.flatMap Goal.names) := by
    rw [Question.vars_eq]
    exact firstAppearances_inOrder _
  have hbinds : ∀ b ∈ q.question.answers s.facts,
      b.Binds (q.question.positiveGoals.flatMap Goal.names) :=
    fun b hb => Question.binds_of_mem_answers hb
  have huniform : ∀ b ∈ q.question.answers s.facts, ∀ b' ∈ q.question.answers s.facts,
      b.keys = b'.keys := fun b hb b' hb' => (hbinds b hb).keys_eq (hbinds b' hb')
  have hlisted : ∀ b ∈ q.question.answers s.facts, ∀ x ∈ b.keys,
      x ∈ q.question.vars ∧ x ≠ "_" := by
    intro b hb x hx
    obtain ⟨g, hg, hgx⟩ := List.mem_flatMap.mp ((hbinds b hb x).mp hx)
    have hx : x ∈ q.question.goals.flatMap Goal.names :=
      List.mem_flatMap.mpr ⟨g, Question.mem_goals_of_mem_positiveGoals hg, hgx⟩
    exact ⟨(hvars.mem_iff x).mpr hx, fun heq => Query.underscore_not_mem hq (heq ▸ hx)⟩
  have halike : (∀ b ∈ q.question.answers s.facts, b.isEmpty = true) ∨
      ∀ b ∈ q.question.answers s.facts, b.isEmpty = false := by
    by_cases hsome : ∃ b ∈ q.question.answers s.facts, b.isEmpty = true
    · obtain ⟨b, hb, hempty⟩ := hsome
      refine .inl fun b' hb' => ?_
      rw [Binding.isEmpty_eq_keys, huniform b' hb' b hb, ← Binding.isEmpty_eq_keys, hempty]
    · exact .inr (by simpa using hsome)
  exact ⟨q, hq, rfl, hvars, hbinds, huniform, hlisted, halike, Report.found_shown halike⟩

/-- Frame 1 called frames 2 and 3; of these, one has a parameter that is no number, twice. -/
def unmeasuredTrace : FactBase where
  toList :=
    [⟨.calls, [.int 1, .int 2]⟩, ⟨.calls, [.int 1, .int 3]⟩,
      ⟨.param, [.int 3, .atom "delay", .float ⟨0x7ff8000000000000⟩]⟩,
      ⟨.param, [.int 3, .atom "delay", .float ⟨0x7ff8000000000000⟩]⟩]
  wellFormed := by decide

/-- The parameters of the frames that were called and called none. -/
def leafParameters : Question :=
  .compound ⟨[⟨⟨.calls, [.anonymous, .var "X"]⟩, false⟩, ⟨⟨.calls, [.var "X", .var "Y"]⟩, true⟩,
    ⟨⟨.param, [.var "X", .var "P", .var "V"]⟩, false⟩]⟩

theorem read_leafParameters :
    Query.read .full " ?- calls(_, X), \\+ calls(X, Y), param(X, P, V). " =
      .ok ⟨"?- calls(_, X), \\+ calls(X, Y), param(X, P, V).", leafParameters⟩ := by
  rfl

theorem schema_of_run_leafParameters :
    let s : Session := { facts := unmeasuredTrace }
    ∃ a, s.run " ?- calls(_, X), \\+ calls(X, Y), param(X, P, V). " = .answered a ∧
      a.vars = ["X", "Y", "P", "V"] ∧ a.bindings.length = 2 ∧
      (∀ b ∈ a.bindings, b.keys = ["P", "V", "X"]) ∧ a.HasSchema leafParameters := by
  intro s
  have hrun := (run_eq_answered_iff (s := s)).mpr ⟨_, read_leafParameters, rfl⟩
  obtain ⟨q, hq, -, hschema⟩ := schema_of_run hrun
  obtain rfl := Except.ok.inj (read_leafParameters.symm.trans hq)
  exact ⟨_, hrun, by decide, by decide, by decide, hschema⟩

end Session

end FrameLog
