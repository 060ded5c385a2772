import FrameLog.Proofs.FactBase
import FrameLog.Proofs.Join.Extension
import FrameLog.Proofs.Text.Opening
import FrameLog.Session

/-!
# The verdict in words

The first words of an answer say whether anything was found. They are chosen apart from the
bindings, by asking which predicates have facts, and agree with them all the same.
-/

namespace FrameLog

/-! ## The first words of a report -/

namespace Report

variable {facts : FactBase} {bindings : List Binding}

/-- What is said first of a predicate without facts. -/
def noFactsOpening (name : String) : String := "No facts found for predicate '" ++ name ++ "'"

theorem prefix_noFactsOpening (name : String) {s : String}
    (h : s.toList <+: "No facts found for predicate '".toList) :
    s.toList <+: (noFactsOpening name).toList := by
  unfold noFactsOpening
  rw [String.append_assoc, String.toList_append]
  exact h.trans (List.prefix_append _ _)

theorem noFacts_eq (r : Report) (goal : Goal) :
    r.noFacts goal = noFactsOpening goal.predicate.name ++
      (".\nAvailable predicates: " ++ ", ".intercalate r.vocabulary.names) := by
  have hquote : "'.\nAvailable predicates: " = "'" ++ ".\nAvailable predicates: " := rfl
  unfold noFacts noFactsOpening
  rw [hquote]
  simp only [String.append_assoc]

theorem noFacts_startsWith (r : Report) (goal : Goal) :
    (r.noFacts goal).startsWith (noFactsOpening goal.predicate.name) = true := by
  rw [noFacts_eq]
  exact startsWith_append _ _

theorem quote_not_mem_name (p : Predicate) : '\x27' ∉ p.name.toList := by
  cases p <;> decide

/-- The report names one predicate between quotes, and only there. -/
theorem name_of_noFacts_startsWith {r : Report} {goal : Goal} {name : String}
    (h : (r.noFacts goal).startsWith (noFactsOpening name) = true) :
    name = goal.predicate.name := by
  have hrest : '\x27' ∉
      (".\nAvailable predicates: " ++ ", ".intercalate r.vocabulary.names).toList := by
    intro hmem
    rw [String.toList_append, List.mem_append] at hmem
    rcases hmem with hmem | hmem
    · exact absurd hmem (by simp)
    · rcases mem_toList_intercalate hmem with hmem | ⟨_, ht, hmem⟩
      · exact absurd hmem (by decide)
      · obtain ⟨p, -, rfl⟩ := List.mem_map.mp ht
        exact quote_not_mem_name p hmem
  rw [noFacts_eq, String.startsWith_string_iff] at h
  unfold noFactsOpening at h
  simp only [String.append_assoc, String.toList_append, List.prefix_append_right_inj] at h
  rw [String.toList_append] at hrest
  exact String.toList_injective (eq_before_separator (quote_not_mem_name _) hrest h)

/-- How a report of something found begins. -/
def foundOpenings : List String := ["Yes - ", "Found ", "=", "\x1b"]

/-- How a report of nothing found begins, if facts of every positive goal are there. -/
def nothingOpenings : List String := ["No results ", "No exact match ", "No - "]

theorem found_startsWith (bindings : List Binding) :
    ∃ s ∈ foundOpenings, (found bindings).startsWith s = true := by
  unfold found
  split
  · refine ⟨"Yes - ", by decide, startsWith_append_right (startsWith_append_right ?_ _) _⟩
    exact String.startsWith_string_iff.mpr (by decide)
  · refine ⟨"Found ", by decide, startsWith_intercalate (startsWith_append_right ?_ _) _ _⟩
    exact startsWith_append _ _

theorem highlight_startsWith (r : Report) (text : String) (discovery : Discovery) :
    ∃ s ∈ foundOpenings, (r.highlight text discovery).startsWith s = true := by
  have hrule : String.ofList (List.replicate 60 '=') =
      "=" ++ String.ofList (List.replicate 59 '=') := by rfl
  unfold highlight
  simp only [hrule, String.append_assoc]
  cases r.color with
  | true =>
      have hon : "\x1b[93m" = "\x1b" ++ "[93m" := by rfl
      refine ⟨"\x1b", by decide, ?_⟩
      rw [if_pos rfl, hon, String.append_assoc]
      exact startsWith_append _ _
  | false =>
      refine ⟨"=", by decide, ?_⟩
      rw [if_neg (by decide), String.empty_append]
      exact startsWith_append _ _

theorem nothing_startsWith (r : Report) {goal : Goal}
    (hsome : facts.hasFacts goal.predicate = true) :
    ∃ s ∈ nothingOpenings, (r.nothing goal facts).startsWith s = true := by
  unfold nothing
  rw [hsome, Bool.not_true, if_neg (by decide)]
  split
  · refine ⟨"No results ", by decide, startsWith_intercalate ?_ _ _⟩
    exact String.startsWith_string_iff.mpr (by decide)
  · refine ⟨"No exact match ", by decide, startsWith_intercalate ?_ _ _⟩
    exact String.startsWith_string_iff.mpr (by decide)

theorem negated_startsWith_yes {goal : Goal} {succeeded : Bool}
    (h : facts.hasFacts goal.predicate = false ∨ succeeded = true) :
    (negated goal succeeded facts).startsWith "Yes - " = true := by
  unfold negated
  split
  · refine startsWith_append_right (startsWith_append_right ?_ _) _
    exact String.startsWith_string_iff.mpr (by decide)
  · rename_i hsome
    rw [if_pos (h.resolve_left (by simpa using hsome))]
    refine startsWith_append_right (startsWith_append_right ?_ _) _
    exact String.startsWith_string_iff.mpr (by decide)

theorem negated_startsWith_no {goal : Goal} (hsome : facts.hasFacts goal.predicate = true) :
    (negated goal false facts).startsWith "No - " = true := by
  unfold negated
  rw [hsome, Bool.not_true, if_neg (by decide), if_neg (by decide)]
  refine startsWith_append_right (startsWith_append_right ?_ _) _
  exact String.startsWith_string_iff.mpr (by decide)

end Report

/-! ## Predicates without facts -/

section

variable {facts : FactBase}

theorem Goal.answers_eq_nil_of_facts {g : Goal} (h : facts.facts g.predicate = []) :
    g.answers facts = [] := by
  rw [answers, h, List.filterMap_nil]

theorem Condition.extend_eq_nil_of_facts {c : Condition} (hc : c.negated = false)
    (h : facts.facts c.goal.predicate = []) (answers : List Binding) :
    c.extend facts answers = [] := by
  have hext : ∀ m, c.extensions facts m = [] := fun m => by
    rw [extensions, hc, if_neg (by decide),
      Goal.answers_eq_nil_of_facts (g := c.goal.substitute m) h, List.filterMap_nil]
  rw [extend_eq, List.flatMap_eq_nil_iff.mpr fun m _ => hext m, List.foldl_nil]

theorem foldl_extend_nil (ds : List Condition) :
    ds.foldl (fun answers d => d.extend facts answers) [] = [] := by
  induction ds with
  | nil => rfl
  | cons d ds ih => exact ih

theorem foldl_extend_eq_nil_of_facts {ds : List Condition} {d : Condition} (hd : d ∈ ds)
    (hneg : d.negated = false) (h : facts.facts d.goal.predicate = []) (answers : List Binding) :
    ds.foldl (fun answers d => d.extend facts answers) answers = [] := by
  induction ds generalizing answers with
  | nil => cases hd
  | cons e ds ih =>
      rcases List.mem_cons.mp hd with rfl | hd
      · rw [List.foldl_cons, Condition.extend_eq_nil_of_facts hneg h, foldl_extend_nil]
      · exact ih hd _

theorem Question.answers_eq_nil_of_facts {k : Question} {g : Goal} (hg : g ∈ k.positiveGoals)
    (h : facts.facts g.predicate = []) : k.answers facts = [] := by
  cases k with
  | simple g' =>
      obtain rfl := List.mem_singleton.mp hg
      exact Goal.answers_eq_nil_of_facts h
  | negated _ => cases hg
  | compound c =>
      obtain ⟨d, hd, hneg, rfl⟩ := mem_positiveGoals_compound.mp hg
      match hc : c.conditions with
      | [] => simp [hc] at hd
      | first :: rest =>
          simp only [answers, Conjunction.answers, hc]
          rcases List.mem_cons.mp (hc ▸ hd) with rfl | hd
          · have hfirst : d.answers facts = [] := by
              rw [Condition.answers, hneg, if_neg (by decide), Goal.answers_eq_nil_of_facts h]
            rw [hfirst, foldl_extend_nil]
          · exact foldl_extend_eq_nil_of_facts hd hneg h _

end

/-! ## The first words of an answer -/

/-- How an answer may begin: with what was found, with the fact that nothing was found, or with a
predicate of a positive goal that has no facts. -/
inductive Answer.Opens (k : Question) (facts : FactBase) (a : Answer) : Prop where
  | found (s : String) (hs : s ∈ Report.foundOpenings) (hopen : a.output.startsWith s = true)
      (hsome : a.bindings ≠ [])
  | nothing (s : String) (hs : s ∈ Report.nothingOpenings) (hopen : a.output.startsWith s = true)
      (hnone : a.bindings = []) (hfacts : ∀ g ∈ k.positiveGoals, facts.facts g.predicate ≠ [])
  | noFacts (r : Report) (g : Goal) (hg : g ∈ k.positiveGoals)
      (hfacts : facts.facts g.predicate = []) (hout : a.output = r.noFacts g)
      (hnone : a.bindings = [])

theorem Report.simple_startsWith_found (r : Report) (goal : Goal) {bindings : List Binding}
    (h : bindings ≠ []) (facts : FactBase) (discovery : Option Discovery) :
    ∃ s ∈ foundOpenings, (r.simple goal bindings facts discovery).startsWith s = true := by
  unfold simple
  rw [if_neg (by simpa using h)]
  cases discovery with
  | none => exact found_startsWith bindings
  | some discovery => exact highlight_startsWith r (found bindings) discovery

theorem Report.simple_nil (r : Report) (goal : Goal) (facts : FactBase)
    (discovery : Option Discovery) : r.simple goal [] facts discovery = r.nothing goal facts := rfl

theorem Report.compound_startsWith_nothing (r : Report) {c : Conjunction} {facts : FactBase}
    (h : ∀ d ∈ c.conditions, d.negated = false → facts.facts d.goal.predicate ≠ []) :
    ∃ s ∈ nothingOpenings, (r.compound c [] facts).startsWith s = true := by
  have hmissing : (c.conditions.find? fun d => !d.negated && !facts.hasFacts d.goal.predicate) =
      none := by
    rw [List.find?_eq_none]
    intro d hd
    cases hneg : d.negated with
    | true => simp
    | false => simp [FactBase.hasFacts_iff.mpr (h d hd hneg)]
  unfold compound
  simp only [hmissing]
  rw [if_neg (by simp)]
  split
  · refine ⟨"No - ", by decide, startsWith_append_right (startsWith_append_right ?_ _) _⟩
    exact String.startsWith_string_iff.mpr (by decide)
  · refine ⟨"No results ", by decide, startsWith_intercalate ?_ _ _⟩
    refine startsWith_append_right (startsWith_append_right ?_ _) _
    exact String.startsWith_string_iff.mpr (by decide)

theorem Report.compound_eq_noFacts (r : Report) {c : Conjunction} {facts : FactBase} {d : Condition}
    (hd : d ∈ c.conditions) (hneg : d.negated = false) (h : facts.facts d.goal.predicate = []) :
    ∃ e ∈ c.conditions, e.negated = false ∧ facts.facts e.goal.predicate = [] ∧
      r.compound c [] facts = r.noFacts e.goal := by
  cases hfind : c.conditions.find? fun d => !d.negated && !facts.hasFacts d.goal.predicate with
  | none =>
      refine absurd ?_ (List.find?_eq_none.mp hfind d hd)
      simp [hneg, FactBase.hasFacts_eq_false_iff.mpr h]
  | some e =>
      have he := List.find?_some hfind
      rw [Bool.and_eq_true, Bool.not_eq_true', Bool.not_eq_true',
        FactBase.hasFacts_eq_false_iff] at he
      refine ⟨e, List.mem_of_find?_eq_some hfind, he.1, he.2, ?_⟩
      unfold compound
      simp [hfind]

namespace Session

variable {s : Session} {q : Query}

theorem bindings_evaluate : (s.evaluate q).bindings = q.question.answers s.facts := rfl

theorem opens_simple {g : Goal} (hq : q.question = .simple g) :
    (s.evaluate q).Opens q.question s.facts := by
  have hout : (s.evaluate q).output = s.settings.report.simple g (g.answers s.facts) s.facts
      (classify s.settings.thresholds.rules g (g.answers s.facts)) := by
    simp [evaluate, hq, Question.answers]
  have hanswers : (s.evaluate q).bindings = g.answers s.facts := by
    rw [bindings_evaluate, hq, Question.answers]
  by_cases hnil : g.answers s.facts = []
  · have hnothing : (s.evaluate q).output = s.settings.report.nothing g s.facts := by
      rw [hout, hnil, Report.simple_nil]
    cases hfacts : s.facts.hasFacts g.predicate with
    | true =>
        obtain ⟨o, ho, hopen⟩ := s.settings.report.nothing_startsWith hfacts
        refine .nothing o ho (hnothing ▸ hopen) (hanswers.trans hnil) fun g' hg' => ?_
        rw [hq] at hg'
        obtain rfl := List.mem_singleton.mp hg'
        exact FactBase.hasFacts_iff.mp hfacts
    | false =>
        refine .noFacts s.settings.report g (hq ▸ List.mem_singleton_self g)
          (FactBase.hasFacts_eq_false_iff.mp hfacts) ?_ (hanswers.trans hnil)
        rw [hnothing, Report.nothing, hfacts, Bool.not_false, if_pos rfl]
  · obtain ⟨o, ho, hopen⟩ := s.settings.report.simple_startsWith_found g hnil s.facts
      (classify s.settings.thresholds.rules g (g.answers s.facts))
    exact .found o ho (hout ▸ hopen) (hanswers ▸ hnil)

theorem opens_compound {c : Conjunction} (hq : q.question = .compound c) :
    (s.evaluate q).Opens q.question s.facts := by
  have hout : (s.evaluate q).output = s.settings.report.compound c (c.answers s.facts) s.facts := by
    simp [evaluate, hq, Question.answers]
  have hanswers : (s.evaluate q).bindings = c.answers s.facts := by
    rw [bindings_evaluate, hq, Question.answers]
  by_cases hnil : c.answers s.facts = []
  · rw [hnil] at hout hanswers
    by_cases hfacts : ∀ d ∈ c.conditions, d.negated = false →
        s.facts.facts d.goal.predicate ≠ []
    · obtain ⟨o, ho, hopen⟩ := s.settings.report.compound_startsWith_nothing hfacts
      refine .nothing o ho (hout ▸ hopen) hanswers fun g hg => ?_
      rw [hq] at hg
      obtain ⟨d, hd, hneg, rfl⟩ := Question.mem_positiveGoals_compound.mp hg
      exact hfacts d hd hneg
    · push Not at hfacts
      obtain ⟨d, hd, hneg, hnone⟩ := hfacts
      obtain ⟨e, he, hneg, hnone, hno⟩ := s.settings.report.compound_eq_noFacts hd hneg hnone
      refine .noFacts s.settings.report e.goal ?_ hnone (hout.trans hno) hanswers
      rw [hq]
      exact Question.mem_positiveGoals_compound.mpr ⟨e, he, hneg, rfl⟩
  · obtain ⟨o, ho, hopen⟩ := Report.found_startsWith (c.answers s.facts)
    refine .found o ho ?_ (hanswers ▸ hnil)
    rw [hout, Report.compound, if_pos (by simpa using hnil)]
    exact hopen

theorem opens_negated {g : Goal} (hq : q.question = .negated g) :
    (s.evaluate q).bindings = [.empty] ∧ (s.evaluate q).output.startsWith "Yes - " = true ∨
      (s.evaluate q).bindings = [] ∧ (s.evaluate q).output.startsWith "No - " = true := by
  have hanswers : (s.evaluate q).bindings = g.negatedAnswers s.facts := by
    rw [bindings_evaluate, hq, Question.answers]
  have hout : (s.evaluate q).output =
      Report.negated g (!(g.negatedAnswers s.facts).isEmpty) s.facts := by
    simp [evaluate, hq, Question.answers]
  rw [hanswers, hout, Goal.negatedAnswers, Goal.fails]
  by_cases hnil : g.answers s.facts = []
  · rw [hnil, List.isEmpty_nil, if_pos rfl]
    exact .inl ⟨rfl, Report.negated_startsWith_yes (.inr rfl)⟩
  · have hfacts : s.facts.hasFacts g.predicate = true :=
      FactBase.hasFacts_iff.mpr fun h => hnil (Goal.answers_eq_nil_of_facts h)
    rw [if_neg (by simpa using hnil)]
    exact .inr ⟨rfl, Report.negated_startsWith_no hfacts⟩

theorem opens (s : Session) (q : Query) : (s.evaluate q).Opens q.question s.facts := by
  match hq : q.question with
  | .simple g => exact hq ▸ opens_simple hq
  | .compound c => exact hq ▸ opens_compound hq
  | .negated g =>
      rcases opens_negated (s := s) hq with ⟨hsome, hopen⟩ | ⟨hnone, hopen⟩
      · exact .found _ (by decide) hopen (by simp [hsome])
      · exact .nothing _ (by decide) hopen hnone (by simp [Question.positiveGoals])

end Session

/-! ## The verdict -/

/-- The answer has the bindings that answer the question, and its first words agree with them. -/
structure Answer.SaysVerdict (a : Answer) (k : Question) (facts : FactBase) : Prop where
  bindings : a.bindings = k.answers facts
  no_iff : a.output.startsWith "No" = true ↔ a.bindings = []
  yes_iff : ∀ g, k = .negated g → (a.output.startsWith "Yes" = true ↔ a.bindings = [.empty])
  /-- Only a predicate without facts is reported as one. -/
  of_noFacts : ∀ name : String,
    a.output.startsWith ("No facts found for predicate '" ++ name ++ "'") = true →
      ∃ g ∈ k.positiveGoals, g.predicate.name = name ∧ facts.facts g.predicate = []
  /-- A predicate of a positive goal without facts is reported. -/
  noFacts : ∀ g ∈ k.positiveGoals, facts.facts g.predicate = [] →
    a.bindings = [] ∧ a.output.startsWith "No facts found for predicate" = true

namespace Answer

variable {k : Question} {facts : FactBase} {a : Answer}

theorem Opens.no_iff (h : a.Opens k facts) : a.output.startsWith "No" = true ↔ a.bindings = [] := by
  cases h with
  | found s hs hopen hsome =>
      have hapart : ∀ s ∈ Report.foundOpenings, Apart s "No" := by decide
      exact iff_of_false (not_startsWith hopen (hapart s hs)) hsome
  | nothing s hs hopen hnone _ =>
      have hno : ∀ s ∈ Report.nothingOpenings, "No".toList <+: s.toList := by decide
      exact iff_of_true (startsWith_trans hopen (hno s hs)) hnone
  | noFacts r g _ _ hout hnone =>
      refine iff_of_true ?_ hnone
      rw [hout]
      exact startsWith_trans (r.noFacts_startsWith g) (Report.prefix_noFactsOpening _ (by decide))

theorem Opens.of_noFacts (h : a.Opens k facts) {name : String}
    (hname : a.output.startsWith (Report.noFactsOpening name) = true) :
    ∃ g ∈ k.positiveGoals, g.predicate.name = name ∧ facts.facts g.predicate = [] := by
  have hpre : a.output.startsWith "No facts" = true :=
    startsWith_trans hname (Report.prefix_noFactsOpening _ (by decide))
  cases h with
  | found s hs hopen _ =>
      have hapart : ∀ s ∈ Report.foundOpenings, Apart s "No facts" := by decide
      exact absurd hpre (not_startsWith hopen (hapart s hs))
  | nothing s hs hopen _ _ =>
      have hapart : ∀ s ∈ Report.nothingOpenings, Apart s "No facts" := by decide
      exact absurd hpre (not_startsWith hopen (hapart s hs))
  | noFacts r g hg hfacts hout _ =>
      rw [hout] at hname
      exact ⟨g, hg, (Report.name_of_noFacts_startsWith hname).symm, hfacts⟩

theorem Opens.noFacts_of_nil (h : a.Opens k facts) (hnone : a.bindings = []) {g : Goal}
    (hg : g ∈ k.positiveGoals) (hfacts : facts.facts g.predicate = []) :
    a.output.startsWith "No facts found for predicate" = true := by
  cases h with
  | found _ _ _ hsome => exact absurd hnone hsome
  | nothing _ _ _ _ hall => exact absurd hfacts (hall g hg)
  | noFacts r g' _ _ hout _ =>
      rw [hout]
      exact startsWith_trans (r.noFacts_startsWith g') (Report.prefix_noFactsOpening _ (by decide))

end Answer

namespace Session

/-- Whatever the facts, the settings and the query, an answer has the bindings that it should have,
and its words say what is true of them. -/
theorem saysVerdict_of_evaluate (s : Session) (q : Query) :
    (s.evaluate q).SaysVerdict q.question s.facts := by
  have hopens := s.opens q
  have hyes : ∀ g, q.question = .negated g →
      ((s.evaluate q).output.startsWith "Yes" = true ↔ (s.evaluate q).bindings = [.empty]) := by
    intro g hq
    rcases opens_negated (s := s) hq with ⟨hsome, hopen⟩ | ⟨hnone, hopen⟩
    · exact iff_of_true (startsWith_trans hopen (by decide)) hsome
    · exact iff_of_false (not_startsWith hopen (by decide)) (by simp [hnone])
  refine ⟨bindings_evaluate, hopens.no_iff, hyes, fun name hname => hopens.of_noFacts hname,
    fun g hg hfacts => ?_⟩
  have hnone : (s.evaluate q).bindings = [] := Question.answers_eq_nil_of_facts hg hfacts
  exact ⟨hnone, hopens.noFacts_of_nil hnone hg hfacts⟩

/-- A session over one frame, which is active and has no parameters. -/
def oneActive : Session where
  facts := ⟨Frame.facts ⟨1, "init_system", none, 1000, 64, .active, []⟩, Frame.wellFormed_facts _⟩

/-- Has no frame failed? -/
def noFailure : Query :=
  ⟨"?- \\+ status(_, error).", .negated ⟨.status, [.anonymous, .const (.atom "error")]⟩⟩

/-- Which frames are active? -/
def activeFrames : Query :=
  ⟨"?- status(X, active).", .simple ⟨.status, [.var "X", .const (.atom "active")]⟩⟩

/-- Which frames have failed? -/
def failedFrames : Query :=
  ⟨"?- status(X, error).", .simple ⟨.status, [.var "X", .const (.atom "error")]⟩⟩

/-- Which frames are active and have a parameter? -/
def activeWithParameter : Query :=
  ⟨"?- status(X, active), param(X, _, _).",
    .compound ⟨[⟨⟨.status, [.var "X", .const (.atom "active")]⟩, false⟩,
      ⟨⟨.param, [.var "X", .anonymous, .anonymous]⟩, false⟩]⟩⟩

theorem saysVerdict_of_evaluate_oneActive :
    ((oneActive.evaluate noFailure).bindings = [.empty] ∧
      (oneActive.evaluate noFailure).output.startsWith "Yes" = true) ∧
    ((oneActive.evaluate activeFrames).bindings = [.ofList [("X", .int 1)]] ∧
      ¬ (oneActive.evaluate activeFrames).output.startsWith "No" = true) ∧
    ((oneActive.evaluate failedFrames).bindings = [] ∧
      (oneActive.evaluate failedFrames).output.startsWith "No" = true ∧
      ∀ name : String, ¬ (oneActive.evaluate failedFrames).output.startsWith
        ("No facts found for predicate '" ++ name ++ "'") = true) ∧
    (oneActive.evaluate activeWithParameter).bindings = [] ∧
      (oneActive.evaluate activeWithParameter).output.startsWith
        "No facts found for predicate" = true := by
  have hyes := saysVerdict_of_evaluate oneActive noFailure
  have hfound := saysVerdict_of_evaluate oneActive activeFrames
  have hno := saysVerdict_of_evaluate oneActive failedFrames
  have hmissing := saysVerdict_of_evaluate oneActive activeWithParameter
  have hempty : (oneActive.evaluate noFailure).bindings = [.empty] :=
    hyes.bindings.trans (by decide +kernel)
  have hone : (oneActive.evaluate activeFrames).bindings = [.ofList [("X", .int 1)]] :=
    hfound.bindings.trans (by decide +kernel)
  have hnone : (oneActive.evaluate failedFrames).bindings = [] :=
    hno.bindings.trans (by decide +kernel)
  refine ⟨⟨hempty, (hyes.yes_iff _ rfl).mpr hempty⟩, ⟨hone, fun h => ?_⟩,
    ⟨hnone, hno.no_iff.mpr hnone, fun name h => ?_⟩, ?_⟩
  · exact absurd (hfound.no_iff.mp h) (by simp [hone])
  · obtain ⟨g, hg, -, hfacts⟩ := hno.of_noFacts name h
    obtain rfl := List.mem_singleton.mp hg
    exact absurd hfacts (by decide)
  · exact hmissing.noFacts ⟨.param, [.var "X", .anonymous, .anonymous]⟩ (by decide) (by decide)

end Session

end FrameLog
