import FrameLog.Proofs.FactBase
import FrameLog.Proofs.Join.Plain
import FrameLog.Proofs.Join.Relevant

/-!
# What a new fact does to an answer

A new fact can add to what a positive condition finds, and can only take away from what a negated one
lets pass. As long as its predicate stands on one side, its effect on an answer is one-sided too.
-/

namespace FrameLog

section

variable {b b' : FactBase}

/-! ## Joins over two fact bases -/

theorem Condition.extend_subset {c : Condition} {answers answers' : List Binding}
    (hb' : b'.FloatFree) (hfree : ∀ m ∈ answers', m.FloatFree)
    (hc : ∀ m, c.extensions b m ⊆ c.extensions b' m) (hanswers : answers ⊆ answers') :
    c.extend b answers ⊆ c.extend b' answers' := by
  intro e he
  obtain ⟨m, hm, hem⟩ := exists_of_mem_extend he
  rw [c.mem_extend_iff hb' hfree]
  exact ⟨m, hanswers hm, hc m hem⟩

theorem foldl_extend_subset {ds : List Condition} {answers answers' : List Binding}
    (hb' : b'.FloatFree) (hfree : ∀ m ∈ answers', m.FloatFree)
    (hds : ∀ d ∈ ds, ∀ m, d.extensions b m ⊆ d.extensions b' m) (hanswers : answers ⊆ answers') :
    ds.foldl (fun answers d => d.extend b answers) answers ⊆
      ds.foldl (fun answers d => d.extend b' answers) answers' := by
  induction ds generalizing answers answers' with
  | nil => exact hanswers
  | cons d ds ih =>
      obtain ⟨hd, hds⟩ := List.forall_mem_cons.mp hds
      exact ih (d.floatFree_extend hb' hfree) hds (Condition.extend_subset hb' hfree hd hanswers)

/-- A conjunction each of whose conditions makes no less of an answer has no fewer answers. -/
theorem Conjunction.answers_subset {c : Conjunction} (hb' : b'.FloatFree)
    (h : ∀ d ∈ c.conditions, ∀ m, d.extensions b m ⊆ d.extensions b' m) :
    c.answers b ⊆ c.answers b' := by
  unfold answers
  match hc : c.conditions with
  | [] => exact List.Subset.refl []
  | first :: rest =>
      rw [hc, List.forall_mem_cons] at h
      obtain ⟨hfirst, hrest⟩ := h
      have hstart : first.answers b ⊆ first.answers b' := by
        rw [first.answers_eq_extensions, first.answers_eq_extensions]
        exact hfirst .empty
      exact foldl_extend_subset hb' (first.floatFree_answers hb') hrest hstart

/-! ## Conditions and a new fact -/

variable {f : Fact} {g : Goal} {c : Condition}

theorem Goal.answers_prefix_insert (h : b.insert f = .ok b') : g.answers b <+: g.answers b' :=
  (FactBase.facts_prefix_insert h g.predicate).filterMap _

theorem Goal.answers_eq_nil_of_insert (h : b.insert f = .ok b') (hg : g.answers b' = []) :
    g.answers b = [] := by
  have hpre := answers_prefix_insert (g := g) h
  rw [hg] at hpre
  exact List.prefix_nil.mp hpre

theorem Condition.extensions_subset_insert (h : b.insert f = .ok b')
    (hc : c.negated = true → c.goal.predicate ≠ f.predicate) (m : Binding) :
    c.extensions b m ⊆ c.extensions b' m := by
  cases hneg : c.negated with
  | true =>
      rw [extensions_congr (FactBase.facts_insert_of_ne h (hc hneg))]
      exact List.Subset.refl _
  | false =>
      intro e he
      obtain ⟨f', hf', hmatch⟩ := (mem_extensions_positive hneg).mp he
      have hmem := (FactBase.facts_prefix_insert h c.goal.predicate).subset hf'
      exact (mem_extensions_positive hneg).mpr ⟨f', hmem, hmatch⟩

theorem Condition.extensions_insert_subset (h : b.insert f = .ok b')
    (hc : c.negated = false → c.goal.predicate ≠ f.predicate) (m : Binding) :
    c.extensions b' m ⊆ c.extensions b m := by
  cases hneg : c.negated with
  | true =>
      intro e he
      obtain ⟨rfl, hfails⟩ := (mem_extensions_negated hneg).mp he
      exact (mem_extensions_negated hneg).mpr ⟨rfl, Goal.answers_eq_nil_of_insert h hfails⟩
  | false =>
      rw [extensions_congr (FactBase.facts_insert_of_ne h (hc hneg))]
      exact List.Subset.refl _

/-! ## Fact bases without floats -/

theorem FactBase.floatFree_insert (h : b.insert f = .ok b') (hb : b.FloatFree)
    (hf : ∀ v ∈ f.values, v.isFloat = false) : b'.FloatFree := by
  intro e he
  rw [toList_insert h] at he
  rcases List.mem_append.mp he with he | he
  · exact hb e he
  · rw [List.mem_singleton.mp he]
    exact hf

end

/-- A new fact leaves the bindings of a goal in front of those that it adds, and lets no negated goal
succeed that failed. A conjunction keeps its bindings if the predicate of the fact stands in no
negated condition, and gains none if it stands in no positive one. The constants of the question may
be floats. -/
theorem FactBase.answers_of_insert {b b' : FactBase} {f : Fact} (h : b.insert f = .ok b')
    (hb : b.FloatFree) (hf : ∀ v ∈ f.values, v.isFloat = false) :
    (∀ g : Goal, (Question.simple g).answers b <+: (Question.simple g).answers b') ∧
    (∀ g : Goal, (Question.negated g).answers b' ≠ [] → (Question.negated g).answers b ≠ []) ∧
    ∀ c : Conjunction,
      ((∀ d ∈ c.conditions, d.negated = true → d.goal.predicate ≠ f.predicate) →
        ∀ m ∈ (Question.compound c).answers b, m ∈ (Question.compound c).answers b') ∧
      ((∀ d ∈ c.conditions, d.negated = false → d.goal.predicate ≠ f.predicate) →
        ∀ m ∈ (Question.compound c).answers b', m ∈ (Question.compound c).answers b) := by
  refine ⟨fun g => Goal.answers_prefix_insert h, fun g hg => ?_, fun c => ⟨fun hc => ?_, fun hc => ?_⟩⟩
  · simp only [Question.answers, Goal.negatedAnswers, Goal.fails, List.isEmpty_iff] at hg ⊢
    by_cases hnil : g.answers b' = []
    · simp [Goal.answers_eq_nil_of_insert h hnil]
    · simp [hnil] at hg
  · exact Conjunction.answers_subset (floatFree_insert h hb hf) fun d hd =>
      Condition.extensions_subset_insert h (hc d hd)
  · exact Conjunction.answers_subset hb fun d hd => Condition.extensions_insert_subset h (hc d hd)

/-- Frame 3 called frame 4. -/
def lateCall : Fact := ⟨.calls, [.int 3, .int 4]⟩

/-- The trace after that call. -/
def busierTrace : FactBase where
  toList := busyTrace.toList ++ [lateCall]
  wellFormed := by decide

/-- Which frames did another one call, and what are their statuses? -/
def calleeStatus : Conjunction where
  conditions := [⟨⟨.calls, [.anonymous, .var "Y"]⟩, false⟩, ⟨⟨.status, [.var "Y", .var "S"]⟩, false⟩]

/-- Which frames called nothing, and what are their statuses? -/
def leafStatus : Conjunction where
  conditions := [⟨⟨.status, [.var "X", .var "S"]⟩, false⟩, ⟨⟨.calls, [.var "X", .anonymous]⟩, true⟩]

theorem answers_of_insert_lateCall :
    busyTrace.insert lateCall = .ok busierTrace ∧ busyTrace.FloatFree ∧
    (∀ v ∈ lateCall.values, v.isFloat = false) ∧
    (Question.simple ⟨.calls, [.var "X", .var "Y"]⟩).answers busyTrace <+:
      (Question.simple ⟨.calls, [.var "X", .var "Y"]⟩).answers busierTrace ∧
    (Question.negated ⟨.calls, [.const (.int 2), .anonymous]⟩).answers busierTrace ≠ [] ∧
    (Question.negated ⟨.calls, [.const (.int 2), .anonymous]⟩).answers busyTrace ≠ [] ∧
    (∀ d ∈ calleeStatus.conditions, d.negated = true → d.goal.predicate ≠ lateCall.predicate) ∧
    .ofList [("Y", .int 3), ("S", .atom "error")] ∈ (Question.compound calleeStatus).answers busyTrace ∧
    .ofList [("Y", .int 3), ("S", .atom "error")] ∈
      (Question.compound calleeStatus).answers busierTrace ∧
    (∀ d ∈ leafStatus.conditions, d.negated = false → d.goal.predicate ≠ lateCall.predicate) ∧
    .ofList [("X", .int 2), ("S", .atom "active")] ∈
      (Question.compound leafStatus).answers busierTrace ∧
    .ofList [("X", .int 2), ("S", .atom "active")] ∈
      (Question.compound leafStatus).answers busyTrace := by
  have hinsert : busyTrace.insert lateCall = .ok busierTrace := rfl
  have hfree : busyTrace.FloatFree := by decide
  have hfact : ∀ v ∈ lateCall.values, v.isFloat = false := by decide
  obtain ⟨hsimple, hnegated, hcompound⟩ := FactBase.answers_of_insert hinsert hfree hfact
  have hfails : (Question.negated ⟨.calls, [.const (.int 2), .anonymous]⟩).answers busierTrace ≠ [] := by
    decide
  have hpositive : ∀ d ∈ calleeStatus.conditions, d.negated = true →
      d.goal.predicate ≠ lateCall.predicate := by decide
  have hkept : .ofList [("Y", .int 3), ("S", .atom "error")] ∈
      (Question.compound calleeStatus).answers busyTrace := by decide
  have hleaves : ∀ d ∈ leafStatus.conditions, d.negated = false →
      d.goal.predicate ≠ lateCall.predicate := by decide
  have hleft : .ofList [("X", .int 2), ("S", .atom "active")] ∈
      (Question.compound leafStatus).answers busierTrace := by decide
  exact ⟨hinsert, hfree, hfact, hsimple _, hfails, hnegated _ hfails, hpositive, hkept,
    (hcompound calleeStatus).1 hpositive _ hkept, hleaves, hleft,
    (hcompound leafStatus).2 hleaves _ hleft⟩

end FrameLog
