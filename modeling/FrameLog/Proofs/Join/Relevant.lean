import FrameLog.Proofs.Join.Extension

/-!
# The facts that matter to an answer

A goal looks at the facts of its own predicate only. A question is therefore answered from the facts
of the predicates that it uses, whatever else is known.
-/

namespace FrameLog

section

variable {b b' : FactBase}

theorem Goal.answers_congr {g : Goal} (h : b.facts g.predicate = b'.facts g.predicate) :
    g.answers b = g.answers b' := by
  rw [answers, answers, h]

theorem Goal.fails_congr {g : Goal} (h : b.facts g.predicate = b'.facts g.predicate) :
    g.fails b = g.fails b' := by
  rw [fails, fails, answers_congr h]

theorem Condition.extensions_congr {c : Condition}
    (h : b.facts c.goal.predicate = b'.facts c.goal.predicate) :
    c.extensions b = c.extensions b' := by
  funext m
  simp only [extensions]
  -- substitution leaves the predicate of the goal as it is
  rw [Goal.fails_congr (g := c.goal.substitute m) h,
    Goal.answers_congr (g := c.goal.substitute m) h]

theorem Condition.extend_congr {c : Condition}
    (h : b.facts c.goal.predicate = b'.facts c.goal.predicate) : c.extend b = c.extend b' := by
  funext answers
  rw [extend_eq, extend_eq, extensions_congr h]

theorem Conjunction.answers_congr {c : Conjunction}
    (h : ∀ d ∈ c.conditions, b.facts d.goal.predicate = b'.facts d.goal.predicate) :
    c.answers b = c.answers b' := by
  unfold answers
  match hc : c.conditions with
  | [] => rfl
  | first :: rest =>
      rw [hc, List.forall_mem_cons] at h
      obtain ⟨hfirst, hrest⟩ := h
      have hstart : first.answers b = first.answers b' := by
        rw [first.answers_eq_extensions, first.answers_eq_extensions,
          Condition.extensions_congr hfirst]
      simp only [hstart]
      refine List.foldl_ext _ _ _ fun answers d hd => ?_
      rw [Condition.extend_congr (hrest d hd)]

/-- Two fact bases with the same facts of the predicates of a question answer it alike. -/
theorem Question.answers_congr {q : Question} (h : ∀ p ∈ q.predicates, b.facts p = b'.facts p) :
    q.answers b = q.answers b' := by
  cases q with
  | simple g => exact Goal.answers_congr (h g.predicate List.mem_cons_self)
  | negated g =>
      simp only [answers, Goal.negatedAnswers]
      rw [Goal.fails_congr (h g.predicate List.mem_cons_self)]
  | compound c => exact Conjunction.answers_congr fun d hd => h _ (List.mem_map_of_mem hd)

end

/-- The facts of one predicate by themselves. -/
def FactBase.only (b : FactBase) (p : Predicate) : FactBase where
  toList := b.facts p
  wellFormed f hf := b.wellFormed f (List.mem_filter.mp hf).1

theorem FactBase.facts_only (b : FactBase) (p : Predicate) : (b.only p).facts p = b.facts p := by
  simp [facts, only]

end FrameLog
