import FrameLog.Proofs.FactBase
import FrameLog.Proofs.Join.Relevant
import FrameLog.Proofs.Session
import Mathlib.Data.List.Find

/-!
# Facts that do not concern a question

Words and counts included, an answer comes from the facts of the predicates that its question uses.
Everything about the call graph comes from the `calls` facts. What a session was asked before plays
no part.
-/

namespace FrameLog

/-! ## Wording -/

namespace Report

variable {b b' : FactBase}

theorem nothing_congr (r : Report) {goal : Goal}
    (h : b.hasFacts goal.predicate = b'.hasFacts goal.predicate) :
    r.nothing goal b = r.nothing goal b' := by
  rw [nothing, nothing, h]

theorem simple_congr (r : Report) {goal : Goal}
    (h : b.hasFacts goal.predicate = b'.hasFacts goal.predicate) (bindings : List Binding)
    (discovery : Option Discovery) :
    r.simple goal bindings b discovery = r.simple goal bindings b' discovery := by
  simp only [simple, nothing_congr r h]

theorem negated_congr {goal : Goal}
    (h : b.hasFacts goal.predicate = b'.hasFacts goal.predicate) (succeeded : Bool) :
    negated goal succeeded b = negated goal succeeded b' := by
  rw [negated, negated, h]

theorem compound_congr (r : Report) {conjunction : Conjunction}
    (h : ∀ d ∈ conjunction.conditions, b.hasFacts d.goal.predicate = b'.hasFacts d.goal.predicate)
    (bindings : List Binding) :
    r.compound conjunction bindings b = r.compound conjunction bindings b' := by
  have hmissing : (conjunction.conditions.find? fun c =>
        !c.negated && !b.hasFacts c.goal.predicate) =
      conjunction.conditions.find? fun c => !c.negated && !b'.hasFacts c.goal.predicate :=
    List.find?_congr fun d hd => by rw [h d hd]
  simp only [compound, hmissing]

end Report

namespace Session

/-! ## Evaluation -/

section

variable {b b' : FactBase}

theorem evaluate_congr {q : Query} (h : ∀ p ∈ q.question.predicates, b.facts p = b'.facts p)
    (settings : Settings) : (fresh b settings).evaluate q = (fresh b' settings).evaluate q := by
  have hanswers : q.question.answers b = q.question.answers b' := Question.answers_congr h
  have hsome : ∀ p ∈ q.question.predicates, b.hasFacts p = b'.hasFacts p := fun p hp => by
    rw [FactBase.hasFacts, FactBase.hasFacts, h p hp]
  have hscanned : q.question.predicates.foldl (fun n p => n + (b.facts p).length) 0 =
      q.question.predicates.foldl (fun n p => n + (b'.facts p).length) 0 :=
    List.foldl_ext _ _ _ fun n p hp => by rw [h p hp]
  simp only [evaluate, fresh, hanswers, hscanned]
  -- only the text is left
  cases hq : q.question with
  | simple goal =>
      rw [hq] at hsome
      simp only [Report.simple_congr _ (hsome goal.predicate List.mem_cons_self)]
  | negated goal =>
      rw [hq] at hsome
      simp only [Report.negated_congr (hsome goal.predicate List.mem_cons_self)]
  | compound conjunction =>
      rw [hq] at hsome
      simp only [Report.compound_congr _ fun d hd => hsome _ (List.mem_map_of_mem hd)]

end

/-! ## Sessions with a past -/

/-- The session that has carried out the operations. -/
def after (s : Session) (ops : List Operation) : Session := (s.performAll ops).2

section

variable (facts : FactBase) (settings : Settings) (before : List Operation)

/-- But for the counters, a session replies as if it had been asked nothing before. -/
theorem reply_after (op : Operation) (hop : op ≠ .counters) :
    (((fresh facts settings).after before).perform op).1 =
      (perform (fresh facts { settings with rememberChains := false }) op).1 := by
  cases hremember : settings.rememberChains with
  | true =>
      have hsettings : settings = { settings with rememberChains := true } := by
        rw [← hremember]
      obtain ⟨cache, hreached, hrem, -⟩ :=
        performAll_remembering settings (ChainCache.remembers_empty facts) before
      obtain ⟨-, -, -, hreply⟩ := perform_remembering settings hrem op
      rw [← hsettings] at hreached hreply
      rw [after, fresh, hreached]
      exact hreply hop
  | false =>
      have hsettings : settings = { settings with rememberChains := false } := by
        rw [← hremember]
      have hreached := performAll_plain facts settings before
      rw [← hsettings] at hreached ⊢
      rw [after, hreached]

theorem evaluate_after (q : Query) :
    ((fresh facts settings).after before).evaluate q =
      (fresh facts { settings with rememberChains := false }).evaluate q :=
  Reply.answer.inj (reply_after facts settings before (.evaluate q) (by simp))

theorem chain_after (frame : FrameId) (d : Direction) :
    (((fresh facts settings).after before).chain frame d).1 = facts.callGraph.chain frame d := by
  have hreply := reply_after facts settings before (.chain frame d) (by simp)
  simpa [perform, fresh, chain_plain] using hreply

theorem path?_after (source target : FrameId) :
    ((fresh facts settings).after before).path? source target =
      facts.callGraph.path? source target :=
  Reply.path.inj (reply_after facts settings before (.path source target) (by simp))

theorem relationship_after (frame : FrameId) :
    (((fresh facts settings).after before).relationship frame).1 =
      { frame := frame
        directCaller := facts.callGraph.directCaller? frame
        directCallees := facts.callGraph.callees frame
        callerChain := facts.callGraph.chain frame .callers
        calleeChain := facts.callGraph.chain frame .callees } := by
  have hreply := reply_after facts settings before (.relationship frame) (by simp)
  simpa [perform, fresh, relationship_plain] using hreply

end

/-! ## One fact more -/

/-- A new fact changes no answer, in bindings, words or counts, to a question that does not use its
predicate; and unless it is a `calls` fact, it changes nothing about the call graph. The sessions
before and after the fact have the same settings and may each have been asked anything. -/
theorem answers_of_insert_unrelated {b b' : FactBase} {f : Fact} (h : b.insert f = .ok b')
    (settings : Settings) (before before' : List Operation) :
    let s := (fresh b settings).after before
    let s' := (fresh b' settings).after before'
    (∀ q : Query, f.predicate ∉ q.question.predicates → s.evaluate q = s'.evaluate q) ∧
    (f.predicate ≠ .calls →
      (∀ frame d, (s.chain frame d).1 = (s'.chain frame d).1) ∧
      (∀ source target, s.path? source target = s'.path? source target) ∧
      ∀ frame, (s.relationship frame).1 = (s'.relationship frame).1) := by
  intro s s'
  refine ⟨fun q hq => ?_, fun hcalls => ?_⟩
  · have hsame : ∀ p ∈ q.question.predicates, b.facts p = b'.facts p := fun p hp =>
      (FactBase.facts_insert_of_ne h fun hpf => hq (hpf ▸ hp)).symm
    simp only [s, s', evaluate_after, evaluate_congr hsame]
  · have hgraph : b.callGraph = b'.callGraph := by
      rw [FactBase.callGraph, FactBase.callGraph, FactBase.facts_insert_of_ne h hcalls.symm]
    simp only [s, s', chain_after, path?_after, relationship_after, hgraph, implies_true, and_self]

/-- Frame 3 failed. -/
def lateFailure : Fact := ⟨.status, [.int 3, .atom "error"]⟩

/-- The two calls of `twoCalls`, and the failure after them. -/
def twoCallsAndFailure : FactBase where
  toList := twoCalls.toList ++ [lateFailure]
  wellFormed := by decide

/-- Which frame called frame 3? -/
def callerOfThree : Query := ⟨"calls(X, 3)", .simple ⟨.calls, [.var "X", .const (.int 3)]⟩⟩

theorem answers_of_insert_unrelated_lateFailure :
    let s := (fresh twoCalls {}).after []
    let s' := (fresh twoCallsAndFailure {}).after repeatedLookups
    twoCalls.insert lateFailure = .ok twoCallsAndFailure ∧
    lateFailure.predicate ∉ callerOfThree.question.predicates ∧
    s.evaluate callerOfThree = s'.evaluate callerOfThree ∧
    (s.evaluate callerOfThree).bindings = [.ofList [("X", .int 2)]] ∧
    lateFailure.predicate ≠ .calls ∧
    (s.chain 1 .callees).1 = (s'.chain 1 .callees).1 ∧
    s.path? 1 3 = s'.path? 1 3 ∧ s.path? 1 3 = some [1, 2, 3] ∧
    (s.relationship 2).1 = (s'.relationship 2).1 := by
  intro s s'
  have hinsert : twoCalls.insert lateFailure = .ok twoCallsAndFailure := rfl
  have hquery : lateFailure.predicate ∉ callerOfThree.question.predicates := by decide
  have hcalls : lateFailure.predicate ≠ .calls := by decide
  obtain ⟨hevaluate, hgraph⟩ := answers_of_insert_unrelated hinsert {} [] repeatedLookups
  obtain ⟨hchain, hpath, hrelationship⟩ := hgraph hcalls
  exact ⟨hinsert, hquery, hevaluate _ hquery, by decide, hcalls, hchain 1 .callees, hpath 1 3,
    by decide +kernel, hrelationship 2⟩

end Session

end FrameLog
