import FrameLog.Proofs.Session.Schema
import FrameLog.Proofs.Session.Unrelated
import FrameLog.Proofs.Trace.Evidence
import FrameLog.Trace.Keystream

/-!
# Diagnosing a generated trace

The frames of a generated trace are one line of calls, and the failure planted in it is what its
diagnostic query shows. No random draw hides it, and no other discovery takes its place.
-/

namespace FrameLog

/-! ## Discoveries -/

section

variable {found : List Binding}

/-- The first rule that applies names the discovery. -/
theorem classify_eq_some (before : List Rule) (rule : Rule) (after : List Rule) {goal : Goal}
    (h : found ≠ []) (happlies : rule.applies ⟨goal, found⟩ = true)
    (hbefore : ∀ r ∈ before, r.applies ⟨goal, found⟩ = false) :
    classify (before ++ rule :: after) goal found = some rule.kind := by
  have hfind : (before ++ rule :: after).find? (·.applies ⟨goal, found⟩) = some rule :=
    List.find?_eq_some_iff_append.mpr
      ⟨happlies, before, after, rfl, fun r hr => by simp [hbefore r hr]⟩
  rw [classify, if_neg (by simpa using h), hfind, Option.map_some]

/-- An atom that the goal names counts as one of the values. -/
theorem hasAtom_of_mem {goal : Goal} {s : String} (h : .const (.atom s) ∈ goal.args) :
    (Observation.mk goal found).hasAtom s = true := by
  refine List.any_eq_true.mpr ⟨.atom s, ?_, beq_self_eq_true _⟩
  exact List.mem_append_right _ (List.mem_filterMap.mpr ⟨_, h, rfl⟩)

variable (t : Thresholds)

theorem classify_failedFrames (h : found ≠ []) :
    classify t.rules failedFrames found = some .error := by
  have happlies : Rule.error.applies ⟨failedFrames, found⟩ = true := by
    rw [Rule.applies, hasAtom_of_mem (by decide)]
    rfl
  exact classify_eq_some [] .error _ h happlies (by simp)

theorem classify_allCalls (h : t.recursion < found.length) :
    classify t.rules allCalls found = some .recursion := by
  have happlies : (Rule.recursion t.recursion).applies ⟨allCalls, found⟩ = true := by
    simpa [Rule.applies, allCalls] using h
  refine classify_eq_some [.error] (.recursion t.recursion) _ ?_ happlies ?_
  · exact List.ne_nil_of_length_pos (by omega)
  · exact List.forall_mem_singleton.mpr rfl

theorem classify_waitingFrames (h : found ≠ [])
    (hnull : ∀ m ∈ found, ∀ v ∈ m.values, v.isNull = false) :
    classify t.rules waitingFrames found = some .deadlock := by
  have happlies : Rule.deadlock.applies ⟨waitingFrames, found⟩ = true := by
    rw [Rule.applies, hasAtom_of_mem (by decide)]
    rfl
  have hvalues : (Observation.mk waitingFrames found).values.any Value.isNull = false := by
    rw [List.any_eq_false]
    intro v hv
    rcases List.mem_append.mp hv with hv | hv
    · obtain ⟨m, hm, hmv⟩ := List.mem_flatMap.mp hv
      simp [hnull m hm v hmv]
    · obtain rfl := List.mem_singleton.mp hv
      decide
  have hnothing : Rule.nullParameter.applies ⟨waitingFrames, found⟩ = false := hvalues
  refine classify_eq_some [.error, .recursion t.recursion, .memoryAnomaly t.memory, .nullParameter]
    .deadlock _ h happlies ?_
  simp only [List.forall_mem_cons]
  exact ⟨rfl, rfl, rfl, hnothing, by simp⟩

end

/-! ## Locks that are waited for -/

theorem Value.isNull_ofUInt64 (n : UInt64) : (ofUInt64 n).isNull = false := by
  unfold ofUInt64
  split <;> rfl

/-- No frame of a deadlock waits for nothing. -/
theorem Scenario.Drafted.isNull_waitingFrames {size : Nat} {before after : List Draft}
    {b : FactBase} (hdrafted : Scenario.deadlock.Drafted size before after)
    (h : FactBase.ofFrames (Draft.link (before ++ Scenario.deadlock.anomaly ++ after)) = .ok b) :
    ∀ m ∈ waitingFrames.answers b, ∀ v ∈ m.values, v.isNull = false := by
  intro m hm v hv
  rw [answers_eq_flatMap_matches h] at hm
  obtain ⟨r, hr, hm⟩ := List.mem_flatMap.mp hm
  obtain ⟨row, hrow, hmatch⟩ := List.mem_filterMap.mp hm
  obtain ⟨e, he, rfl⟩ := List.mem_map.mp hrow
  obtain ⟨d, hd, hplaced⟩ := Draft.exists_placed hr
  rw [hplaced.parameters] at he
  -- the values of a match are among those of the fact
  obtain ⟨x, hx⟩ := Binding.mem_values_iff.mp hv
  have hvalue : v ∈ [Value.ofUInt64 r.id, .atom e.1, e.2] := Fact.get?_match?_mem hmatch hx
  have hname : "waiting_for" = e.1 := by
    have hbound : (Fact.mk .param [.ofUInt64 r.id, .atom e.1, e.2]).match?
        [.var "F", .const (.atom "waiting_for"), .var "L"] = some m := hmatch
    rw [Fact.match?_var_const_var (by decide), Value.atom_agrees_atom] at hbound
    simpa using (Option.ite_none_right_eq_some.mp hbound).1
  have hanomaly : d ∈ Scenario.deadlock.anomaly := hdrafted.mem_anomaly hd fun hordinary =>
    hordinary.ne_of_mem (by decide) e he hname.symm
  have hlocks : ∀ d ∈ Scenario.deadlock.anomaly, ∀ e ∈ d.parameters, e.2.isNull = false := by
    decide
  simp only [List.mem_cons, List.not_mem_nil, or_false] at hvalue
  rcases hvalue with rfl | rfl | rfl
  · exact Value.isNull_ofUInt64 r.id
  · rfl
  · exact hlocks d hanomaly e he

/-! ## Diagnostic queries -/

namespace Session

theorem run_eq_answered {s : Session} {text : String} {k : Question}
    (h : Query.read s.settings.vocabulary text = .ok ⟨text, k⟩) :
    s.run text = .answered (s.evaluate ⟨text, k⟩) := run_eq_answered_iff.mpr ⟨_, h, rfl⟩

theorem discovery_evaluate {s : Session} {text : String} {g : Goal} :
    (s.evaluate ⟨text, .simple g⟩).discovery =
      classify s.settings.thresholds.rules g (g.answers s.facts) := rfl

end Session

/-- What the diagnostic queries say about a trace with a failure, given the number of its frames. -/
def Scenario.Evident (s : Session) (length : Nat) : Scenario → Prop
  | memoryLeak => ∃ a, s.run "?- param(F, buffer_size, 1048576)." = .answered a ∧
      a.bindings.length = 3
  | stackOverflow => ∃ a, s.run "?- calls(A, B)." = .answered a ∧
      a.bindings.length = length - 1 ∧ a.discovery = some .recursion
  | nullPointer => ∃ a, s.run "?- status(X, error)." = .answered a ∧
      a.bindings.length = 1 ∧ a.discovery = some .error
  | deadlock => ∃ a, s.run "?- param(F, waiting_for, L)." = .answered a ∧
      a.bindings.length = 2 ∧ a.discovery = some .deadlock
  | resourceExhaustion =>
      (∃ a, s.run "?- frame(F, load_dataset, _, _)." = .answered a ∧ a.bindings.length = 5) ∧
      (∃ a, s.run "?- frame(F, load_dataset, T, S)." = .answered a ∧ a.bindings.length = 5) ∧
      ∃ a, s.run "?- frame(F, load_dataset, _, _), allocated(F, B)." = .answered a ∧
        a.bindings.length = 5 ∧ ∀ m ∈ a.bindings, m.get? "B" = some (.int 10485760)

section

variable {scenario : Scenario} {size : Nat} {before after : List Draft} {b : FactBase}

theorem isSome_matchFrom?_timeAndStatus (id t s : Value) :
    (matchFrom? (.ofList [("F", id)]) [.var "T", .var "S"] [t, s]).isSome = true := by
  have hfree : ∀ x ∈ ["T", "S"], (Binding.ofList [("F", id)]).get? x = none := by
    simp [Binding.ofList, Binding.get?_insert]
  have hlen : ["T", "S"].length = [t, s].length := rfl
  have hvars := matchFrom?_vars (by decide) hlen hfree
  rw [List.map_cons, List.map_singleton] at hvars
  rw [hvars]
  rfl

/-- The join shows every data set with its ten mebibytes. -/
theorem Scenario.Drafted.answers_dataSets
    (hdrafted : Scenario.resourceExhaustion.Drafted size before after)
    (h : FactBase.ofFrames
      (Draft.link (before ++ Scenario.resourceExhaustion.anomaly ++ after)) = .ok b)
    (hlen : (before ++ Scenario.resourceExhaustion.anomaly ++ after).length < 2 ^ 56)
    (hloading : ((loadingFrames .anonymous .anonymous).answers b).length = 5) :
    (loadingAllocations.answers b).length = 5 ∧
      ∀ m ∈ loadingAllocations.answers b, m.get? "B" = some (.int 10485760) := by
  rw [answers_loadingAllocations h (hdrafted.fits hlen)]
  rw [answers_loadingFrames h, List.length_map] at hloading
  refine ⟨by rw [List.length_map, hloading], fun m hm => ?_⟩
  obtain ⟨r, hr, rfl⟩ := List.mem_map.mp hm
  obtain ⟨hr, hname⟩ := List.mem_filter.mp hr
  obtain ⟨d, hd, hplaced⟩ := Draft.exists_placed hr
  have hsystem : "load_dataset" ∉ systemFunctions.toList := by decide
  rw [hplaced.function, beq_iff_eq] at hname
  have hanomaly : d ∈ Scenario.resourceExhaustion.anomaly :=
    hdrafted.mem_anomaly hd fun hordinary => hsystem (hname ▸ hordinary.function)
  have hbytes : ∀ d ∈ Scenario.resourceExhaustion.anomaly, d.allocated = 10485760 := by decide
  rw [r.get?_allocation.2, hplaced.allocated, hbytes d hanomaly]
  rfl

theorem Scenario.Drafted.evident (hdrafted : scenario.Drafted size before after)
    (h : FactBase.ofFrames (Draft.link (before ++ scenario.anomaly ++ after)) = .ok b)
    (hlen : (before ++ scenario.anomaly ++ after).length < 2 ^ 56) :
    scenario.Evident (Session.fresh b {}) (before ++ scenario.anomaly ++ after).length := by
  -- each query is read by computation, and so is the number of matches in the failure itself
  cases scenario with
  | memoryLeak =>
      exact ⟨_, Session.run_eq_answered (k := .simple bufferFrames) rfl,
        hdrafted.length_answers h bufferFrames_countedBy⟩
  | stackOverflow =>
      have hcount := length_answers_allCalls h
      refine ⟨_, Session.run_eq_answered (k := .simple allCalls) rfl, hcount, ?_⟩
      rw [Session.discovery_evaluate]
      refine classify_allCalls _ ?_
      have hsize := hdrafted.length_eq
      have hanomaly : Scenario.stackOverflow.anomaly.length = 15 := rfl
      change 10 < (allCalls.answers b).length
      omega
  | nullPointer =>
      have hcount : (failedFrames.answers b).length = 1 :=
        hdrafted.length_answers h failedFrames_countedBy
      refine ⟨_, Session.run_eq_answered (k := .simple failedFrames) rfl, hcount, ?_⟩
      exact classify_failedFrames _ (List.ne_nil_of_length_eq_add_one hcount)
  | deadlock =>
      have hcount : (waitingFrames.answers b).length = 2 :=
        hdrafted.length_answers h waitingFrames_countedBy
      refine ⟨_, Session.run_eq_answered (k := .simple waitingFrames) rfl, hcount, ?_⟩
      exact classify_waitingFrames _ (List.ne_nil_of_length_eq_add_one hcount)
        (hdrafted.isNull_waitingFrames h)
  | resourceExhaustion =>
      have hcount : ∀ time status : Term, (∀ id t s : Value,
          (matchFrom? (.ofList [("F", id)]) [time, status] [t, s]).isSome = true) →
          ((loadingFrames time status).answers b).length = 5 := fun _ _ hfree =>
        hdrafted.length_answers h (loadingFrames_countedBy hfree)
      have hloading := hcount .anonymous .anonymous fun _ _ _ => rfl
      have hnamed := hcount (.var "T") (.var "S") isSome_matchFrom?_timeAndStatus
      refine ⟨⟨_, Session.run_eq_answered (k := .simple (loadingFrames _ _)) rfl, hloading⟩,
        ⟨_, Session.run_eq_answered (k := .simple (loadingFrames _ _)) rfl, hnamed⟩,
        _, Session.run_eq_answered (k := .compound loadingAllocations) rfl, ?_⟩
      exact hdrafted.answers_dataSets h hlen hloading

end

/-! ## Whole traces -/

namespace Scenario

variable {σ : Type} [RandomSource σ]

/-- Whatever the scenario, the size and the supply of random numbers, a trace that is not too long
is accepted. Its frames call one another in the order of their identifiers, and the diagnostic query
shows the failure. -/
theorem diagnosis_of_trace (scenario : Scenario) (size : Nat) (supply : σ)
    (hlen : ((scenario.trace size).run supply).1.length < 2 ^ 56) :
    let frames := ((scenario.trace size).run supply).1
    ∃ b, FactBase.ofFrames frames = .ok b ∧
      (∀ settings i, 1 ≤ i → i ≤ frames.length →
        ((Session.fresh b settings).chain (UInt64.ofNat i) .callees).1 =
          FrameId.interval (i + 1) frames.length ∧
        ((Session.fresh b settings).chain (UInt64.ofNat i) .callers).1 =
          (FrameId.interval 1 (i - 1)).reverse) ∧
      (∀ settings i j, 1 ≤ i → i ≤ frames.length → 1 ≤ j → j ≤ frames.length →
        (Session.fresh b settings).path? (UInt64.ofNat i) (UInt64.ofNat j) =
          if i ≤ j then some (FrameId.interval i j) else none) ∧
      scenario.Evident (Session.fresh b {}) frames.length := by
  intro frames
  obtain ⟨before, after, hdrafted, htrace⟩ := scenario.yields_trace size supply
  have hframes : frames = Draft.link (before ++ scenario.anomaly ++ after) := htrace
  have hlength : frames.length = (before ++ scenario.anomaly ++ after).length := by
    rw [hframes, Draft.length_link]
  have hlimit : (before ++ scenario.anomaly ++ after).length < 2 ^ 56 := hlength ▸ hlen
  obtain ⟨b, hb⟩ := FactBase.exists_ofFrames_link (Nat.lt_trans hlimit (by decide))
  have hgraph : b.callGraph = .line frames.length := by
    rw [hlength]
    exact FactBase.callGraph_of_link hb (Nat.lt_trans hlimit (by decide))
  have hword : frames.length < 2 ^ 64 := Nat.lt_trans hlen (by decide)
  refine ⟨b, hframes ▸ hb, fun settings i hi hle => ?_, fun settings i j hi hile hj hjle => ?_, ?_⟩
  · have hchain (d : Direction) : ((Session.fresh b settings).chain (UInt64.ofNat i) d).1 =
        (CallGraph.line frames.length).chain (UInt64.ofNat i) d :=
      hgraph ▸ Session.chain_after b settings [] (UInt64.ofNat i) d
    rw [hchain, hchain]
    exact CallGraph.chain_line hword ⟨hi, hle⟩
  · rw [Session.path?]
    change b.callGraph.path? _ _ = _
    rw [hgraph]
    exact CallGraph.path?_line hword ⟨hi, hile⟩ ⟨hj, hjle⟩
  · rw [hlength]
    exact hdrafted.evident hb hlimit

theorem diagnosis_of_trace_deadlock :
    let frames := ((deadlock.trace 4).run (Keystream.ofSeed 7)).1
    frames.length < 2 ^ 56 ∧ ∃ b, FactBase.ofFrames frames = .ok b ∧
      ((Session.fresh b {}).chain 2 .callees).1 = [3, 4] ∧
      ((Session.fresh b {}).chain 3 .callers).1 = [2, 1] ∧
      (Session.fresh b {}).path? 1 4 = some [1, 2, 3, 4] ∧
      (Session.fresh b {}).path? 4 1 = none ∧
      ∃ a, (Session.fresh b {}).run "?- param(F, waiting_for, L)." = .answered a ∧
        a.bindings.length = 2 ∧ a.discovery = some .deadlock := by
  intro frames
  have hlength : frames.length = 4 := length_trace deadlock 4 (Keystream.ofSeed 7)
  have hlen : frames.length < 2 ^ 56 := by
    rw [hlength]
    decide
  obtain ⟨b, hb, hchain, hpath, hevident⟩ :=
    diagnosis_of_trace deadlock 4 (Keystream.ofSeed 7) hlen
  have hle : ∀ n, n ≤ 4 → n ≤ frames.length := fun n hn => hlength ▸ hn
  obtain ⟨hcallees, -⟩ := hchain {} 2 (by decide) (hle 2 (by decide))
  obtain ⟨-, hcallers⟩ := hchain {} 3 (by decide) (hle 3 (by decide))
  have hforth := hpath {} 1 4 (by decide) (hle 1 (by decide)) (by decide) (hle 4 (by decide))
  have hback := hpath {} 4 1 (by decide) (hle 4 (by decide)) (by decide) (hle 1 (by decide))
  refine ⟨hlen, b, hb, hcallees.trans ?_, hcallers, hforth, hback, hevident⟩
  exact congrArg (FrameId.interval 3) hlength

end Scenario

end FrameLog
