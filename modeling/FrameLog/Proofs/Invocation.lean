import FrameLog.Invocation
import FrameLog.Proofs.CallGraph.Line
import FrameLog.Proofs.Console.Replies
import FrameLog.Proofs.Text.Lines

/-!
# Runs of the program

A run without a query opens with a summary that the trace alone decides, and goes on line by line. The
reply to a line is what a console that has not been asked anything says to it.
-/

namespace FrameLog

open Text

/-! ## Summaries -/

/-- The summary of a trace, told by its frames: it counts the frames, shows the first five of them,
and counts the facts that they leave. Every frame but the first is called once. -/
def Scenario.overview (scenario : Scenario) (frames : List Frame) : String :=
  let count := toString frames.length
  let calls := toString (frames.length - 1)
  let parameters := toString (frames.flatMap (·.parameters)).length
  let shown := (frames.take 5).map fun r =>
    "  Frame " ++ toString r.id.toNat ++ ": " ++ r.function ++ " [" ++ r.status.name ++ "] - " ++
      toString r.allocated.toNat ++ " bytes"
  let hidden :=
    if 5 < frames.length then ["  ... and " ++ toString (frames.length - 5) ++ " more frames"]
    else []
  "\n".intercalate
    (["STACK TRACE SUMMARY",
      "==================================================",
      "Total frames: " ++ count,
      "Scenario type: " ++ scenario.name,
      "",
      "Frame overview:"] ++ shown ++ hidden ++
     ["",
      "Facts: " ++ ", ".intercalate
        ["allocated/2: " ++ count, "calls/2: " ++ calls, "frame/4: " ++ count,
          "param/3: " ++ parameters, "status/2: " ++ count],
      "Use queries to investigate the details. Type :help for commands."])

/-- The summary of a generated trace is told by its frames. -/
theorem Console.summary_eq_overview {drafts : List Draft} {facts : FactBase}
    (h : FactBase.ofFrames (Draft.link drafts) = .ok facts) (settings : Settings)
    (scenario : Scenario) :
    (opened facts settings (Draft.link drafts)).summary scenario.name =
      scenario.overview (Draft.link drafts) := by
  have hcounts : facts.summary =
      [(.allocated, (Draft.link drafts).length), (.calls, (Draft.link drafts).length - 1),
        (.frame, (Draft.link drafts).length),
        (.param, ((Draft.link drafts).flatMap (·.parameters)).length),
        (.status, (Draft.link drafts).length)] := by
    have honce : ∀ p, (∀ r : Frame, (r.rows p).length = 1) →
        (facts.facts p).length = (Draft.link drafts).length := fun p =>
      FactBase.length_facts_of_length_rows h
    have hcalls := FactBase.length_facts_calls h
    rw [← Draft.length_link] at hcalls
    rw [← hcalls, ← FactBase.length_facts_param h]
    simp [FactBase.summary, Named.all, honce .allocated fun _ => rfl, honce .frame fun _ => rfl,
      honce .status fun _ => rfl]
  have hrule : String.ofList (List.replicate 50 '=') =
      "==================================================" := by decide
  rw [summary, Scenario.overview, ← hrule]
  simp only [opened, Session.fresh, hcounts, List.map_cons, List.map_nil]
  rfl

/-! ## Transcripts -/

variable {σ : Type} [SeededSource σ]

theorem Options.exists_trace_eq (options : Options) (entropy : σ) :
    ∃ drafts, options.trace entropy = Draft.link drafts ∧ drafts.length < 2 ^ 64 := by
  have hscenario : (Generator.ofSeed options.chosenScenario options.seed entropy).scenario =
      options.chosenScenario := by
    unfold Generator.ofSeed
    split <;> rfl
  obtain ⟨before, after, hdrafted, htrace, -⟩ :=
    (Generator.ofSeed options.chosenScenario options.seed entropy).exists_generate_eq
      (options.frames.getD 10).toNat
  refine ⟨_, htrace, ?_⟩
  have hsize := (options.frames.getD 10).toNat_lt
  have hanomaly := (Generator.ofSeed options.chosenScenario options.seed entropy).scenario
    |>.length_anomaly_le
  rw [hdrafted.length_eq]
  omega

namespace Invocation

/-- Whatever the options, the random numbers and the input, a run without a query is accepted: it
opens with the summary of its trace, and writes the transcript of the lines. The reply to a line is
that of a console over the trace that has not been asked anything. -/
theorem outcome_eq_transcript {options : Options} (hquery : options.query = none) (entropy : σ)
    (input : String) :
    let frames := options.trace entropy
    ∃ facts, FactBase.ofFrames frames = .ok facts ∧
      ∃ reply : List Char → String,
        (∀ line text, Console.Replies facts { color := !options.noColor } frames line text ↔
          text = reply line) ∧
        (run options).outcomeFrom entropy input.toUTF8.data.toList =
          ⟨options.chosenScenario.overview frames ++ "\n\n" ++
            Console.transcript reply (lines input.toList), 0⟩ := by
  intro frames
  obtain ⟨drafts, hframes, hlen⟩ := options.exists_trace_eq entropy
  obtain ⟨facts, hfacts⟩ := FactBase.exists_ofFrames_link hlen
  rw [← hframes] at hfacts
  let console := Console.opened facts { color := !options.noColor } frames
  refine ⟨facts, hfacts, fun line => (console.reply line).1, fun _ _ => Console.replies_iff, ?_⟩
  have hconsole : options.console? frames = .ok console := by
    rw [Options.console?, hfacts]
    rfl
  have hsummary : console.summary options.chosenScenario.name =
      options.chosenScenario.overview frames := by
    simp only [console, frames, hframes] at hfacts ⊢
    exact Console.summary_eq_overview hfacts _ _
  have hstart : (run options).start entropy =
      .dialogue (options.chosenScenario.overview frames ++ "\n\n") console := by
    simp only [start, frames, hconsole, hquery, hsummary]
  have hconverse : console.converse ((lines input.toList).map fun line => some (String.ofList line)) =
      ⟨Console.transcript (fun line => (console.reply line).1) (lines input.toList), 0⟩ :=
    Console.converse_after facts { color := !options.noColor } frames [] _
  simp only [outcomeFrom, hstart, inputLines_toUTF8, hconverse]

/-- Two frames that wait for each other. No random number is drawn for them. -/
def twoWaiting : Options := { scenario := some .deadlock, frames := some 0, noColor := true }

/-- The trace of these options. -/
def waitingFrames : List Frame :=
  [⟨1, "acquire_lock", none, 1000, 1024, .active,
      [("lock_id", .atom "lock_a"), ("waiting_for", .atom "lock_b")]⟩,
    ⟨2, "acquire_lock", some 1, 1010, 1024, .active,
      [("lock_id", .atom "lock_b"), ("waiting_for", .atom "lock_a")]⟩]

/-- The facts of the trace. -/
def waitingFacts : FactBase := ⟨waitingFrames.flatMap Frame.facts, by decide⟩

/-- What is said of this trace at first. -/
def waitingOverview : String :=
  "\n".intercalate
    ["STACK TRACE SUMMARY", "==================================================",
      "Total frames: 2", "Scenario type: deadlock", "", "Frame overview:",
      "  Frame 1: acquire_lock [active] - 1024 bytes",
      "  Frame 2: acquire_lock [active] - 1024 bytes", "",
      "Facts: allocated/2: 2, calls/2: 1, frame/4: 2, param/3: 4, status/2: 2",
      "Use queries to investigate the details. Type :help for commands."]

/-- What is said of the second frame. -/
def waitingInfo : String :=
  "\n".intercalate
    ["Relationship information for frame 2:", "", "  Direct caller: frame 1",
      "  Direct callees: none (leaf frame)", "", "  Complete caller chain: 1 -> 2",
      "  Complete callee chain: (this is a leaf frame)"]

/-- What is said of a line that is neither a command nor a query. -/
def noPrefix : String :=
  "\n".intercalate
    ["Error: Missing query prefix '?-'.",
      "Hint: All queries must start with '?-'. Try: ?- predicate(arguments)."]

theorem outcome_eq_transcript_twoWaiting :
    twoWaiting.query = none ∧
    (run twoWaiting).outcome 7 " :info 2\n\n:path 2 x\nstatus\n:q\n:help".toUTF8.data.toList =
      ⟨waitingOverview ++ "\n\n" ++
        (String.join
          ["| " ++ waitingInfo ++ "\n\n", "| ",
            "| " ++ "Error: 'x' is not a frame id" ++ "\n\n", "| " ++ noPrefix ++ "\n\n"] ++
          "| "), 0⟩ := by
  have hquery : twoWaiting.query = none := rfl
  obtain ⟨facts, hfacts, reply, hreply, houtcome⟩ := outcome_eq_transcript hquery (Keystream.ofSeed 7)
    " :info 2\n\n:path 2 x\nstatus\n:q\n:help"
  have hframes : twoWaiting.trace (Keystream.ofSeed 7) = waitingFrames := rfl
  rw [hframes] at hfacts hreply houtcome
  obtain rfl : waitingFacts = facts := Except.ok.inj ((rfl : _ = Except.ok _).symm.trans hfacts)
  have htwo : IsNumeral "2".toList 2 := readWord?_eq_some_iff.mp (by decide)
  have hx : ∀ i, ¬ IsNumeral "x".toList i := readWord?_eq_none_iff.mp (by decide)
  have hinfo : reply ":info 2".toList = waitingInfo := by
    have hwords : (words ":info 2".toList).map String.ofList = [":info", "2"] := by decide
    have hperformed : Command.Performed waitingFacts waitingFrames [":info", "2"] _ := .info htwo
    rw [← hwords] at hperformed
    rw [← (hreply _ _).mp (.performed rfl hperformed)]
    decide +kernel
  have hpath : reply ":path 2 x".toList = "Error: 'x' is not a frame id" := by
    have hwords : (words ":path 2 x".toList).map String.ofList = [":path", "2", "x"] := by decide
    have hrefused : Command.Refused [":path", "2", "x"] _ := .targetNotAFrame htwo hx
    rw [← hwords] at hrefused
    exact ((hreply _ _).mp (.refused rfl hrefused)).symm
  have hstatus : reply "status".toList = noPrefix := by
    rw [← (hreply _ _).mp (.query (by decide))]
    decide +kernel
  have hoverview : twoWaiting.chosenScenario.overview waitingFrames = waitingOverview := by
    rw [Scenario.overview]
    refine congrArg "\n".intercalate ?_
    decide +kernel
  refine ⟨hquery, houtcome.trans ?_⟩
  rw [← hinfo, ← hpath, ← hstatus, ← hoverview]
  rfl

end Invocation

end FrameLog
