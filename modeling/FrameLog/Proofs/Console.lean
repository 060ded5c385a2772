import FrameLog.Console
import FrameLog.Proofs.Session.Unrelated

/-!
# Transcripts

A dialogue is written line by line: what stands after a line is what a console that has just been
opened says to that line alone. The chains that the session remembers on the way cannot be seen.
-/

namespace FrameLog

open Text

/-! ## Sessions with a past -/

namespace Session

theorem after_concat (s : Session) (ops : List Operation) (op : Operation) :
    s.after (ops ++ [op]) = ((s.after ops).perform op).2 := by
  induction ops generalizing s with
  | nil => rfl
  | cons first ops ih => exact ih (s.perform first).2

variable (facts : FactBase) (settings : Settings) (before : List Operation)

theorem run_after (input : String) :
    ((fresh facts settings).after before).run input = (fresh facts settings).run input := by
  have hbefore := reply_after facts settings before (.run input) (by simp)
  have hfresh := reply_after facts settings [] (.run input) (by simp)
  exact Reply.response.inj (hbefore.trans hfresh.symm)

theorem chain_after_eq (frame : FrameId) (d : Direction) :
    ((fresh facts settings).after before).chain frame d =
      (facts.callGraph.chain frame d,
        (fresh facts settings).after (before ++ [.chain frame d])) := by
  rw [after_concat]
  exact Prod.ext (chain_after facts settings before frame d) rfl

theorem relationship_after_eq (frame : FrameId) :
    ((fresh facts settings).after before).relationship frame =
      (((fresh facts settings).relationship frame).1,
        (fresh facts settings).after (before ++ [.relationship frame])) := by
  rw [after_concat]
  refine Prod.ext ?_ rfl
  rw [relationship_after]
  exact (relationship_after facts settings [] frame).symm

end Session

/-! ## Replies -/

namespace Console

/-- A console over a fact base that has not been asked anything. -/
def opened (facts : FactBase) (settings : Settings) (frames : List Frame) : Console :=
  ⟨Session.fresh facts settings, frames⟩

/-- The console after its session has carried out the operations. -/
def after (c : Console) (ops : List Operation) : Console :=
  { c with session := c.session.after ops }

variable (facts : FactBase) (settings : Settings) (frames : List Frame) (before : List Operation)

theorem perform_after (command : Command) : ∃ ops,
    ((opened facts settings frames).after before).perform command =
      (((opened facts settings frames).perform command).1,
        (opened facts settings frames).after ops) := by
  cases command with
  | chain frame d =>
      have hfresh : (Session.fresh facts settings).chain frame d =
          (facts.callGraph.chain frame d, (Session.fresh facts settings).after [.chain frame d]) :=
        Session.chain_after_eq facts settings [] frame d
      refine ⟨before ++ [.chain frame d], ?_⟩
      simp only [perform, after, opened, Session.chain_after_eq, hfresh]
  | path source target =>
      have hfresh : (Session.fresh facts settings).path? source target =
          facts.callGraph.path? source target := rfl
      refine ⟨before, ?_⟩
      simp only [perform, after, opened, Session.path?_after, hfresh]
  | info frame =>
      refine ⟨before ++ [.relationship frame], ?_⟩
      simp only [perform, after, opened, Session.relationship_after_eq]
  | facts => exact ⟨before, rfl⟩
  | help => exact ⟨before, rfl⟩

/-- A line gets the reply of a console that has just been opened. -/
theorem reply_after (line : List Char) : ∃ ops,
    ((opened facts settings frames).after before).reply line =
      (((opened facts settings frames).reply line).1,
        (opened facts settings frames).after ops) := by
  unfold reply
  split
  · cases words line with
    | nil => exact ⟨before, rfl⟩
    | cons name args =>
        dsimp only
        cases Command.read name args with
        | ok command => exact perform_after facts settings frames before command
        | error cause => exact ⟨before, rfl⟩
  · refine ⟨before, ?_⟩
    simp only [after, opened, Session.run_after]

/-! ## Lines -/

/-- What is written for a line, prompt included. -/
def block (reply : List Char → String) (line : List Char) : String :=
  if trim line = [] then "| " else "| " ++ reply (trim line) ++ "\n\n"

/-- The line ends a dialogue. -/
def EndsDialogue (line : List Char) : Prop :=
  trim line = ":quit".toList ∨ trim line = ":q".toList

instance (line : List Char) : Decidable (EndsDialogue line) := inferInstanceAs (Decidable (_ ∨ _))

/-- What is written for the lines up to the first one that ends the dialogue, and the prompt that
stays without a reply. -/
def transcript (reply : List Char → String) (lines : List (List Char)) : String :=
  String.join ((lines.takeWhile fun line => ¬ EndsDialogue line).map (block reply)) ++ "| "

theorem isFarewell_iff {line : List Char} : isFarewell (trim line) = true ↔ EndsDialogue line := by
  simp [isFarewell, EndsDialogue]

theorem respond_after {line : List Char} (hline : ¬ EndsDialogue line) : ∃ text ops,
    ((opened facts settings frames).after before).respond (String.ofList line) =
      some (text, (opened facts settings frames).after ops) ∧
    "| " ++ text = block (fun line => ((opened facts settings frames).reply line).1) line := by
  unfold respond block
  simp only [String.toList_ofList]
  rw [if_neg (isFarewell_iff.not.mpr hline)]
  by_cases hblank : trim line = []
  · rw [hblank]
    exact ⟨"", before, rfl, rfl⟩
  · obtain ⟨ops, hreply⟩ := reply_after facts settings frames before (trim line)
    rw [if_neg (by simpa using hblank), if_neg hblank, hreply]
    exact ⟨_, ops, rfl, String.append_assoc.symm⟩

theorem respond_eq_none (c : Console) {line : List Char} (hline : EndsDialogue line) :
    c.respond (String.ofList line) = none := by
  rw [← isFarewell_iff] at hline
  simp [respond, hline]

theorem converse_after (lines : List (List Char)) :
    ((opened facts settings frames).after before).converse
        (lines.map fun line => some (String.ofList line)) =
      ⟨transcript (fun line => ((opened facts settings frames).reply line).1) lines, 0⟩ := by
  induction lines generalizing before with
  | nil => rfl
  | cons line lines ih =>
      rw [List.map_cons, converse, transcript]
      by_cases hline : EndsDialogue line
      · rw [respond_eq_none _ hline, List.takeWhile_cons_of_neg (by simpa using hline)]
        rfl
      · obtain ⟨text, ops, hrespond, hblock⟩ := respond_after facts settings frames before hline
        simp only [hrespond, ih, transcript]
        rw [List.takeWhile_cons_of_pos (by simpa using hline), List.map_cons, String.join_cons,
          ← hblock, prompt, String.append_assoc, String.append_assoc, String.append_assoc]

end Console

end FrameLog
