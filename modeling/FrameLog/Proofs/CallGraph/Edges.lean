import FrameLog.Proofs.Distinct
import FrameLog.Proofs.FactBase
import FrameLog.Proofs.FrameId
import Mathlib.Tactic.TFAE

/-!
# The call graph of a trace

The calls of a trace are those that its frames record. A call is kept in the facts when both of its
ends are identifiers below `2 ^ 63`; another leaves a fact that identifies no frames, and the graph
passes it over.
-/

namespace FrameLog

namespace Frame

/-- The call that the frame records: its caller and itself. -/
def call? (r : Frame) : Option (FrameId × FrameId) := r.caller.map fun caller => (caller, r.id)

/-- Both ends of the recorded call are kept as integers. -/
def CallFits (r : Frame) : Prop := ∀ caller, r.caller = some caller → Fits caller ∧ Fits r.id

theorem filterMap_callEdge?_rows (r : Frame) :
    ((r.rows .calls).map (Fact.mk .calls)).filterMap Fact.callEdge? =
      r.call?.toList.filter fun e => Fits e.1 ∧ Fits e.2 := by
  cases hc : r.caller with
  | none => simp [rows, call?, hc]
  | some caller =>
      by_cases hcaller : Fits caller <;> by_cases hid : Fits r.id <;>
        simp [rows, call?, hc, Fact.callEdge?, Value.toFrameId?_ofUInt64, hcaller, hid]

end Frame

section

variable {frames : List Frame} {b : FactBase}

/-- The edges are the recorded calls whose ends are kept, in the order of the frames. -/
theorem FactBase.edges_of_ofFrames (h : ofFrames frames = .ok b) : b.callGraph.edges =
    (frames.filterMap Frame.call?).filter fun e => Fits e.1 ∧ Fits e.2 := by
  calc b.callGraph.edges
      = (frames.flatMap fun r => (r.rows .calls).map (Fact.mk .calls)).filterMap Fact.callEdge? := by
        rw [callGraph, facts_of_ofFrames h]
    _ = frames.flatMap fun r => r.call?.toList.filter fun e => Fits e.1 ∧ Fits e.2 := by
        rw [List.filterMap_flatMap]
        exact List.flatMap_congr fun r _ => r.filterMap_callEdge?_rows
    _ = (frames.filterMap Frame.call?).filter fun e => Fits e.1 ∧ Fits e.2 := by
        rw [List.filterMap_eq_flatMap_toList, List.filter_flatMap]

theorem map_snd_filter_call? (frames : List Frame) (f : FrameId) :
    ((frames.filterMap Frame.call?).filter (·.1 == f)).map (·.2) =
      (frames.filter (·.caller == some f)).map (·.id) := by
  induction frames with
  | nil => rfl
  | cons r frames ih =>
      cases hc : r.caller with
      | none => simp [Frame.call?, hc, ih]
      | some caller => by_cases hf : caller = f <;> simp [Frame.call?, hc, hf, ih]

theorem map_fst_filter_call? (frames : List Frame) (f : FrameId) :
    ((frames.filterMap Frame.call?).filter (·.2 == f)).map (·.1) =
      frames.flatMap fun r => if r.id = f then r.caller.toList else [] := by
  induction frames with
  | nil => rfl
  | cons r frames ih =>
      cases hc : r.caller with
      | none => simp [Frame.call?, hc, ih]
      | some caller => by_cases hf : r.id = f <;> simp [Frame.call?, hc, hf, ih]

end

/-! ## Edges and neighbours -/

namespace CallGraph

variable {g : CallGraph} {f caller callee : FrameId}

theorem mem_callees_iff : callee ∈ g.callees caller ↔ (caller, callee) ∈ g.edges := by
  simp [callees]

theorem mem_callers_iff : caller ∈ g.callers callee ↔ (caller, callee) ∈ g.edges := by
  simp [callers]

theorem mem_edges_of_directCaller? (h : g.directCaller? callee = some caller) :
    (caller, callee) ∈ g.edges :=
  mem_callers_iff.mp (List.mem_of_mem_head? h)

end CallGraph

/-- The edges of the graph are the recorded calls between identifiers that are kept as integers. The
graph is what the frames record, its edges, its direct callers and its direct callees alike, exactly
when all recorded calls are of that kind. -/
theorem FactBase.callGraph_of_ofFrames {frames : List Frame} {b : FactBase}
    (h : ofFrames frames = .ok b) :
    b.callGraph.edges = ((frames.filterMap Frame.call?).filter fun e => Fits e.1 ∧ Fits e.2) ∧
    [∀ r ∈ frames, r.CallFits,
      b.callGraph.edges = frames.filterMap Frame.call?,
      ∀ r ∈ frames, b.callGraph.directCaller? r.id = r.caller,
      ∀ f, b.callGraph.callees f = (frames.filter (·.caller == some f)).map (·.id)].TFAE := by
  have hedges := edges_of_ofFrames h
  have hfits : ∀ r ∈ frames, ∀ caller, r.caller = some caller →
      (caller, r.id) ∈ b.callGraph.edges → Fits caller ∧ Fits r.id := by
    intro r _ caller _ hmem
    rw [hedges, List.mem_filter] at hmem
    simpa using hmem.2
  refine ⟨hedges, ?_⟩
  tfae_have 1 → 2 := by
    intro hall
    rw [hedges, List.filter_eq_self]
    intro e he
    obtain ⟨r, hr, hre⟩ := List.mem_filterMap.mp he
    obtain ⟨caller, hc, rfl⟩ := Option.map_eq_some_iff.mp hre
    simpa using hall r hr caller hc
  tfae_have 2 → 3 := by
    intro heq r hr
    have hnodup := (ofFrames_eq_ok_iff.mp h).2.1
    have hcallers : b.callGraph.callers r.id = r.caller.toList := by
      rw [CallGraph.callers, heq, map_fst_filter_call?, flatMap_eq_of_nodup hnodup hr, if_pos rfl]
      intro s _ hne
      exact if_neg hne
    rw [CallGraph.directCaller?, hcallers]
    cases r.caller <;> rfl
  tfae_have 2 → 4 := by
    intro heq f
    rw [CallGraph.callees, heq, map_snd_filter_call?]
  tfae_have 3 → 1 := by
    intro hcallers r hr caller hc
    refine hfits r hr caller hc (CallGraph.mem_edges_of_directCaller? ?_)
    rw [hcallers r hr, hc]
  tfae_have 4 → 1 := by
    intro hcallees r hr caller hc
    refine hfits r hr caller hc (CallGraph.mem_callees_iff.mp ?_)
    rw [hcallees, List.mem_map]
    exact ⟨r, List.mem_filter.mpr ⟨hr, by simp [hc]⟩, rfl⟩
  tfae_finish

/-- Frame 1 called frame 2 and a frame whose identifier is too large to be kept as an integer. -/
def longRunningTrace : List Frame :=
  [⟨1, "main", none, 1000, 64, .active, []⟩, ⟨2, "poll", some 1, 1010, 64, .active, []⟩,
    ⟨9223372036854775808, "poll", some 1, 1020, 64, .active, []⟩]

theorem exists_ofFrames_longRunningTrace : ∃ b, FactBase.ofFrames longRunningTrace = .ok b :=
  FactBase.exists_ofFrames_iff.mpr (by decide)

theorem callGraph_of_ofFrames_longRunningTrace : ∃ b, FactBase.ofFrames longRunningTrace = .ok b ∧
    b.callGraph.edges = [(1, 2)] := by
  obtain ⟨b, hb⟩ := exists_ofFrames_longRunningTrace
  refine ⟨b, hb, ?_⟩
  rw [(FactBase.callGraph_of_ofFrames hb).1]
  decide

/-- A call to an accepted frame may be missing from the graph. -/
theorem callGraph_misses_call : ∃ b, FactBase.ofFrames longRunningTrace = .ok b ∧
    b.callGraph.edges ≠ longRunningTrace.filterMap Frame.call? ∧
    b.callGraph.directCaller? 9223372036854775808 = none ∧ b.callGraph.callees 1 = [2] := by
  obtain ⟨b, hb⟩ := exists_ofFrames_longRunningTrace
  have hedges : b.callGraph.edges = [(1, 2)] := by
    rw [FactBase.edges_of_ofFrames hb]
    decide
  refine ⟨b, hb, ?_⟩
  rw [CallGraph.directCaller?, CallGraph.callers, CallGraph.callees, hedges]
  decide

end FrameLog
