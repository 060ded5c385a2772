import FrameLog.Proofs.CallGraph.Shortest
import FrameLog.Proofs.Search.Levels
import FrameLog.Proofs.Search.Sweep

/-!
# The order of a chain

A search that remembers which frames it met ends with the chain. The chain holds what is within reach of
its frame by at least one call, level by level.
-/

namespace FrameLog.CallGraph

/-- A search that remembers which frames it met always ends, and what it then has listed is the chain:
the frames within reach of its frame by at least one call, without the frame itself and each once,
level by level. -/
theorem chain_spec (facts : FactBase) (a : FrameId) (d : Direction) :
    let g := facts.callGraph
    (∀ listed, Sweep.Ends (g.neighbours d) (.start a) listed ↔ listed = g.chain a d) ∧
    ByLevels (g.neighbours d) a (g.chain a d) := by
  intro g
  have hnodes := g.mem_nodes_of_mem_neighbours d
  have hlisted : (FrameLog.trails g.nodes (g.neighbours d) a).map (·.last) = a :: g.chain a d :=
    g.map_last_trails a d
  refine ⟨fun listed => ?_, byLevels_of_trails hnodes hlisted⟩
  rw [Sweep.ends_start_iff hnodes, hlisted, List.cons_inj_right, eq_comm]

/-- Frames 3 and 2 both lead to frame 4, and frame 1 lists frame 3 first. -/
theorem chain_spec_loopedTrace :
    let next := loopedTrace.callGraph.neighbours .callees
    Sweep.Ends next (.start 1) [3, 2, 4] ∧ FirstLead next 1 [1, 3, 2, 4] 3 4 := by
  intro next
  have hchain : loopedTrace.callGraph.chain 1 .callees = [3, 2, 4] := by decide +kernel
  obtain ⟨hends, hlevels⟩ := chain_spec loopedTrace 1 .callees
  rw [hchain] at hends hlevels
  refine ⟨(hends _).mpr rfl, ?_⟩
  have hleads : ∀ p f, FirstLead next 1 [1, 3, 2, 4] p f →
      p ∈ [1, 3, 2, 4].filter (f ∈ next ·) := fun p f h =>
    List.mem_filter.mpr ⟨h.mem, decide_eq_true h.leads⟩
  have htwo : [1, 3, 2, 4].filter (2 ∈ next ·) = [1] := by decide +kernel
  have hthree : [1, 3, 2, 4].filter (3 ∈ next ·) = [1] := by decide +kernel
  have hfour : [1, 3, 2, 4].filter (4 ∈ next ·) = [3, 2] := by decide +kernel
  obtain ⟨p, hp⟩ := hlevels.led 4 (by decide)
  obtain ⟨q, hq⟩ := hlevels.led 2 (by decide)
  obtain ⟨r, hr⟩ := hlevels.led 3 (by decide)
  obtain rfl := List.mem_singleton.mp (htwo ▸ hleads q 2 hq)
  obtain rfl := List.mem_singleton.mp (hthree ▸ hleads r 3 hr)
  rcases List.mem_pair.mp (hfour ▸ hleads p 4 hp) with rfl | rfl
  · exact hp
  · have hsame : distance next 1 3 = distance next 1 2 := hr.nearer.symm.trans hq.nearer
    have hfirst := hp.first 3 (by decide) (by decide +kernel) (hsame ▸ hp.nearer)
    exact absurd hfirst (by decide)

end FrameLog.CallGraph
