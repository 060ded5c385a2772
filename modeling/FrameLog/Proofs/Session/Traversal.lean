import FrameLog.Proofs.CallGraph.Shortest
import FrameLog.Proofs.Session.Unrelated

/-!
# Chains, paths and relationships agree

What a session says about two frames is the same whether their calls are followed from the caller or
from the callee, and whether a chain or a path is asked for.
-/

namespace FrameLog.Session

/-- One frame is in the chain of callees of another exactly when that one is in its chain of callers,
and exactly when there is a path; calls are counted alike from both ends, and a path runs through the
chains of both. In a relationship, the chain of callers is empty when there is no caller but the frame
itself, and the chain of callees begins with the direct ones. The session may have been asked anything
before. -/
theorem traversals_agree (facts : FactBase) (settings : Settings) (before : List Operation)
    (a b : FrameId) :
    let g := facts.callGraph
    let s := (fresh facts settings).after before
    let r := (s.relationship a).1
    (a ≠ b → [b ∈ (s.chain a .callees).1, a ∈ (s.chain b .callers).1,
      (s.path? a b).isSome].TFAE) ∧
    (g.callees a).count b = (g.callers b).count a ∧
    (∀ p, s.path? a b = some p →
      p.Sublist (a :: (s.chain a .callees).1) ∧ p.reverse ⊆ b :: (s.chain b .callers).1) ∧
    (r.callerChain = [] ↔ ∀ c ∈ g.callers a, c = a) ∧
    (r.directCaller = none → r.callerChain = []) ∧
    ∃ rest, r.calleeChain = (r.directCallees.filter (· ≠ a)).eraseDups ++ rest ∧
      ∀ f ∈ rest, f ∉ r.directCallees := by
  intro g s r
  simp only [s, r, chain_after, path?_after, relationship_after]
  refine ⟨g.tfae_reach, g.count_callees_eq_count_callers a b, fun p hp => ?_,
    CallGraph.chain_eq_nil_iff, CallGraph.chain_callers_eq_nil, g.exists_chain_eq a .callees⟩
  exact ⟨CallGraph.sublist_of_path? hp,
    List.reverse_subset.mpr (CallGraph.subset_of_path? hp)⟩

theorem traversals_agree_loopedTrace :
    let s := (fresh CallGraph.loopedTrace {}).after repeatedLookups
    let r := (s.relationship 1).1
    (1 : FrameId) ≠ 4 ∧ 4 ∈ (s.chain 1 .callees).1 ∧ 1 ∈ (s.chain 4 .callers).1 ∧
    s.path? 1 4 = some [1, 3, 4] ∧ [1, 3, 4].Sublist (1 :: (s.chain 1 .callees).1) ∧
    r.callerChain ≠ [] ∧ r.directCaller = some 1 ∧ r.directCallees = [1, 3, 2, 2] ∧
    ∃ rest, r.calleeChain = [3, 2] ++ rest := by
  intro s r
  obtain ⟨hreach, -, hpath, hcallers, -, rest, hrest, -⟩ :=
    traversals_agree CallGraph.loopedTrace {} repeatedLookups 1 4
  have hne : (1 : FrameId) ≠ 4 := by decide
  have hpath14 : s.path? 1 4 = some [1, 3, 4] := by decide +kernel
  have hsome : (s.path? 1 4).isSome := Option.isSome_of_eq_some hpath14
  have hcaller : r.callerChain ≠ [] := fun hnil =>
    absurd (hcallers.mp hnil 4 (by decide +kernel)) hne.symm
  have hcallees : r.directCallees = [1, 3, 2, 2] := by decide +kernel
  have hfirst : (r.directCallees.filter (· ≠ 1)).eraseDups = [3, 2] := by
    rw [hcallees]
    decide
  have hchain : r.calleeChain = [3, 2] ++ rest := by
    rw [← hfirst]
    exact hrest
  exact ⟨hne, ((hreach hne).out 0 2).mpr hsome, ((hreach hne).out 1 2).mpr hsome, hpath14,
    (hpath _ hpath14).1, hcaller, by decide +kernel, hcallees, rest, hchain⟩

end FrameLog.Session
