import FrameLog.Proofs.CallGraph.Edges
import FrameLog.Proofs.Search.Parents
import Mathlib.Data.List.Nodup

/-!
# Paths in the call graph

A path is a walk along calls, none is shorter, and there is one whenever there is a walk.
-/

namespace FrameLog.CallGraph

/-- The first frame called the second one. -/
def Calls (g : CallGraph) (caller callee : FrameId) : Prop := (caller, callee) ∈ g.edges

instance (g : CallGraph) : DecidableRel g.Calls := fun caller callee =>
  inferInstanceAs (Decidable ((caller, callee) ∈ g.edges))

variable {g : CallGraph} {a b : FrameId} {p w : List FrameId}

theorem mem_callees_eq_calls (g : CallGraph) : (fun a b => b ∈ g.callees a) = g.Calls := by
  funext a b
  exact propext mem_callees_iff

theorem mem_nodes_of_mem_callees : ∀ a, ∀ b ∈ g.callees a, b ∈ g.nodes := by
  intro a b hb
  exact List.mem_flatMap.mpr ⟨(a, b), mem_callees_iff.mp hb, by simp⟩

/-- A path is a trail to its end. -/
theorem path?_eq_some_iff : g.path? a b = some p ↔
    ∃ t ∈ g.trails .callees a, t.last = b ∧ t.nodes = p := by
  unfold path?
  split
  · rename_i hab
    have hstart : Trail.start a ∈ g.trails .callees a := mem_explore_of_mem (List.mem_singleton_self _)
    rw [Option.some_inj]
    constructor
    · exact fun hp => ⟨Trail.start a, hstart, hab, hp⟩
    · rintro ⟨t, ht, hlast, rfl⟩
      rw [← List.inj_on_of_nodup_map nodup_trails hstart ht (hab.trans hlast.symm)]
      rfl
  · rename_i hab
    exact map_unwind_eq_some_iff (Ne.symm hab)

theorem isWalk_of_path? (h : g.path? a b = some p) : IsWalk g.Calls a b p := by
  obtain ⟨t, ht, rfl, rfl⟩ := path?_eq_some_iff.mp h
  rw [← mem_callees_eq_calls]
  exact isWalk_of_mem_trails t ht

theorem exists_path?_of_isWalk (hw : IsWalk g.Calls a b w) :
    ∃ p, g.path? a b = some p ∧ p.length ≤ w.length := by
  rw [← mem_callees_eq_calls] at hw
  obtain ⟨t, ht, hlast, hle⟩ := exists_trail_of_isWalk mem_nodes_of_mem_callees hw
  exact ⟨t.nodes, path?_eq_some_iff.mpr ⟨t, ht, hlast, rfl⟩, hle⟩

end FrameLog.CallGraph
