import FrameLog.Proofs.CallGraph.Path
import FrameLog.Proofs.Search.Order
import Mathlib.Logic.Relation
import Mathlib.Tactic.TFAE

/-!
# Reach in the call graph

A chain holds what is within reach of its frame, in the direction in which it is followed. To be within
reach of a frame along calls is the same as to reach it the other way.
-/

namespace FrameLog.CallGraph

variable {g : CallGraph} {a b c : FrameId} {d : Direction}

theorem mem_nodes_of_mem_neighbours (g : CallGraph) (d : Direction) :
    ∀ a, ∀ b ∈ g.neighbours d a, b ∈ g.nodes := by
  cases d with
  | callees => exact mem_nodes_of_mem_callees
  | callers =>
      intro a b hb
      exact List.mem_flatMap.mpr ⟨(b, a), mem_callers_iff.mp hb, by simp⟩

theorem mem_callers_eq_calls (g : CallGraph) :
    (fun a b => b ∈ g.callers a) = Function.swap g.Calls := by
  funext a b
  exact propext mem_callers_iff

/-- A frame was called by another as often as the other called it. -/
theorem count_callees_eq_count_callers (g : CallGraph) (a b : FrameId) :
    (g.callees a).count b = (g.callers b).count a := by
  simp only [callees, callers, List.count, List.countP_map, List.countP_filter]
  exact List.countP_congr fun e _ => by simp [and_comm]

/-! ## Chains -/

/-- The search for a chain goes on from the frame itself. -/
theorem map_last_trails (g : CallGraph) (a : FrameId) (d : Direction) :
    (g.trails d a).map (·.last) = a :: g.chain a d := by
  obtain ⟨rest, hrest⟩ := exists_trails_eq (mem_nodes_of_mem_neighbours g d a)
  have hhead : ((g.trails d a).map (·.last)).head? = some a := by rw [trails, hrest, List.head?_cons]
  rw [chain, List.map_tail]
  exact (List.cons_head?_tail hhead).symm

theorem nodup_cons_chain (g : CallGraph) (a : FrameId) (d : Direction) :
    (a :: g.chain a d).Nodup := by
  rw [← map_last_trails]
  exact nodup_trails

theorem mem_cons_chain_iff : b ∈ a :: g.chain a d ↔
    Relation.ReflTransGen (fun a b => b ∈ g.neighbours d a) a b := by
  rw [← map_last_trails]
  exact mem_map_last_trails_iff (mem_nodes_of_mem_neighbours g d)

theorem mem_cons_chain_callees_iff :
    b ∈ a :: g.chain a .callees ↔ Relation.ReflTransGen g.Calls a b := by
  rw [mem_cons_chain_iff, ← mem_callees_eq_calls]
  rfl

theorem mem_cons_chain_callers_iff :
    a ∈ b :: g.chain b .callers ↔ Relation.ReflTransGen g.Calls a b := by
  have hswap : (fun a b => b ∈ g.neighbours .callers a) = Function.swap g.Calls :=
    mem_callers_eq_calls g
  rw [mem_cons_chain_iff, hswap, Relation.reflTransGen_swap]

/-- A chain begins with the neighbours of its frame, each in its first place. -/
theorem exists_chain_eq (g : CallGraph) (a : FrameId) (d : Direction) : ∃ rest,
    g.chain a d = ((g.neighbours d a).filter (· ≠ a)).eraseDups ++ rest ∧
      ∀ f ∈ rest, f ∉ g.neighbours d a := by
  obtain ⟨rest, hrest⟩ := exists_trails_eq (mem_nodes_of_mem_neighbours g d a)
  have hchain : a :: g.chain a d =
      a :: (((g.neighbours d a).filter (· ≠ a)).eraseDups ++ rest) := by
    rw [← map_last_trails, ← hrest]
    rfl
  have hnodup := g.nodup_cons_chain a d
  rw [hchain] at hnodup
  obtain ⟨ha, hnodup⟩ := List.nodup_cons.mp hnodup
  refine ⟨rest, (List.cons.inj hchain).2, fun f hf hmem => ?_⟩
  have hfa : f ≠ a := fun hfa => ha (List.mem_append_right _ (hfa ▸ hf))
  have hfirst : f ∈ ((g.neighbours d a).filter (· ≠ a)).eraseDups := by simp [hmem, hfa]
  exact (List.nodup_append.mp hnodup).2.2 f hfirst f hf rfl

/-- A chain is empty exactly when the frame has no neighbour but itself. -/
theorem chain_eq_nil_iff : g.chain a d = [] ↔ ∀ b ∈ g.neighbours d a, b = a := by
  constructor
  · intro h b hb
    have hmem : b ∈ a :: g.chain a d := mem_cons_chain_iff.mpr (.single hb)
    simpa [h] using hmem
  · intro h
    have hstay : ∀ b, Relation.ReflTransGen (fun a b => b ∈ g.neighbours d a) a b → b = a := by
      intro b hb
      induction hb with
      | refl => rfl
      | tail _ hstep ih => exact h _ (ih ▸ hstep)
    refine List.eq_nil_iff_forall_not_mem.mpr fun b hb => ?_
    obtain rfl := hstay b (mem_cons_chain_iff.mp (List.mem_cons_of_mem a hb))
    exact (List.nodup_cons.mp (g.nodup_cons_chain b d)).1 hb

/-- A frame that nobody called has no chain of callers. -/
theorem chain_callers_eq_nil (h : g.directCaller? a = none) : g.chain a .callers = [] := by
  have hcallers : g.neighbours .callers a = [] := List.head?_eq_none_iff.mp h
  rw [chain_eq_nil_iff, hcallers]
  exact List.forall_mem_nil _

/-! ## Paths -/

theorem isSome_path?_iff : (g.path? a b).isSome ↔ Relation.ReflTransGen g.Calls a b := by
  rw [← exists_isWalk_iff, Option.isSome_iff_exists]
  constructor
  · rintro ⟨p, hp⟩
    exact ⟨p, isWalk_of_path? hp⟩
  · rintro ⟨w, hw⟩
    obtain ⟨p, hp, -⟩ := exists_path?_of_isWalk hw
    exact ⟨p, hp⟩

/-- Of two frames, the second is among the callees of the first exactly when the first is among its
callers, and exactly when there is a path. -/
theorem tfae_reach (g : CallGraph) (hab : a ≠ b) :
    [b ∈ g.chain a .callees, a ∈ g.chain b .callers, (g.path? a b).isSome].TFAE := by
  have hcallees : b ∈ g.chain a .callees ↔ Relation.ReflTransGen g.Calls a b := by
    rw [← mem_cons_chain_callees_iff, List.mem_cons, or_iff_right hab.symm]
  have hcallers : a ∈ g.chain b .callers ↔ Relation.ReflTransGen g.Calls a b := by
    rw [← mem_cons_chain_callers_iff, List.mem_cons, or_iff_right hab]
  tfae_have 1 ↔ 3 := hcallees.trans isSome_path?_iff.symm
  tfae_have 2 ↔ 3 := hcallers.trans isSome_path?_iff.symm
  tfae_finish

/-- A path visits frames of the chain of callees in their order there. -/
theorem sublist_of_path? {p : List FrameId} (h : g.path? a b = some p) :
    p.Sublist (a :: g.chain a .callees) := by
  obtain ⟨t, ht, -, rfl⟩ := path?_eq_some_iff.mp h
  obtain ⟨s, hs, w, hnodes, hsub⟩ := exists_nodes_sublist ht
  obtain rfl := List.mem_singleton.mp hs
  rw [hnodes, ← map_last_trails]
  exact hsub

/-- A path visits frames of the chain of callers. -/
theorem subset_of_path? {p : List FrameId} (h : g.path? a b = some p) :
    p ⊆ b :: g.chain b .callers := fun _ hc =>
  mem_cons_chain_callers_iff.mpr ((isWalk_of_path? h).reflTransGen_of_mem hc)

end FrameLog.CallGraph
