import FrameLog.Proofs.CallGraph.Reach
import FrameLog.Proofs.Search.Parents
import FrameLog.Proofs.Search.Shortest

/-!
# The first of the shortest paths

A path is missing only where there is no walk. It is a shortest walk, and the first one of them when
the callees of each frame are taken in their order. A search that stops at its target and notes only
who led to whom finds it too.
-/

namespace FrameLog.CallGraph

variable {g : CallGraph} {a b : FrameId} {p q : List FrameId}

/-! ## The first of the shortest walks -/

/-- A walk that visits no frame twice, is not longer than any other, and comes first among those of
its length: in lexicographic order, with the callees of each frame ranked by their first places. -/
structure IsFirstShortest (g : CallGraph) (a b : FrameId) (p : List FrameId) : Prop where
  isWalk : IsWalk g.Calls a b p
  nodup : p.Nodup
  length_le : ∀ w, IsWalk g.Calls a b w → p.length ≤ w.length
  ranks_lt : ∀ w, IsWalk g.Calls a b w → w.length = p.length → w ≠ p →
    ranks g.callees p < ranks g.callees w

theorem IsFirstShortest.unique (hp : g.IsFirstShortest a b p) (hq : g.IsFirstShortest a b q) :
    p = q := by
  have hlen : p.length = q.length :=
    Nat.le_antisymm (hp.length_le q hq.isWalk) (hq.length_le p hp.isWalk)
  by_contra hne
  have hpq := hp.ranks_lt q hq.isWalk hlen.symm (Ne.symm hne)
  have hqp := hq.ranks_lt p hp.isWalk hlen hne
  exact List.lt_asymm hpq hqp

theorem isFirstShortest_of_path? (h : g.path? a b = some p) : g.IsFirstShortest a b p := by
  refine ⟨isWalk_of_path? h, (sublist_of_path? h).nodup (g.nodup_cons_chain a .callees), ?_, ?_⟩
  · intro w hw
    obtain ⟨q, hq, hle⟩ := exists_path?_of_isWalk hw
    obtain rfl := Option.some.inj (h.symm.trans hq)
    exact hle
  · intro w hw hlen hne
    obtain ⟨t, ht, rfl, rfl⟩ := path?_eq_some_iff.mp h
    rw [← mem_callees_eq_calls] at hw
    exact ranks_nodes_lt mem_nodes_of_mem_callees ht hw hlen hne

theorem path?_eq_some_iff_isFirstShortest : g.path? a b = some p ↔ g.IsFirstShortest a b p := by
  refine ⟨isFirstShortest_of_path?, fun h => ?_⟩
  obtain ⟨q, hq, -⟩ := exists_path?_of_isWalk h.isWalk
  rw [hq, (isFirstShortest_of_path? hq).unique h]

/-! ## The search for one frame -/

/-- There is one way back along the noted parents, and it is the path. -/
theorem exists_path?_of_parentsTo? (hne : b ≠ a) {noted : List (FrameId × FrameId)}
    (h : g.parentsTo? a b = some noted) :
    ∃ p, g.path? a b = some p ∧ ∀ w, Unwinds (noted.lookup ·) a b w ↔ w = p := by
  obtain ⟨t, ht, hlast, hunwinds⟩ := (parentsTo?_spec hne).1 noted h
  refine ⟨t.nodes, path?_eq_some_iff.mpr ⟨t, ht, hlast, rfl⟩, fun w => ?_⟩
  exact ⟨fun hw => hw.unique hunwinds, fun hw => hw ▸ hunwinds⟩

theorem parentsTo?_eq_none_iff (hne : b ≠ a) : g.parentsTo? a b = none ↔ g.path? a b = none := by
  constructor
  · intro h
    rw [Option.eq_none_iff_forall_ne_some]
    intro p hp
    obtain ⟨t, ht, hlast, -⟩ := path?_eq_some_iff.mp hp
    exact (parentsTo?_spec hne).2 h t ht hlast
  · intro h
    rw [Option.eq_none_iff_forall_ne_some]
    intro noted hnoted
    obtain ⟨p, hp, -⟩ := exists_path?_of_parentsTo? hne hnoted
    rw [h] at hp
    cases hp

/-! ## Paths of a fact base -/

/-- There is no path exactly from a frame to another one that is not within its reach along calls;
else the path is the first of the shortest walks. A search that stops at another frame finds it
exactly when there is a path. The way back along the parents that it noted then meets no frame without
a parent before the start, and is the path. -/
theorem path?_spec (facts : FactBase) (a b : FrameId) :
    let g := facts.callGraph
    (g.path? a b = none ↔ b ≠ a ∧ ¬ Relation.TransGen g.Calls a b) ∧
    (∀ p, g.path? a b = some p ↔ g.IsFirstShortest a b p) ∧
    (b ≠ a → (g.parentsTo? a b = none ↔ g.path? a b = none) ∧
      ∀ noted, g.parentsTo? a b = some noted →
        ∃ p, g.path? a b = some p ∧ ∀ w, Unwinds (noted.lookup ·) a b w ↔ w = p) := by
  intro g
  refine ⟨?_, fun p => path?_eq_some_iff_isFirstShortest, fun hne =>
    ⟨parentsTo?_eq_none_iff hne, fun noted => exists_path?_of_parentsTo? hne⟩⟩
  rw [← Option.not_isSome_iff_eq_none, isSome_path?_iff, Relation.reflTransGen_iff_eq_or_transGen,
    not_or]

/-- Frame 1 calls itself and leads to frame 4 by frame 3 and by frame 2, which it called twice; a call
leads back, and frame 5 stands apart. -/
def loopedTrace : FactBase where
  toList :=
    [⟨.calls, [.int 1, .int 1]⟩, ⟨.calls, [.int 1, .int 3]⟩, ⟨.calls, [.int 1, .int 2]⟩,
      ⟨.calls, [.int 1, .int 2]⟩, ⟨.calls, [.int 2, .int 4]⟩, ⟨.calls, [.int 3, .int 4]⟩,
      ⟨.calls, [.int 4, .int 1]⟩, ⟨.calls, [.int 5, .int 1]⟩]
  wellFormed := by decide

theorem path?_spec_loopedTrace :
    let g := loopedTrace.callGraph
    g.IsFirstShortest 1 4 [1, 3, 4] ∧ IsWalk g.Calls 1 4 [1, 2, 4] ∧
    ¬ Relation.TransGen g.Calls 1 5 ∧ (4 : FrameId) ≠ 1 ∧
    ∃ noted, g.parentsTo? 1 4 = some noted ∧ Unwinds (noted.lookup ·) 1 4 [1, 3, 4] := by
  intro g
  have hpath : g.path? 1 4 = some [1, 3, 4] := by decide +kernel
  have hnone : g.path? 1 5 = none := by decide +kernel
  have hne : (4 : FrameId) ≠ 1 := by decide
  have htie : IsWalk g.Calls 1 4 [1, 2, 4] := ⟨rfl, rfl, by decide +kernel⟩
  obtain ⟨-, hfirst, hparents⟩ := path?_spec loopedTrace 1 4
  obtain ⟨hmissing, hunwinds⟩ := hparents hne
  obtain ⟨noted, hnoted⟩ : ∃ noted, g.parentsTo? 1 4 = some noted := by
    rw [← Option.ne_none_iff_exists', Ne, hmissing, hpath]
    exact Option.some_ne_none _
  obtain ⟨p, hpath', hback⟩ := hunwinds noted hnoted
  obtain rfl := Option.some.inj (hpath.symm.trans hpath')
  exact ⟨(hfirst _).mp hpath, htie, ((path?_spec loopedTrace 1 5).1.mp hnone).2, hne, noted, hnoted,
    (hback _).mpr rfl⟩

end FrameLog.CallGraph
