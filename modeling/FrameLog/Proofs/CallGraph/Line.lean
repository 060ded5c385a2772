import FrameLog.Proofs.CallGraph.Path
import FrameLog.Proofs.Trace
import Mathlib.Data.List.Range

/-!
# The call graph of a generated trace

The frames of a generated trace form a line: each called the next one. Its chains and paths are the
stretches of that line.
-/

namespace FrameLog

/-! ## Searching along a line -/

namespace Trail

variable {α : Type}

theorem map_last_scanl (t : Trail α) (w : List α) :
    (w.scanl extend t).map (·.last) = t.last :: w := by
  induction w generalizing t with
  | nil => rfl
  | cons a w ih => rw [List.scanl_cons, List.map_cons, ih, last_extend]

/-- The trails along the nodes are those along their initial stretches. -/
theorem exists_mem_scanl (t : Trail α) (v w : List α) :
    ∃ u ∈ (v ++ w).scanl extend t, u.nodes = t.nodes ++ v := by
  induction v generalizing t with
  | nil =>
      refine ⟨t, ?_, (List.append_nil _).symm⟩
      cases w with
      | nil => exact List.mem_singleton_self t
      | cons a w =>
          rw [List.nil_append, List.scanl_cons]
          exact List.mem_cons_self
  | cons a v ih =>
      obtain ⟨u, hu, hnodes⟩ := ih (t.extend a)
      rw [List.cons_append, List.scanl_cons]
      exact ⟨u, List.mem_cons_of_mem _ hu, by rw [hnodes, nodes_extend, List.append_assoc]; rfl⟩

@[simp] theorem last_start (a : α) : (start a).last = a := rfl

end Trail

/-- When every node but the last one leads to the next one alone, the search follows them. -/
theorem explore_line {α : Type} [DecidableEq α] {next : α → List α} {unreached w : List α}
    {t : Trail α} (hnodup : w.Nodup) (hsub : w ⊆ unreached)
    (hsteps : (t.last :: w).IsChain fun a b => next a = [b])
    (hend : ∀ a ∈ (t.last :: w).getLast?, next a = []) :
    explore next unreached [t] = w.scanl Trail.extend t := by
  induction w generalizing t unreached with
  | nil =>
      have hnone : next t.last = [] := hend _ rfl
      simp [explore, hnone, discover]
  | cons a w ih =>
      obtain ⟨ha, hw⟩ := List.nodup_cons.mp hnodup
      obtain ⟨hnext, hsteps⟩ := List.isChain_cons_cons.mp hsteps
      have hmem : a ∈ unreached := hsub List.mem_cons_self
      have hleft : w ⊆ unreached.erase a := fun b hb =>
        (List.mem_erase_of_ne (ne_of_mem_of_not_mem hb ha)).mpr (hsub (List.mem_cons_of_mem _ hb))
      rw [explore, hnext]
      simp only [discover, hmem, if_true, List.map_cons, List.map_nil, List.nil_append]
      rw [List.scanl_cons, ih hw hleft hsteps]
      intro b hb
      exact hend b (by rwa [List.getLast?_cons_cons])

/-! ## Stretches of a line -/

namespace FrameId

theorem interval_cons {first last : Nat} (h : first ≤ last) :
    interval first last = UInt64.ofNat first :: interval (first + 1) last := by
  have hlen : last + 1 - first = last + 1 - (first + 1) + 1 := by omega
  rw [interval, interval, hlen, List.range'_succ, List.map_cons]

theorem interval_concat {first last : Nat} (h : first ≤ last + 1) :
    interval first (last + 1) = interval first last ++ [UInt64.ofNat (last + 1)] := by
  have hlen : last + 1 + 1 - first = last + 1 - first + 1 := by omega
  have hlast : first + (last + 1 - first) = last + 1 := by omega
  rw [interval, interval, hlen, List.range'_1_concat, List.map_append, List.map_singleton, hlast]

theorem getLast?_interval {first last : Nat} (h : first ≤ last) :
    (interval first last).getLast? = some (UInt64.ofNat last) := by
  cases last with
  | zero =>
      obtain rfl := Nat.le_zero.mp h
      rfl
  | succ last => rw [interval_concat h, List.getLast?_concat]

theorem interval_append {first mid last : Nat} (hfirst : first ≤ mid + 1) (hlast : mid ≤ last) :
    interval first mid ++ interval (mid + 1) last = interval first last := by
  have hmid : mid + 1 = first + (mid + 1 - first) := by omega
  have hlen : mid + 1 - first + (last + 1 - (mid + 1)) = last + 1 - first := by omega
  rw [interval, interval, interval, ← List.map_append, ← hlen, ← List.range'_append_1, ← hmid]

theorem isChain_interval {R : FrameId → FrameId → Prop} {first last : Nat}
    (h : ∀ n, first ≤ n → n < last → R (UInt64.ofNat n) (UInt64.ofNat (n + 1))) :
    (interval first last).IsChain R := by
  refine List.isChain_iff_getElem.mpr fun k hk => ?_
  simp only [interval, List.length_map, List.length_range'] at hk
  simp only [interval, List.getElem_map, List.getElem_range', Nat.one_mul]
  exact h (first + k) (by omega) (by omega)

theorem fits_ofNat {n : Nat} (h : n < 2 ^ 63) : Fits (UInt64.ofNat n) := by
  rw [Fits, UInt64.toNat_ofNat_of_lt' (show n < 2 ^ 64 by omega)]
  exact h

theorem ofNat_inj {m n : Nat} (hm : m < 2 ^ 64) (hn : n < 2 ^ 64) :
    UInt64.ofNat m = UInt64.ofNat n ↔ m = n := by
  constructor
  · intro heq
    rw [← UInt64.toNat_ofNat_of_lt' hm, heq, UInt64.toNat_ofNat_of_lt' hn]
  · exact congrArg _

end FrameId

/-! ## The line -/

namespace CallGraph

/-- The graph in which each of the frames from 1 to a last one called the next. -/
def line (last : Nat) : CallGraph :=
  ⟨(List.range' 1 (last - 1)).map fun n => (UInt64.ofNat n, UInt64.ofNat (n + 1))⟩

variable {i last : Nat}

theorem mem_nodes_line {n : Nat} (hlast : 2 ≤ last) (hn : 1 ≤ n ∧ n ≤ last) :
    UInt64.ofNat n ∈ (line last).nodes := by
  refine List.mem_flatMap.mpr ?_
  by_cases h : n < last
  · refine ⟨(UInt64.ofNat n, UInt64.ofNat (n + 1)), List.mem_map.mpr ⟨n, ?_, rfl⟩, by simp⟩
    exact List.mem_range'_1.mpr (by omega)
  · obtain ⟨m, rfl⟩ : ∃ m, n = m + 1 := ⟨n - 1, by omega⟩
    refine ⟨(UInt64.ofNat m, UInt64.ofNat (m + 1)), List.mem_map.mpr ⟨m, ?_, rfl⟩, by simp⟩
    exact List.mem_range'_1.mpr (by omega)

theorem filter_eq_of_iff {ks : List Nat} (hks : ks.Nodup) {p : Nat → Bool}
    (hp : ∀ k ∈ ks, p k = true ↔ k = i) : ks.filter p = if i ∈ ks then [i] else [] := by
  have hcongr : ks.filter p = ks.filter (· == i) :=
    List.filter_congr fun k hk => by rw [Bool.eq_iff_iff, hp k hk, beq_iff_eq]
  rw [hcongr, List.filter_beq, hks.count]
  split <;> rfl

theorem callees_line (hlast : last < 2 ^ 64) (hi : 1 ≤ i ∧ i ≤ last) :
    (line last).callees (UInt64.ofNat i) = if i < last then [UInt64.ofNat (i + 1)] else [] := by
  have hcallees : (line last).callees (UInt64.ofNat i) =
      ((List.range' 1 (last - 1)).filter fun k => UInt64.ofNat k == UInt64.ofNat i).map
        fun k => UInt64.ofNat (k + 1) := by
    rw [callees, line, List.filter_map, List.map_map]
    rfl
  rw [hcallees, filter_eq_of_iff (i := i) List.nodup_range' fun k hk => by
    rw [List.mem_range'_1] at hk
    rw [beq_iff_eq, FrameId.ofNat_inj (by omega) (by omega)]]
  by_cases h : i < last
  · rw [if_pos h, if_pos (List.mem_range'_1.mpr (by omega)), List.map_singleton]
  · rw [if_neg h, if_neg fun hmem => h (by have := List.mem_range'_1.mp hmem; omega), List.map_nil]

theorem callers_line (hlast : last < 2 ^ 64) (hi : 1 ≤ i ∧ i ≤ last) :
    (line last).callers (UInt64.ofNat i) = if 1 < i then [UInt64.ofNat (i - 1)] else [] := by
  have hcallers : (line last).callers (UInt64.ofNat i) =
      ((List.range' 1 (last - 1)).filter fun k => UInt64.ofNat (k + 1) == UInt64.ofNat i).map
        fun k => UInt64.ofNat k := by
    rw [callers, line, List.filter_map, List.map_map]
    rfl
  rw [hcallers, filter_eq_of_iff (i := i - 1) List.nodup_range' fun k hk => by
    rw [List.mem_range'_1] at hk
    rw [beq_iff_eq, FrameId.ofNat_inj (by omega) (by omega)]
    omega]
  by_cases h : 1 < i
  · rw [if_pos h, if_pos (List.mem_range'_1.mpr (by omega)), List.map_singleton]
  · rw [if_neg h, if_neg fun hmem => h (by have := List.mem_range'_1.mp hmem; omega), List.map_nil]

theorem interval_subset_unreached (hlast : last < 2 ^ 64) (hi : 1 ≤ i ∧ i ≤ last) {first stop : Nat}
    (h : ∀ n, first ≤ n ∧ n ≤ stop → n ≠ i ∧ 1 ≤ n ∧ n ≤ last) :
    FrameId.interval first stop ⊆
      (line last).nodes.eraseDups.erase (UInt64.ofNat i) := by
  intro id hid
  obtain ⟨n, hfirst, hstop, rfl⟩ := FrameId.mem_interval.mp hid
  obtain ⟨hne, hn⟩ := h n ⟨hfirst, hstop⟩
  rw [mem_unreached_iff, Ne, FrameId.ofNat_inj (by omega) (by omega)]
  exact ⟨hne, mem_nodes_line (by omega) hn⟩

theorem trails_callees_line (hlast : last < 2 ^ 64) (hi : 1 ≤ i ∧ i ≤ last) :
    (line last).trails .callees (UInt64.ofNat i) =
      (FrameId.interval (i + 1) last).scanl Trail.extend (.start (UInt64.ofNat i)) := by
  have hline : UInt64.ofNat i :: FrameId.interval (i + 1) last = FrameId.interval i last :=
    (FrameId.interval_cons hi.2).symm
  refine explore_line (FrameId.nodup_interval _ hlast)
    (interval_subset_unreached hlast hi (by omega)) ?_ ?_
  · rw [Trail.last_start, hline]
    refine FrameId.isChain_interval fun n hfirst hlt => ?_
    exact (callees_line hlast (by omega)).trans (if_pos hlt)
  · rw [Trail.last_start, hline, FrameId.getLast?_interval hi.2]
    rintro _ ⟨⟩
    exact (callees_line hlast (by omega)).trans (if_neg (by omega))

theorem trails_callers_line (hlast : last < 2 ^ 64) (hi : 1 ≤ i ∧ i ≤ last) :
    (line last).trails .callers (UInt64.ofNat i) =
      (FrameId.interval 1 (i - 1)).reverse.scanl Trail.extend (.start (UInt64.ofNat i)) := by
  have hline : UInt64.ofNat i :: (FrameId.interval 1 (i - 1)).reverse =
      (FrameId.interval 1 i).reverse := by
    obtain ⟨k, rfl⟩ : ∃ k, i = k + 1 := ⟨i - 1, by omega⟩
    rw [FrameId.interval_concat (by omega), List.reverse_append]
    rfl
  refine explore_line (List.nodup_reverse.mpr (FrameId.nodup_interval _ (by omega)))
    (List.reverse_subset.mpr (interval_subset_unreached hlast hi (by omega))) ?_ ?_
  · rw [Trail.last_start, hline, List.isChain_reverse]
    refine FrameId.isChain_interval fun n hfirst hlt => ?_
    exact (callers_line hlast (by omega)).trans (if_pos (by omega))
  · rw [Trail.last_start, hline, List.getLast?_reverse, FrameId.interval_cons hi.1]
    rintro _ ⟨⟩
    exact (callers_line hlast (by omega)).trans (if_neg (by omega))

/-- From every frame of the line, those behind it are called one after another, and those before it
are its callers. -/
theorem chain_line (hlast : last < 2 ^ 64) (hi : 1 ≤ i ∧ i ≤ last) :
    (line last).chain (UInt64.ofNat i) .callees = FrameId.interval (i + 1) last ∧
    (line last).chain (UInt64.ofNat i) .callers = (FrameId.interval 1 (i - 1)).reverse := by
  constructor
  · rw [chain, trails_callees_line hlast hi, List.map_tail, Trail.map_last_scanl, List.tail_cons]
  · rw [chain, trails_callers_line hlast hi, List.map_tail, Trail.map_last_scanl, List.tail_cons]

theorem path?_line (hlast : last < 2 ^ 64) (hi : 1 ≤ i ∧ i ≤ last) {j : Nat}
    (hj : 1 ≤ j ∧ j ≤ last) : (line last).path? (UInt64.ofNat i) (UInt64.ofNat j) =
      if i ≤ j then some (FrameId.interval i j) else none := by
  have htrails := trails_callees_line hlast hi
  split
  · rename_i hij
    rw [path?_eq_some_iff, htrails, ← FrameId.interval_append (by omega : i + 1 ≤ j + 1) hj.2]
    obtain ⟨t, ht, hnodes⟩ := Trail.exists_mem_scanl (.start (UInt64.ofNat i))
      (FrameId.interval (i + 1) j) (FrameId.interval (j + 1) last)
    have hnodes : t.nodes = FrameId.interval i j := by
      rw [hnodes, FrameId.interval_cons hij]
      rfl
    refine ⟨t, ht, ?_, hnodes⟩
    have hend := FrameId.getLast?_interval hij
    rw [← hnodes, t.getLast?_nodes] at hend
    exact Option.some.inj hend
  · rename_i hij
    rw [Option.eq_none_iff_forall_ne_some]
    intro p hp
    obtain ⟨t, ht, hend, -⟩ := path?_eq_some_iff.mp hp
    rw [htrails] at ht
    have hmem := List.mem_map_of_mem (f := Trail.last) ht
    rw [Trail.map_last_scanl, hend, Trail.last_start, ← FrameId.interval_cons hi.2,
      FrameId.mem_interval] at hmem
    obtain ⟨n, hn, hle, hnj⟩ := hmem
    rw [FrameId.ofNat_inj (by omega) (by omega)] at hnj
    omega

end CallGraph

/-! ## Generated traces -/

theorem Draft.filterMap_call?_linkFrom (n : Nat) (time : UInt64) (drafts : List Draft) :
    (linkFrom (UInt64.ofNat (n + 1)) (some (UInt64.ofNat n)) time drafts).filterMap Frame.call? =
      (List.range' n drafts.length).map fun k => (UInt64.ofNat k, UInt64.ofNat (k + 1)) := by
  induction drafts generalizing n time with
  | nil => rfl
  | cons d drafts ih =>
      have hnext : UInt64.ofNat (n + 1) + 1 = UInt64.ofNat (n + 2) := (UInt64.ofNat_add _ 1).symm
      rw [linkFrom, hnext, List.length_cons, List.range'_succ, List.map_cons, ← ih]
      rfl

theorem Draft.filterMap_call?_link (drafts : List Draft) :
    (link drafts).filterMap Frame.call? = (CallGraph.line drafts.length).edges := by
  cases drafts with
  | nil => rfl
  | cons d drafts =>
      have hrest := filterMap_call?_linkFrom 1 (1000 + d.advance) drafts
      rw [link, linkFrom, List.filterMap_cons_none rfl]
      exact hrest

/-- Every frame of a trace but the first is called once. -/
theorem FactBase.length_facts_calls {drafts : List Draft} {b : FactBase}
    (h : ofFrames (Draft.link drafts) = .ok b) : (b.facts .calls).length = drafts.length - 1 := by
  have hrows : ∀ r : Frame, (r.rows .calls).length = r.call?.toList.length := fun r => by
    cases hc : r.caller <;> simp [Frame.rows, Frame.call?, hc]
  rw [length_facts_of_ofFrames h, List.length_flatMap]
  simp only [hrows]
  rw [← List.length_flatMap, ← List.filterMap_eq_flatMap_toList, Draft.filterMap_call?_link,
    CallGraph.line, List.length_map, List.length_range']

/-- The calls of a trace that is not too long make up a line. -/
theorem FactBase.callGraph_of_link {drafts : List Draft} {b : FactBase}
    (h : ofFrames (Draft.link drafts) = .ok b) (hlen : drafts.length < 2 ^ 63) :
    b.callGraph = .line drafts.length := by
  have hedges : b.callGraph.edges = (CallGraph.line drafts.length).edges := by
    rw [edges_of_ofFrames h, Draft.filterMap_call?_link, List.filter_eq_self]
    intro e he
    obtain ⟨n, hn, rfl⟩ := List.mem_map.mp he
    rw [List.mem_range'_1] at hn
    exact decide_eq_true ⟨FrameId.fits_ofNat (by omega), FrameId.fits_ofNat (by omega)⟩
  calc b.callGraph = ⟨b.callGraph.edges⟩ := rfl
    _ = .line drafts.length := by rw [hedges]

end FrameLog
