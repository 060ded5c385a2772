import FrameLog.Proofs.Search

/-!
# The order of discovery

The search looks at nodes in the order in which it found them. A node is found from the first one that
leads to it, and what one node leads to is found in the order in which it is listed.
-/

namespace FrameLog

variable {α : Type} [DecidableEq α] {next : α → List α} {unreached : List α} {queue : List (Trail α)}

/-! ## Discovery -/

theorem discover_nodup (h : unreached.Nodup) (candidates : List α) :
    ((discover unreached candidates).1 ++ (discover unreached candidates).2).Nodup :=
  (discover_perm unreached candidates).nodup_iff.mpr h

/-- The new candidates are discovered in the order of their first places. -/
theorem discover_eq (h : unreached.Nodup) (candidates : List α) :
    (discover unreached candidates).1 = (candidates.filter (· ∈ unreached)).eraseDups := by
  induction candidates generalizing unreached with
  | nil => rfl
  | cons c rest ih =>
      simp only [discover]
      split
      · rename_i hc
        have hrest : (rest.filter (· ∈ unreached)).filter (fun a => !a == c) =
            rest.filter (· ∈ unreached.erase c) := by
          rw [List.filter_filter]
          refine List.filter_congr fun a _ => ?_
          rw [Bool.eq_iff_iff]
          simp [h.mem_erase_iff]
        rw [List.filter_cons_of_pos (by simpa using hc), List.eraseDups_cons, hrest,
          ih (h.erase c)]
      · rename_i hc
        rw [List.filter_cons_of_neg (by simpa using hc), ih h]

theorem pairwise_idxOf_discover (h : unreached.Nodup) (candidates : List α) :
    (discover unreached candidates).1.Pairwise
      fun a b => candidates.idxOf a < candidates.idxOf b := by
  induction candidates generalizing unreached with
  | nil => exact .nil
  | cons c rest ih =>
      have hother : ∀ {a}, a ≠ c → (c :: rest).idxOf a = rest.idxOf a + 1 := fun hac =>
        List.idxOf_cons_ne rest hac.symm
      simp only [discover]
      split
      · have hfound : ∀ a ∈ (discover (unreached.erase c) rest).1, a ≠ c := fun a ha =>
          (h.mem_erase_iff.mp (mem_discover_iff.mp ha).2).1
        refine List.pairwise_cons.mpr ⟨fun a ha => ?_, ?_⟩
        · rw [List.idxOf_cons_self, hother (hfound a ha)]
          exact Nat.succ_pos _
        · refine (ih (h.erase c)).imp_of_mem fun ha hb hab => ?_
          rw [hother (hfound _ ha), hother (hfound _ hb)]
          exact Nat.succ_lt_succ hab
      · rename_i hc
        refine (ih h).imp_of_mem fun ha hb hab => ?_
        rw [hother (ne_of_mem_of_not_mem (mem_discover_iff.mp ha).2 hc),
          hother (ne_of_mem_of_not_mem (mem_discover_iff.mp hb).2 hc)]
        exact Nat.succ_lt_succ hab

/-! ## Exploration -/

theorem prefix_explore : queue <+: explore next unreached queue := by
  fun_induction explore next unreached queue with
  | case1 => exact List.prefix_rfl
  | case2 unreached t queue found left ih =>
      exact (List.prefix_cons_inj t).mpr ((List.prefix_append _ _).trans ih)

/-- A node that was not reached before is found from the first trail that leads to it. -/
theorem exists_discoverer {t : Trail α} (ht : t ∈ explore next unreached queue) {a : α}
    (ha : a ∈ next t.last) (hnew : a ∈ unreached) : ∃ s ∈ explore next unreached queue,
      s.extend a ∈ explore next unreached queue ∧
      (s = t ∨ [s, t].Sublist (explore next unreached queue)) := by
  fun_induction explore next unreached queue with
  | case1 => cases ht
  | case2 unreached s queue found left ih =>
      by_cases hfound : a ∈ found
      · refine ⟨s, List.mem_cons_self, List.mem_cons_of_mem _ (mem_explore_of_mem ?_), ?_⟩
        · exact List.mem_append_right _ (List.mem_map_of_mem hfound)
        · rcases List.mem_cons.mp ht with rfl | ht
          · exact .inl rfl
          · exact .inr ((List.singleton_sublist.mpr ht).cons_cons s)
      · have hleft : a ∈ left :=
          (List.mem_append.mp ((discover_perm unreached (next s.last)).mem_iff.mpr hnew)).resolve_left
            hfound
        rcases List.mem_cons.mp ht with rfl | ht
        · exact absurd (mem_discover_iff.mpr ⟨ha, hnew⟩) hfound
        · obtain ⟨u, hu, hextend, horder⟩ := ih ht hleft
          exact ⟨u, List.mem_cons_of_mem _ hu, List.mem_cons_of_mem _ hextend,
            horder.imp_right (·.cons s)⟩

/-- The nodes of a trail were found one after another, from a trail of the queue on. -/
theorem exists_nodes_sublist {t : Trail α} (ht : t ∈ explore next unreached queue) :
    ∃ s ∈ queue, ∃ w, t.nodes = s.nodes ++ w ∧
      (s.last :: w).Sublist ((explore next unreached queue).map (·.last)) := by
  fun_induction explore next unreached queue with
  | case1 => cases ht
  | case2 unreached s queue found left ih =>
      rcases List.mem_cons.mp ht with rfl | ht
      · refine ⟨t, List.mem_cons_self, [], (List.append_nil _).symm, ?_⟩
        exact (List.nil_sublist _).cons_cons t.last
      · obtain ⟨u, hu, w, hnodes, hsub⟩ := ih ht
        rcases List.mem_append.mp hu with hu | hu
        · exact ⟨u, List.mem_cons_of_mem _ hu, w, hnodes, hsub.cons _⟩
        · obtain ⟨a, -, rfl⟩ := List.mem_map.mp hu
          refine ⟨s, List.mem_cons_self, a :: w, ?_, hsub.cons_cons s.last⟩
          rw [hnodes, Trail.nodes_extend, List.append_assoc]
          rfl

/-- The relation respects how a search goes: what comes from a trail stands behind it, the order of
two trails is that of what comes from them, and what one trail leads to keeps the order in which it is
listed. -/
structure FollowsSearch (next : α → List α) (R : Trail α → Trail α → Prop) : Prop where
  trans : ∀ {s t u : Trail α}, R s t → R t u → R s u
  child : ∀ (t : Trail α) (a : α), R t (t.extend a)
  extend : ∀ {s t : Trail α} (a b : α), R s t → R (s.extend a) (t.extend b)
  sibling : ∀ (t : Trail α) {a b : α}, (next t.last).idxOf a < (next t.last).idxOf b →
    R (t.extend a) (t.extend b)

/-- Trails are found in any order that follows the search. -/
theorem FollowsSearch.pairwise_explore {R : Trail α → Trail α → Prop} (hR : FollowsSearch next R)
    (hunreached : unreached.Nodup) (hqueue : queue.Pairwise R)
    (hahead : ∀ s ∈ queue, ∀ t ∈ queue, ∀ a, R s (t.extend a)) :
    (explore next unreached queue).Pairwise R := by
  fun_induction explore next unreached queue with
  | case1 => exact .nil
  | case2 unreached t queue found left ih =>
      obtain ⟨ht, hrest⟩ := List.pairwise_cons.mp hqueue
      have hmem : ∀ s ∈ queue, s ∈ t :: queue := fun s hs => List.mem_cons_of_mem t hs
      have hleft : left.Nodup :=
        (discover_nodup hunreached (next t.last)).sublist (List.sublist_append_right found left)
      refine List.pairwise_cons.mpr ⟨?_, ih hleft ?_ ?_⟩
      · -- all that is found later comes from what stands behind the head
        refine forall_mem_explore (fun s hs => ?_) fun s hs a _ => hR.trans hs (hR.child s a)
        rcases List.mem_append.mp hs with hs | hs
        · exact ht s hs
        · obtain ⟨a, -, rfl⟩ := List.mem_map.mp hs
          exact hR.child t a
      · refine List.pairwise_append.mpr ⟨hrest, ?_, fun s hs u hu => ?_⟩
        · refine List.pairwise_map.mpr ?_
          exact (pairwise_idxOf_discover hunreached (next t.last)).imp fun h => hR.sibling t h
        · obtain ⟨a, -, rfl⟩ := List.mem_map.mp hu
          exact hahead s (hmem s hs) t List.mem_cons_self a
      · intro s hs u hu a
        rcases List.mem_append.mp hs with hs | hs <;> rcases List.mem_append.mp hu with hu | hu
        · exact hahead s (hmem s hs) u (hmem u hu) a
        · obtain ⟨b, -, rfl⟩ := List.mem_map.mp hu
          exact hR.trans (hahead s (hmem s hs) t List.mem_cons_self b) (hR.child _ a)
        · obtain ⟨b, -, rfl⟩ := List.mem_map.mp hs
          exact hR.extend b a (ht u hu)
        · obtain ⟨b, -, rfl⟩ := List.mem_map.mp hs
          obtain ⟨c, -, rfl⟩ := List.mem_map.mp hu
          exact hR.extend b a (hR.child t c)

/-! ## All trails from a start -/

variable {nodes : List α} {start : α}

theorem nodup_unreached (nodes : List α) (start : α) : (nodes.eraseDups.erase start).Nodup :=
  (nodup_eraseDups nodes).erase start

theorem FollowsSearch.pairwise_trails {R : Trail α → Trail α → Prop} (hR : FollowsSearch next R) :
    (trails nodes next start).Pairwise R := by
  refine hR.pairwise_explore (nodup_unreached nodes start) (List.pairwise_singleton _ _) ?_
  intro s hs t ht a
  obtain rfl := List.mem_singleton.mp hs
  obtain rfl := List.mem_singleton.mp ht
  exact hR.child _ a

/-- The search goes on from its start, first to the nodes that the start leads to, in the order in
which they are listed. -/
theorem exists_trails_eq (hnodes : ∀ a ∈ next start, a ∈ nodes) : ∃ rest,
    (trails nodes next start).map (·.last) =
      start :: (((next start).filter (· ≠ start)).eraseDups ++ rest) := by
  have hfound : (discover (nodes.eraseDups.erase start) (next start)).1 =
      ((next start).filter (· ≠ start)).eraseDups := by
    rw [discover_eq (nodup_unreached nodes start)]
    congr 1
    refine List.filter_congr fun a ha => ?_
    rw [Bool.eq_iff_iff]
    simp [mem_unreached_iff, hnodes a ha]
  have hstep : ∃ left, trails nodes next start = Trail.start start :: explore next left
      (((next start).filter (· ≠ start)).eraseDups.map (Trail.start start).extend) := by
    rw [trails, explore, ← hfound]
    exact ⟨_, rfl⟩
  obtain ⟨left, hstep⟩ := hstep
  obtain ⟨rest, hrest⟩ : _ <+: explore next left _ := prefix_explore
  refine ⟨rest.map (·.last), ?_⟩
  rw [hstep, ← hrest, List.map_cons, List.map_append, Trail.map_last_extend]
  rfl

end FrameLog
