import FrameLog.Proofs.Distinct
import FrameLog.Search
import Mathlib.Data.List.Chain
import Mathlib.Data.List.Perm.Subperm

/-!
# Breadth-first search finds shortest walks

Every trail of the search is a walk from the start, every node in reach is the last node of exactly
one trail, and no walk to that node is shorter.
-/

namespace FrameLog

variable {α : Type}

/-! ## Walks -/

/-- The nodes lead from `a` to `b`, every one but the first related to the one before it. -/
structure IsWalk (R : α → α → Prop) (a b : α) (w : List α) : Prop where
  head : w.head? = some a
  last : w.getLast? = some b
  steps : w.IsChain R

namespace IsWalk

variable {R : α → α → Prop} {a b c : α} {w : List α}

theorem single (R : α → α → Prop) (a : α) : IsWalk R a a [a] := ⟨rfl, rfl, .singleton a⟩

theorem ne_nil (h : IsWalk R a b w) : w ≠ [] := by
  rintro rfl
  cases h.head

theorem concat (h : IsWalk R a b w) (hbc : R b c) : IsWalk R a c (w ++ [c]) := by
  refine ⟨?_, List.getLast?_concat, ?_⟩
  · rw [List.head?_append_of_ne_nil _ h.ne_nil]
    exact h.head
  · refine List.isChain_append.mpr ⟨h.steps, .singleton c, fun x hx y hy => ?_⟩
    obtain rfl : b = x := Option.some.inj (h.last.symm.trans hx)
    obtain rfl : c = y := Option.some.inj hy
    exact hbc

/-- A walk stays at its start or has a last step. -/
theorem cases_last (h : IsWalk R a b w) :
    (w = [a] ∧ a = b) ∨ ∃ v c, w = v ++ [b] ∧ IsWalk R a c v ∧ R c b := by
  obtain ⟨v, rfl⟩ := List.getLast?_eq_some_iff.mp h.last
  cases v using List.reverseRecOn with
  | nil =>
      obtain rfl := Option.some.inj h.head
      exact .inl ⟨rfl, rfl⟩
  | append_singleton v c =>
      obtain ⟨hv, -, hstep⟩ := List.isChain_append.mp h.steps
      refine .inr ⟨v ++ [c], c, rfl, ⟨?_, List.getLast?_concat, hv⟩, ?_⟩
      · have hhead := h.head
        rwa [List.head?_append_of_ne_nil _ (by simp)] at hhead
      · exact hstep c (by simp) b rfl

/-- A walk that leaves its start is told by the nodes between its ends. -/
theorem eq_cons_concat (h : IsWalk R a b w) (hlen : 2 ≤ w.length) : ∃ v, w = a :: (v ++ [b]) := by
  obtain ⟨v, rfl⟩ := List.getLast?_eq_some_iff.mp h.last
  cases v with
  | nil => simp at hlen
  | cons c v =>
      obtain rfl : c = a := by simpa using h.head
      exact ⟨v, rfl⟩

theorem two_le_length (h : IsWalk R a b w) (hab : a ≠ b) : 2 ≤ w.length := by
  rcases h.cases_last with ⟨-, heq⟩ | ⟨v, c, rfl, hv, -⟩
  · exact absurd heq hab
  · have := List.length_pos_of_ne_nil hv.ne_nil
    simp only [List.length_append, List.length_singleton]
    omega

/-- What a walk visits leads on to its end. -/
theorem reflTransGen_of_mem (h : IsWalk R a b w) (hc : c ∈ w) : Relation.ReflTransGen R c b := by
  obtain ⟨u, v, rfl⟩ := List.append_of_mem hc
  obtain ⟨-, hsteps, -⟩ := List.isChain_append.mp h.steps
  refine List.relationReflTransGen_of_exists_isChain_cons v hsteps (Option.some.inj ?_)
  rw [← List.getLast?_eq_some_getLast, ← h.last, List.getLast?_append_cons]

end IsWalk

/-- There is a walk exactly to what is within reach. -/
theorem exists_isWalk_iff {R : α → α → Prop} {a b : α} :
    (∃ w, IsWalk R a b w) ↔ Relation.ReflTransGen R a b := by
  constructor
  · rintro ⟨w, hw⟩
    exact hw.reflTransGen_of_mem (List.mem_of_mem_head? hw.head)
  · intro h
    induction h with
    | refl => exact ⟨[a], .single R a⟩
    | tail _ hstep ih =>
        obtain ⟨w, hw⟩ := ih
        exact ⟨_, hw.concat hstep⟩

/-! ## Trails -/

namespace Trail

/-- The number of steps. -/
def length (t : Trail α) : Nat := t.before.length

@[simp] theorem last_extend (t : Trail α) (a : α) : (t.extend a).last = a := rfl

theorem map_last_extend (t : Trail α) (as : List α) : (as.map t.extend).map (·.last) = as := by
  simp [Function.comp_def]

theorem extend_inj {s t : Trail α} {a b : α} (h : s.extend a = t.extend b) :
    s = t ∧ a = b := by
  obtain ⟨ha, hcons⟩ := Trail.mk.inj h
  obtain ⟨hlast, hbefore⟩ := List.cons.inj hcons
  exact ⟨by cases s; cases t; congr, ha⟩

theorem nodes_extend (t : Trail α) (a : α) : (t.extend a).nodes = t.nodes ++ [a] := by
  simp [nodes, extend]

theorem length_nodes (t : Trail α) : t.nodes.length = t.length + 1 := by simp [nodes, length]

theorem getLast?_nodes (t : Trail α) : t.nodes.getLast? = some t.last := by simp [nodes]

end Trail

/-! ## Discovery -/

section

variable [DecidableEq α]

theorem mem_discover_iff {unreached candidates : List α} {a : α} :
    a ∈ (discover unreached candidates).1 ↔ a ∈ candidates ∧ a ∈ unreached := by
  induction candidates generalizing unreached with
  | nil => simp [discover]
  | cons c rest ih =>
      simp only [discover]
      split
      · rename_i hc
        by_cases hac : a = c
        · simp [hac, hc]
        · simp [hac, ih, List.mem_erase_of_ne hac]
      · rename_i hc
        rw [ih, List.mem_cons]
        by_cases hac : a = c
        · simp [hac, hc]
        · simp [hac]

/-- What is discovered and what is left make up what was unreached. -/
theorem discover_perm (unreached candidates : List α) :
    ((discover unreached candidates).1 ++ (discover unreached candidates).2).Perm unreached := by
  induction candidates generalizing unreached with
  | nil => exact .refl _
  | cons c rest ih =>
      simp only [discover]
      split
      · rename_i hc
        exact ((ih (unreached.erase c)).cons c).trans (List.perm_cons_erase hc).symm
      · exact ih unreached

end

/-! ## The queue -/

/-- The trails in the queue stand in ascending order of their lengths, which differ by one at most. -/
structure Ordered (queue : List (Trail α)) : Prop where
  sorted : queue.Pairwise fun s t => s.length ≤ t.length
  near : ∀ s ∈ queue, ∀ t ∈ queue, t.length ≤ s.length + 1

theorem ordered_start (a : α) : Ordered [Trail.start a] :=
  ⟨List.pairwise_singleton _ _, by simp⟩

theorem Ordered.step {t : Trail α} {queue : List (Trail α)} (h : Ordered (t :: queue))
    (found : List α) : Ordered (queue ++ found.map t.extend) := by
  obtain ⟨ht, hsorted⟩ := List.pairwise_cons.mp h.sorted
  have hnear : ∀ s ∈ queue, s.length ≤ t.length + 1 := fun s hs =>
    h.near t List.mem_cons_self s (List.mem_cons_of_mem _ hs)
  have hfound : ∀ s ∈ found.map t.extend, s.length = t.length + 1 := by
    intro s hs
    obtain ⟨a, -, rfl⟩ := List.mem_map.mp hs
    rfl
  constructor
  · refine List.pairwise_append.mpr ⟨hsorted, ?_, fun s hs u hu => ?_⟩
    · exact List.pairwise_map.mpr (List.pairwise_of_forall fun _ _ => Nat.le_refl _)
    · rw [hfound u hu]
      exact hnear s hs
  · intro s hs u hu
    rcases List.mem_append.mp hs with hs | hs <;> rcases List.mem_append.mp hu with hu | hu
    · exact h.near s (List.mem_cons_of_mem _ hs) u (List.mem_cons_of_mem _ hu)
    · have := ht s hs
      have := hfound u hu
      omega
    · have := hfound s hs
      have := hnear u hu
      omega
    · have := hfound s hs
      have := hfound u hu
      omega

/-! ## Exploration -/

section

variable [DecidableEq α] {next : α → List α} {unreached : List α} {queue : List (Trail α)}

theorem mem_explore_of_mem {t : Trail α} (ht : t ∈ queue) : t ∈ explore next unreached queue := by
  fun_induction explore next unreached queue with
  | case1 => cases ht
  | case2 unreached s queue found left ih =>
      rcases List.mem_cons.mp ht with rfl | ht
      · exact List.mem_cons_self
      · exact List.mem_cons_of_mem _ (ih (List.mem_append_left _ ht))

/-- What one step further preserves holds of every trail that is found. -/
theorem forall_mem_explore {P : Trail α → Prop} (hqueue : ∀ t ∈ queue, P t)
    (hstep : ∀ t, P t → ∀ a ∈ next t.last, P (t.extend a)) :
    ∀ t ∈ explore next unreached queue, P t := by
  fun_induction explore next unreached queue with
  | case1 => simp
  | case2 unreached s queue found left ih =>
      have hs := hqueue s List.mem_cons_self
      refine List.forall_mem_cons.mpr ⟨hs, ih fun t ht => ?_⟩
      rcases List.mem_append.mp ht with ht | ht
      · exact hqueue t (List.mem_cons_of_mem _ ht)
      · obtain ⟨a, ha, rfl⟩ := List.mem_map.mp ht
        exact hstep s hs a (mem_discover_iff.mp ha).1

/-- No node is the last one of two trails. -/
theorem subperm_explore : ((explore next unreached queue).map (·.last)).Subperm
    (queue.map (·.last) ++ unreached) := by
  fun_induction explore next unreached queue with
  | case1 => exact List.nil_subperm
  | case2 unreached s queue found left ih =>
      rw [List.map_append, s.map_last_extend, List.append_assoc] at ih
      refine ((List.subperm_cons s.last).mpr ih).trans ?_
      have hperm := (discover_perm unreached (next s.last)).append_left (queue.map (·.last))
      exact (hperm.cons s.last).subperm

/-- No trail is shorter than the head of the queue. -/
theorem Ordered.head_le {s : Trail α} (hqueue : Ordered (s :: queue)) :
    ∀ t ∈ explore next unreached (s :: queue), s.length ≤ t.length := by
  refine forall_mem_explore ?_ fun t ht _ _ => Nat.le_succ_of_le ht
  exact List.forall_mem_cons.mpr ⟨Nat.le_refl _, (List.pairwise_cons.mp hqueue.sorted).1⟩

/-- A node that is next to a reached one and was not reached before is reached by one step more at
most: if not from that node, then from one that was looked at earlier. -/
theorem exists_next_of_mem_explore (hqueue : Ordered queue) :
    ∀ t ∈ explore next unreached queue, ∀ a ∈ next t.last, a ∈ unreached →
      ∃ u ∈ explore next unreached queue, u.last = a ∧ u.length ≤ t.length + 1 := by
  fun_induction explore next unreached queue with
  | case1 => simp
  | case2 unreached s queue found left ih =>
      intro t ht a ha hnew
      have hfrom : a ∈ found → ∃ u ∈ s :: explore next left (queue ++ found.map s.extend),
          u.last = a ∧ u.length = s.length + 1 := by
        intro hfound
        have hmem : s.extend a ∈ queue ++ found.map s.extend :=
          List.mem_append_right _ (List.mem_map_of_mem hfound)
        exact ⟨s.extend a, List.mem_cons_of_mem _ (mem_explore_of_mem hmem), rfl, rfl⟩
      have hsplit : a ∈ found ∨ a ∈ left :=
        List.mem_append.mp ((discover_perm unreached (next s.last)).mem_iff.mpr hnew)
      have hexplore : t ∈ explore next unreached (s :: queue) := by
        rw [explore]
        exact ht
      have hle : s.length ≤ t.length := hqueue.head_le t hexplore
      -- the head of the queue reaches the node now, or a later trail does, as the queue stays ordered
      rcases hsplit with hfound | hleft
      · obtain ⟨u, hu, hua, hlen⟩ := hfrom hfound
        exact ⟨u, hu, hua, by omega⟩
      · rcases List.mem_cons.mp ht with rfl | ht
        · obtain ⟨u, hu, hua, hlen⟩ := hfrom (mem_discover_iff.mpr ⟨ha, hnew⟩)
          exact ⟨u, hu, hua, by omega⟩
        · obtain ⟨u, hu, hua, hlen⟩ := ih (hqueue.step found) t ht a ha hleft
          exact ⟨u, List.mem_cons_of_mem _ hu, hua, hlen⟩

/-! ## All trails from a start -/

variable {nodes : List α} {start : α}

theorem mem_unreached_iff {a : α} : a ∈ nodes.eraseDups.erase start ↔ a ≠ start ∧ a ∈ nodes := by
  rw [(nodup_eraseDups nodes).mem_erase_iff, List.mem_eraseDups]

theorem isWalk_of_mem_trails : ∀ t ∈ trails nodes next start,
    IsWalk (fun a b => b ∈ next a) start t.last t.nodes := by
  refine forall_mem_explore (fun t ht => ?_) fun t ht a ha => ?_
  · obtain rfl := List.mem_singleton.mp ht
    exact .single _ start
  · rw [Trail.nodes_extend]
    exact ht.concat ha

theorem nodup_trails : ((trails nodes next start).map (·.last)).Nodup := by
  have hsource : (start :: nodes.eraseDups.erase start).Nodup :=
    List.nodup_cons.mpr
      ⟨fun h => (mem_unreached_iff.mp h).1 rfl, (nodup_eraseDups nodes).erase start⟩
  have hsubperm : ((trails nodes next start).map (·.last)).Subperm
      (start :: nodes.eraseDups.erase start) := subperm_explore
  obtain ⟨l, hperm, hsub⟩ := hsubperm
  exact hperm.nodup_iff.mp (hsub.nodup hsource)

/-- Every walk from the start has a trail to its end that is not longer. -/
theorem exists_trail_of_isWalk (hnodes : ∀ a, ∀ b ∈ next a, b ∈ nodes) {b : α} {w : List α}
    (hw : IsWalk (fun a b => b ∈ next a) start b w) :
    ∃ t ∈ trails nodes next start, t.last = b ∧ t.nodes.length ≤ w.length := by
  have hstart : Trail.start start ∈ trails nodes next start :=
    mem_explore_of_mem (List.mem_singleton_self _)
  -- by the length of the walk: the trail to its last node but one leads on to its end
  induction hlen : w.length generalizing w b with
  | zero => exact absurd (List.length_eq_zero_iff.mp hlen) hw.ne_nil
  | succ n ih =>
      by_cases hb : b = start
      · exact ⟨Trail.start start, hstart, hb.symm, by simp [Trail.nodes, Trail.start]⟩
      rcases hw.cases_last with ⟨-, hstay⟩ | ⟨v, c, rfl, hv, hcb⟩
      · exact absurd hstay.symm hb
      · rw [List.length_append, List.length_singleton, Nat.succ_inj] at hlen
        obtain ⟨t, ht, rfl, hle⟩ := ih hv hlen
        have hnew : b ∈ nodes.eraseDups.erase start :=
          mem_unreached_iff.mpr ⟨hb, hnodes t.last b hcb⟩
        obtain ⟨u, hu, rfl, hstep⟩ :=
          exists_next_of_mem_explore (ordered_start start) t ht b hcb hnew
        refine ⟨u, hu, rfl, ?_⟩
        rw [Trail.length_nodes] at hle ⊢
        omega

/-- The trails end at what is within reach of the start. -/
theorem mem_map_last_trails_iff (hnodes : ∀ a, ∀ b ∈ next a, b ∈ nodes) {b : α} :
    b ∈ (trails nodes next start).map (·.last) ↔
      Relation.ReflTransGen (fun a b => b ∈ next a) start b := by
  rw [← exists_isWalk_iff, List.mem_map]
  constructor
  · rintro ⟨t, ht, rfl⟩
    exact ⟨t.nodes, isWalk_of_mem_trails t ht⟩
  · rintro ⟨w, hw⟩
    obtain ⟨t, ht, hlast, -⟩ := exists_trail_of_isWalk hnodes hw
    exact ⟨t, ht, hlast⟩

end

end FrameLog
