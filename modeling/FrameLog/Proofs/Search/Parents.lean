import FrameLog.Proofs.Search.Order
import Mathlib.Data.List.Nodup

/-!
# Searching for one node

A search for one node stops as soon as it finds it, and keeps no trails: it only notes the node that
each one was found from. The way back along these parents reaches the start and is the trail to the
node.
-/

namespace FrameLog

variable {α : Type}

/-! ## The way back -/

/-- The way from the start to a node, found by going back from parent to parent. There is none when
a parent is missing before the start is met. -/
inductive Unwinds (parent? : α → Option α) (start : α) : α → List α → Prop
  | start : Unwinds parent? start start [start]
  | step {b c : α} {w : List α} (hne : c ≠ start) (hparent : parent? c = some b)
      (h : Unwinds parent? start b w) : Unwinds parent? start c (w ++ [c])

namespace Unwinds

variable {parent? parent?' : α → Option α} {start c : α} {v w : List α}

theorem mono (h : Unwinds parent? start c w)
    (hle : ∀ a b, parent? a = some b → parent?' a = some b) : Unwinds parent?' start c w := by
  induction h with
  | start => exact .start
  | step hne hparent _ ih => exact .step hne (hle _ _ hparent) ih

theorem unique (hv : Unwinds parent? start c v) (hw : Unwinds parent? start c w) : v = w := by
  induction hv generalizing w with
  | start =>
      cases hw with
      | start => rfl
      | step hne => exact absurd rfl hne
  | step hne hparent _ ih =>
      cases hw with
      | start => exact absurd rfl hne
      | step _ hparent' h' =>
          obtain rfl := Option.some.inj (hparent.symm.trans hparent')
          rw [ih h']

end Unwinds

section

variable [DecidableEq α]

/-! ## Going back -/

theorem lookup_eraseP_of_ne {a c : α} (h : a ≠ c) (parents : List (α × α)) :
    (parents.eraseP (·.1 == c)).lookup a = parents.lookup a := by
  induction parents with
  | nil => rfl
  | cons e parents ih =>
      by_cases hc : e.1 = c
      · have hne : (a == e.1) = false := beq_eq_false_iff_ne.mpr (hc ▸ h)
        rw [List.eraseP_cons_of_pos (by simpa using hc), List.lookup_cons, hne]
      · rw [List.eraseP_cons_of_neg (by simpa using hc), List.lookup_cons, List.lookup_cons, ih]

/-- Where there is a way back that meets no node twice, going back takes it. -/
theorem Unwinds.unwind_eq {parents : List (α × α)} {start c : α} {w : List α}
    (h : Unwinds (parents.lookup ·) start c w) (hw : w.Nodup) (after : List α) :
    unwind parents start c after = w ++ after := by
  -- the notes that are not used yet have the parents of all that is still to be met
  suffices hnotes : ∀ {parent? : α → Option α} {c : α} {w : List α}, Unwinds parent? start c w →
      w.Nodup → ∀ (notes : List (α × α)) (after : List α),
        (∀ a ∈ w, notes.lookup a = parent? a) → unwind notes start c after = w ++ after from
    hnotes h hw parents after fun _ _ => rfl
  intro parent? c w h
  induction h with
  | start =>
      intro _ notes after _
      rw [unwind, if_pos rfl]
      rfl
  | @step b c w hne hparent _ ih =>
      intro hw notes after hnotes
      obtain ⟨hw, -, hdisjoint⟩ := List.nodup_append.mp hw
      have hlookup : notes.lookup c = some b := (hnotes c (by simp)).trans hparent
      rw [unwind, if_neg hne]
      split
      · rename_i hnone
        rw [hlookup] at hnone
        cases hnone
      · rename_i p hp
        obtain rfl := Option.some.inj (hp.symm.trans hlookup)
        rw [ih hw, List.append_assoc, List.singleton_append]
        intro a ha
        rw [lookup_eraseP_of_ne (hdisjoint a ha c (List.mem_singleton_self c))]
        exact hnotes a (List.mem_append_left _ ha)

/-! ## The search -/

theorem lookup_foundFrom {c a : α} {found : List α} (h : a ∈ found) :
    (foundFrom c found).lookup a = some c := by
  induction found with
  | nil => cases h
  | cons b found ih =>
      change List.lookup a ((b, c) :: foundFrom c found) = some c
      by_cases hab : a = b
      · simp [hab]
      · have hne : (a == b) = false := beq_eq_false_iff_ne.mpr hab
        simpa [List.lookup_cons, hne] using ih ((List.mem_cons.mp h).resolve_left hab)

theorem lookup_foundFrom_of_notMem {c a : α} {found : List α} (h : a ∉ found) :
    (foundFrom c found).lookup a = none := by
  refine List.lookup_eq_none_iff.mpr fun e he => ?_
  obtain ⟨b, hb, rfl⟩ := List.mem_map.mp he
  simpa using fun hab : a = b => h (hab ▸ hb)

variable {next : α → List α} {target start : α} {unreached : List α} {parents : List (α × α)}
  {queue : List (Trail α)}

theorem Unwinds.append {c : α} {w : List α} (h : Unwinds (parents.lookup ·) start c w)
    (more : List (α × α)) : Unwinds ((parents ++ more).lookup ·) start c w :=
  h.mono fun a b hab => by rw [List.lookup_append, hab, Option.some_or]

/-- A node that was just found is one step further than the node it was found from. -/
theorem Unwinds.extend {t : Trail α} {a : α} {found : List α}
    (ht : Unwinds (parents.lookup ·) start t.last t.nodes) (ha : a ∈ found) (hne : a ≠ start)
    (hnew : parents.lookup a = none) :
    Unwinds ((parents ++ foundFrom t.last found).lookup ·) start a (t.extend a).nodes := by
  rw [t.nodes_extend]
  refine .step hne ?_ (ht.append _)
  rw [List.lookup_append, hnew, lookup_foundFrom ha, Option.none_or]

/-- No parent is noted for the nodes that are still unreached, and the noted ones lead back along
every trail in the queue. -/
structure Noted (start : α) (unreached : List α) (parents : List (α × α)) (queue : List (Trail α)) :
    Prop where
  start_notMem : start ∉ unreached
  nodup : unreached.Nodup
  fresh : ∀ a ∈ unreached, parents.lookup a = none
  unwinds : ∀ t ∈ queue, Unwinds (parents.lookup ·) start t.last t.nodes

namespace Noted

theorem unwinds_extend {s : Trail α} (h : Noted start unreached parents (s :: queue)) {a : α}
    {found : List α} (ha : a ∈ found) (hnew : a ∈ unreached) :
    Unwinds ((parents ++ foundFrom s.last found).lookup ·) start a (s.extend a).nodes :=
  (h.unwinds s List.mem_cons_self).extend ha (ne_of_mem_of_not_mem hnew h.start_notMem)
    (h.fresh a hnew)

/-- Looking at the head of the queue and noting all that it leads to keeps the parents in order. -/
theorem step {s : Trail α} (h : Noted start unreached parents (s :: queue)) :
    let found := (discover unreached (next s.last)).1
    let left := (discover unreached (next s.last)).2
    Noted start left (parents ++ foundFrom s.last found) (queue ++ found.map s.extend) := by
  intro found left
  obtain ⟨-, hnodup, hdisjoint⟩ := List.nodup_append.mp (discover_nodup h.nodup (next s.last))
  have hleft : ∀ a ∈ left, a ∈ unreached := fun a ha =>
    (discover_perm unreached (next s.last)).subset (List.mem_append_right _ ha)
  refine ⟨fun hstart => h.start_notMem (hleft start hstart), hnodup, fun a ha => ?_, fun t ht => ?_⟩
  · rw [List.lookup_append, h.fresh a (hleft a ha), Option.none_or]
    exact lookup_foundFrom_of_notMem fun hfound => hdisjoint a hfound a ha rfl
  · rcases List.mem_append.mp ht with ht | ht
    · exact (h.unwinds t (List.mem_cons_of_mem _ ht)).append _
    · obtain ⟨a, ha, rfl⟩ := List.mem_map.mp ht
      exact h.unwinds_extend ha (mem_discover_iff.mp ha).2

end Noted

/-- A search that stops at its target notes how the full search gets there, and notes nothing when
the full search does not find it. -/
theorem seek_spec (h : Noted start unreached parents queue) :
    (∀ noted, seek next target unreached parents (queue.map (·.last)) = some noted →
      ∃ t ∈ explore next unreached queue, t.last = target ∧
        Unwinds (noted.lookup ·) start target t.nodes) ∧
    (seek next target unreached parents (queue.map (·.last)) = none →
      ∀ t ∈ explore next unreached queue, t.last = target → t ∈ queue) := by
  fun_induction explore next unreached queue generalizing parents with
  | case1 => simp [seek]
  | case2 =>
      rename_i unreached s queue found left ih
      rw [List.map_cons, seek]
      split
      · rename_i htarget
        refine ⟨?_, fun hnone => by cases hnone⟩
        rintro _ ⟨⟩
        have hmem : s.extend target ∈ queue ++ found.map s.extend :=
          List.mem_append_right _ (List.mem_map_of_mem htarget)
        exact ⟨s.extend target, List.mem_cons_of_mem _ (mem_explore_of_mem hmem), rfl,
          h.unwinds_extend (by simp) (mem_discover_iff.mp htarget).2⟩
      · rename_i htarget
        have hlast : queue.map (·.last) ++ found = (queue ++ found.map s.extend).map (·.last) := by
          rw [List.map_append, s.map_last_extend]
        obtain ⟨hsome, hnone⟩ := ih h.step
        rw [hlast]
        constructor
        · intro noted hnoted
          obtain ⟨t, ht, hgoal⟩ := hsome noted hnoted
          exact ⟨t, List.mem_cons_of_mem _ ht, hgoal⟩
        · intro hseek t ht hend
          rcases List.mem_cons.mp ht with rfl | ht
          · exact List.mem_cons_self
          rcases List.mem_append.mp (hnone hseek t ht hend) with ht | ht
          · exact List.mem_cons_of_mem _ ht
          · obtain ⟨a, ha, rfl⟩ := List.mem_map.mp ht
            exact absurd (hend ▸ ha) htarget

/-! ## All parents from a start -/

variable {nodes : List α}

/-- The noted parents lead back along the trail to the target, and there are none when there is no
such trail. -/
theorem parentsTo?_spec (hne : target ≠ start) :
    (∀ noted, parentsTo? nodes next start target = some noted →
      ∃ t ∈ trails nodes next start, t.last = target ∧
        Unwinds (noted.lookup ·) start target t.nodes) ∧
    (parentsTo? nodes next start target = none →
      ∀ t ∈ trails nodes next start, t.last ≠ target) := by
  have hnoted : Noted start (nodes.eraseDups.erase start) [] [Trail.start start] := by
    refine ⟨fun h => (mem_unreached_iff.mp h).1 rfl, nodup_unreached nodes start,
      fun _ _ => rfl, fun t ht => ?_⟩
    obtain rfl := List.mem_singleton.mp ht
    exact .start
  refine ⟨(seek_spec hnoted).1, fun h t ht hend => hne ?_⟩
  obtain rfl := List.mem_singleton.mp ((seek_spec hnoted).2 h t ht hend)
  exact hend.symm

theorem nodup_nodes_of_mem_trails {t : Trail α} (ht : t ∈ trails nodes next start) :
    t.nodes.Nodup := by
  obtain ⟨s, hs, w, hnodes, hsub⟩ := exists_nodes_sublist ht
  obtain rfl := List.mem_singleton.mp hs
  exact hnodes ▸ hsub.nodup nodup_trails

/-- The search for another node than the start goes back along the trail to it. -/
theorem map_unwind_eq_some_iff (hne : target ≠ start) {p : List α} :
    (parentsTo? nodes next start target).map (fun noted => unwind noted start target []) = some p ↔
      ∃ t ∈ trails nodes next start, t.last = target ∧ t.nodes = p := by
  cases hparents : parentsTo? nodes next start target with
  | none =>
      refine iff_of_false (by simp) ?_
      rintro ⟨t, ht, hlast, -⟩
      exact (parentsTo?_spec hne).2 hparents t ht hlast
  | some noted =>
      obtain ⟨t, ht, hlast, hunwinds⟩ := (parentsTo?_spec hne).1 noted hparents
      rw [Option.map_some, hunwinds.unwind_eq (nodup_nodes_of_mem_trails ht), List.append_nil,
        Option.some_inj]
      constructor
      · exact fun hp => ⟨t, ht, hlast, hp⟩
      · rintro ⟨u, hu, hulast, rfl⟩
        rw [List.inj_on_of_nodup_map nodup_trails ht hu (hlast.trans hulast.symm)]

end

end FrameLog
