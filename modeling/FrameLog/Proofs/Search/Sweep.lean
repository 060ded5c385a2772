import FrameLog.Proofs.Search.Order

/-!
# Searching with a record of what was met

A search that only lists what it finds needs neither trails nor the nodes that are still unreached: it
is enough to remember what was met. Such a search ends, and it lists the last nodes of the trails.
-/

namespace FrameLog

variable {α : Type}

/-- The state of such a search: the nodes that were met, those that are to be looked at, and those that
were listed. -/
structure Sweep (α : Type) where
  met : List α
  queue : List α
  listed : List α

namespace Sweep

/-- The start is met and to be looked at, but not listed. -/
def start (a : α) : Sweep α := ⟨[a], [a], []⟩

variable [DecidableEq α]

/-- A node that is met for the first time is listed, and looked at after all others. -/
def meet (s : Sweep α) (a : α) : Sweep α :=
  if a ∈ s.met then s else ⟨a :: s.met, s.queue ++ [a], s.listed ++ [a]⟩

/-- A search from the state ends, with these nodes listed. As long as a node is to be looked at, the
search meets in turn all that it leads to. -/
inductive Ends (next : α → List α) : Sweep α → List α → Prop
  | done {met listed : List α} : Ends next ⟨met, [], listed⟩ listed
  | look {met queue listed l : List α} {c : α}
      (h : Ends next ((next c).foldl meet ⟨met, queue, listed⟩) l) :
      Ends next ⟨met, c :: queue, listed⟩ l

variable {next : α → List α} {s : Sweep α} {nodes unreached met queue listed l l' : List α}

theorem Ends.unique (h : Ends next s l) (h' : Ends next s l') : l = l' := by
  induction h with
  | done =>
      cases h'
      rfl
  | look _ ih =>
      cases h' with
      | look h' => exact ih h'

/-! ## Meeting what a node leads to -/

/-- The nodes that are still unreached are those that were not met. -/
structure Unmet (nodes unreached met : List α) : Prop where
  nodup : unreached.Nodup
  mem_iff : ∀ a ∈ nodes, a ∈ unreached ↔ a ∉ met

namespace Unmet

theorem meet {a : α} (h : Unmet nodes unreached met) :
    Unmet nodes (unreached.erase a) (a :: met) := by
  refine ⟨h.nodup.erase a, fun b hb => ?_⟩
  rw [h.nodup.mem_erase_iff, h.mem_iff b hb, List.mem_cons, not_or]

/-- Meeting the candidates finds those that are discovered, and what is left is what is still not
met. -/
theorem foldl_meet {candidates : List α} (h : Unmet nodes unreached met)
    (hcandidates : ∀ a ∈ candidates, a ∈ nodes) (queue listed : List α) :
    let found := (discover unreached candidates).1
    let left := (discover unreached candidates).2
    ∃ met', Unmet nodes left met' ∧
      candidates.foldl Sweep.meet ⟨met, queue, listed⟩ = ⟨met', queue ++ found, listed ++ found⟩ := by
  intro found left
  induction candidates generalizing unreached met queue listed with
  | nil => exact ⟨met, h, by simp [found, discover]⟩
  | cons c rest ih =>
      obtain ⟨hc, hrest⟩ := List.forall_mem_cons.mp hcandidates
      simp only [found, left, discover, List.foldl_cons, Sweep.meet]
      by_cases hnew : c ∈ unreached
      · rw [if_pos hnew, if_neg ((h.mem_iff c hc).mp hnew)]
        obtain ⟨met', hmet', heq⟩ := ih h.meet hrest (queue ++ [c]) (listed ++ [c])
        exact ⟨met', hmet', by rw [heq]; simp⟩
      · have hmet : c ∈ met := not_not.mp fun hmet => hnew ((h.mem_iff c hc).mpr hmet)
        rw [if_neg hnew, if_pos hmet]
        exact ih h hrest queue listed

end Unmet

/-! ## The whole search -/

variable {start : α}

/-- From a queue of trails, the search lists the last nodes of all further trails. -/
theorem ends_explore (hnodes : ∀ a, ∀ b ∈ next a, b ∈ nodes) {queue : List (Trail α)}
    (h : Unmet nodes unreached met) (listed : List α) :
    ∃ further, (explore next unreached queue).map (·.last) = queue.map (·.last) ++ further ∧
      Ends next ⟨met, queue.map (·.last), listed⟩ (listed ++ further) := by
  fun_induction explore next unreached queue generalizing met listed with
  | case1 => exact ⟨[], rfl, by simpa using .done⟩
  | case2 =>
      -- the search meets what is discovered, and puts it where the trails to it go
      rename_i unreached s queue found left ih
      obtain ⟨met', hmet', heq⟩ := h.foldl_meet (hnodes s.last) (queue.map (·.last)) listed
      obtain ⟨further, hfurther, hends⟩ := ih hmet' (listed ++ found)
      rw [List.map_append, s.map_last_extend] at hfurther hends
      refine ⟨found ++ further, ?_, .look ?_⟩
      · rw [List.map_cons, hfurther, List.map_cons, List.cons_append, List.append_assoc]
      · rw [heq, ← List.append_assoc]
        exact hends

/-- The search from a start ends, and lists all that the trails from there end at but the start. -/
theorem ends_start_iff (hnodes : ∀ a, ∀ b ∈ next a, b ∈ nodes) :
    Ends next (.start start) l ↔ (trails nodes next start).map (·.last) = start :: l := by
  have hunmet : Unmet nodes (nodes.eraseDups.erase start) [start] := by
    refine ⟨nodup_unreached nodes start, fun a ha => ?_⟩
    rw [mem_unreached_iff, List.mem_singleton, and_iff_left ha]
  obtain ⟨further, htrails, hends⟩ : ∃ further,
      (trails nodes next start).map (·.last) = start :: further ∧
        Ends next (.start start) further := ends_explore hnodes hunmet []
  rw [htrails, List.cons_inj_right]
  constructor
  · intro h
    exact hends.unique h
  · rintro rfl
    exact hends

end Sweep

end FrameLog
