import FrameLog.FactBase
import Mathlib.Data.List.Basic

/-!
# The facts of a trace

The frames of a trace are accepted when their identifiers are distinct and not zero. The facts of a
predicate are then what each frame adds to it, in the order of the frames. A fact that is inserted
later stands behind those of its predicate.
-/

namespace FrameLog

/-! ## Rows -/

namespace Frame

/-- The rows that the frame adds to a predicate. -/
def rows (r : Frame) : Predicate → List (List Value)
  | .allocated => [[.ofUInt64 r.id, .ofUInt64 r.allocated]]
  | .calls => r.caller.toList.map fun caller => [.ofUInt64 caller, .ofUInt64 r.id]
  | .frame =>
    [[.ofUInt64 r.id, .atom r.function, .ofUInt64 r.timestamp, .atom r.status.name]]
  | .param => r.parameters.map fun (name, value) => [.ofUInt64 r.id, .atom name, value]
  | .status => [[.ofUInt64 r.id, .atom r.status.name]]

theorem filter_facts (r : Frame) (p : Predicate) :
    r.facts.filter (·.predicate == p) = (r.rows p).map (Fact.mk p) := by
  cases p <;> simp [facts, rows, List.filter_map, Function.comp_def, beq_eq_decide]

theorem length_rows {r : Frame} {p : Predicate} {row : List Value} (h : row ∈ r.rows p) :
    row.length = p.arity := by
  have hfact : Fact.mk p row ∈ r.facts.filter (·.predicate == p) := by
    rw [filter_facts]
    exact List.mem_map_of_mem h
  exact r.wellFormed_facts _ (List.mem_filter.mp hfact).1

/-- Every row but those of `calls` begins with the identifier of the frame. -/
theorem head?_rows {r : Frame} {p : Predicate} (hp : p ≠ .calls) {row : List Value}
    (h : row ∈ r.rows p) : row.head? = some (.ofUInt64 r.id) := by
  cases p with
  | calls => exact absurd rfl hp
  | allocated => obtain rfl := List.mem_singleton.mp h; rfl
  | frame => obtain rfl := List.mem_singleton.mp h; rfl
  | status => obtain rfl := List.mem_singleton.mp h; rfl
  | param =>
      obtain ⟨_, _, rfl⟩ := List.mem_map.mp h
      rfl

end Frame

/-! ## Accepted frames -/

namespace FactBase

theorem findFault?_eq_none_iff {seen ids : List FrameId} :
    findFault? seen ids = none ↔ (∀ id ∈ ids, id ≠ 0 ∧ id ∉ seen) ∧ ids.Nodup := by
  induction ids generalizing seen with
  | nil => simp [findFault?]
  | cons id ids ih =>
      simp only [findFault?]
      split
      · rename_i hzero
        simp [hzero]
      · rename_i hzero
        split
        · rename_i hseen
          rw [List.contains_iff_mem] at hseen
          simp [hseen]
        · rename_i hseen
          rw [List.contains_iff_mem] at hseen
          rw [ih, List.nodup_cons]
          constructor
          · rintro ⟨hids, hnodup⟩
            have hnew : id ∉ ids := fun hmem => (hids id hmem).2 List.mem_cons_self
            refine ⟨fun j hj => ?_, hnew, hnodup⟩
            rcases List.mem_cons.mp hj with rfl | hj
            · exact ⟨hzero, hseen⟩
            · exact ⟨(hids j hj).1, fun hmem => (hids j hj).2 (List.mem_cons_of_mem _ hmem)⟩
          · rintro ⟨hids, hnew, hnodup⟩
            refine ⟨fun j hj => ⟨(hids j (List.mem_cons_of_mem _ hj)).1, fun hmem => ?_⟩, hnodup⟩
            rcases List.mem_cons.mp hmem with rfl | hmem
            · exact hnew hj
            · exact (hids j (List.mem_cons_of_mem _ hj)).2 hmem

variable {frames : List Frame} {b : FactBase}

/-- Frames are accepted when their identifiers are distinct and not zero. -/
theorem ofFrames_eq_ok_iff : ofFrames frames = .ok b ↔
    (∀ r ∈ frames, r.id ≠ 0) ∧ (frames.map (·.id)).Nodup ∧ b.toList = frames.flatMap Frame.facts := by
  have hfault : findFault? [] (frames.map (·.id)) = none ↔
      (∀ r ∈ frames, r.id ≠ 0) ∧ (frames.map (·.id)).Nodup := by
    simp [findFault?_eq_none_iff]
  rw [← and_assoc, ← hfault]
  unfold ofFrames
  split
  · rename_i fault h
    simp [h, throw, throwThe, MonadExceptOf.throw]
  · rename_i h
    obtain ⟨facts, hfacts⟩ := b
    simp [h, pure, Except.pure, eq_comm]

theorem exists_ofFrames_iff : (∃ b, ofFrames frames = .ok b) ↔
    (∀ r ∈ frames, r.id ≠ 0) ∧ (frames.map (·.id)).Nodup := by
  simp only [ofFrames_eq_ok_iff]
  constructor
  · rintro ⟨b, hvalid, hnodup, -⟩
    exact ⟨hvalid, hnodup⟩
  · rintro ⟨hvalid, hnodup⟩
    refine ⟨⟨frames.flatMap Frame.facts, fun f hf => ?_⟩, hvalid, hnodup, rfl⟩
    obtain ⟨r, -, hr⟩ := List.mem_flatMap.mp hf
    exact r.wellFormed_facts f hr

theorem facts_of_ofFrames (h : ofFrames frames = .ok b) (p : Predicate) :
    b.facts p = frames.flatMap fun r => (r.rows p).map (Fact.mk p) := by
  obtain ⟨-, -, hfacts⟩ := ofFrames_eq_ok_iff.mp h
  rw [facts, hfacts, List.filter_flatMap]
  exact List.flatMap_congr fun r _ => r.filter_facts p

/-! ## Counts of facts -/

theorem length_facts_of_ofFrames (h : ofFrames frames = .ok b) (p : Predicate) :
    (b.facts p).length = (frames.flatMap (·.rows p)).length := by
  rw [facts_of_ofFrames h, List.length_flatMap, List.length_flatMap]
  simp only [List.length_map]

/-- What every frame has once is counted with the frames. -/
theorem length_facts_of_length_rows (h : ofFrames frames = .ok b) {p : Predicate}
    (hrows : ∀ r : Frame, (r.rows p).length = 1) : (b.facts p).length = frames.length := by
  rw [length_facts_of_ofFrames h, List.length_flatMap]
  simp [hrows]

theorem length_facts_param (h : ofFrames frames = .ok b) :
    (b.facts .param).length = (frames.flatMap (·.parameters)).length := by
  rw [length_facts_of_ofFrames h, List.length_flatMap, List.length_flatMap]
  simp only [Frame.rows, List.length_map]

theorem exists_values_of_mem_calls {f : Fact} (hf : f ∈ b.facts .calls) :
    ∃ c d, f.values = [c, d] := by
  obtain ⟨hmem, hp⟩ := List.mem_filter.mp hf
  have hlen : f.values.length = 2 := by
    rw [b.wellFormed f hmem, eq_of_beq hp]
    rfl
  exact List.length_eq_two.mp hlen

/-! ## Predicates without facts -/

theorem hasFacts_eq_false_iff {p : Predicate} : b.hasFacts p = false ↔ b.facts p = [] := by
  simp [hasFacts]

theorem hasFacts_iff {p : Predicate} : b.hasFacts p = true ↔ b.facts p ≠ [] := by simp [hasFacts]

/-! ## One fact more -/

section

variable {b' : FactBase} {f : Fact} {p : Predicate}

theorem facts_insert_self (h : b.insert f = .ok b') :
    b'.facts f.predicate = b.facts f.predicate ++ [f] := by
  rw [facts, facts, toList_insert h, List.filter_append]
  simp

theorem facts_insert_of_ne (h : b.insert f = .ok b') (hp : p ≠ f.predicate) :
    b'.facts p = b.facts p := by
  have hother : (f.predicate == p) = false := beq_eq_false_iff_ne.mpr hp.symm
  rw [facts, facts, toList_insert h, List.filter_append]
  simp [hother]

/-- No fact is lost. -/
theorem facts_prefix_insert (h : b.insert f = .ok b') (p : Predicate) :
    b.facts p <+: b'.facts p := by
  by_cases hp : p = f.predicate
  · rw [hp, facts_insert_self h]
    exact List.prefix_append _ _
  · have hsame := facts_insert_of_ne h hp
    exact hsame ▸ List.prefix_rfl

end

end FactBase

end FrameLog
