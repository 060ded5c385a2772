import FrameLog.Proofs.FactBase
import Mathlib.Algebra.GroupWithZero.Nat
import Mathlib.Data.List.Induction

/-!
# Which traces are accepted

A trace is refused for the first of its frames that cannot follow those before it, and for nothing
else. That the facts are inserted one after another, each insertion being free to fail, makes no
difference.
-/

namespace FrameLog

/-! ## Frames that cannot follow others -/

/-- The identifiers are distinct and none of them is zero. -/
structure Acceptable (frames : List Frame) : Prop where
  ne_zero : ∀ r ∈ frames, r.id ≠ 0
  nodup : (frames.map (·.id)).Nodup

/-- What is wrong with a frame behind others: it has no identifier, or that of one of them. -/
inductive Frame.Faulty (before : List Frame) (r : Frame) : Fault → Prop
  | zero (h : r.id = 0) : Faulty before r (.invalidFrame 0)
  | repeated (hid : r.id ≠ 0) (h : r.id ∈ before.map (·.id)) :
      Faulty before r (.duplicateFrame r.id)

/-- What is wrong with the first frame that cannot follow those before it. -/
def FirstFault (frames : List Frame) (fault : Fault) : Prop :=
  ∃ before r rest, frames = before ++ r :: rest ∧ Acceptable before ∧ r.Faulty before fault

theorem Frame.length_facts (r : Frame) : r.facts.length =
    3 + (if r.caller.isSome then 1 else 0) + r.parameters.length := by
  cases hc : r.caller <;> simp [facts, hc] <;> omega

theorem FirstFault.append {frames : List Frame} {fault : Fault} (h : FirstFault frames fault)
    (more : List Frame) : FirstFault (frames ++ more) fault := by
  obtain ⟨before, r, rest, rfl, hbefore, hr⟩ := h
  exact ⟨before, r, rest ++ more, by simp, hbefore, hr⟩

namespace FactBase

/-- Identifiers behind others are looked at only when those are all right. -/
theorem findFault?_append (seen ids more : List FrameId) : findFault? seen (ids ++ more) =
    (findFault? seen ids).or (findFault? (ids.reverse ++ seen) more) := by
  induction ids generalizing seen with
  | nil => rfl
  | cons id ids ih =>
      simp only [List.cons_append, findFault?]
      split
      · rfl
      · split
        · rfl
        · rw [ih, List.reverse_cons, List.append_assoc, List.singleton_append]

theorem findFault?_eq_none_iff_acceptable {frames : List Frame} :
    findFault? [] (frames.map (·.id)) = none ↔ Acceptable frames := by
  rw [findFault?_eq_none_iff]
  constructor
  · rintro ⟨hids, hnodup⟩
    exact ⟨fun r hr => (hids r.id (List.mem_map_of_mem hr)).1, hnodup⟩
  · intro h
    exact ⟨List.forall_mem_map.mpr fun r hr => ⟨h.ne_zero r hr, List.not_mem_nil⟩, h.nodup⟩

theorem findFault?_singleton_iff {before : List Frame} {r : Frame} {fault : Fault} :
    findFault? (before.map (·.id)).reverse [r.id] = some fault ↔ r.Faulty before fault := by
  simp only [findFault?, List.contains_iff_mem, List.mem_reverse]
  constructor
  · intro h
    split at h
    · rename_i hzero
      obtain rfl := Option.some.inj h
      rw [hzero]
      exact .zero hzero
    · rename_i hzero
      split at h
      · rename_i hmem
        obtain rfl := Option.some.inj h
        exact .repeated hzero hmem
      · cases h
  · intro h
    cases h with
    | zero hzero => rw [if_pos hzero, hzero]
    | repeated hzero hmem => rw [if_neg hzero, if_pos hmem]

/-- The fault that is found is that of the first faulty frame. -/
theorem findFault?_eq_some_iff {frames : List Frame} {fault : Fault} :
    findFault? [] (frames.map (·.id)) = some fault ↔ FirstFault frames fault := by
  constructor
  · intro h
    induction frames using List.reverseRecOn with
    | nil => cases h
    | append_singleton frames r ih =>
        rw [List.map_append, findFault?_append, List.append_nil, Option.or_eq_some_iff] at h
        rcases h with h | ⟨hnone, h⟩
        · exact (ih h).append [r]
        · exact ⟨frames, r, [], rfl, findFault?_eq_none_iff_acceptable.mp hnone,
            findFault?_singleton_iff.mp h⟩
  · rintro ⟨before, r, rest, rfl, hbefore, hr⟩
    rw [List.append_cons, List.map_append, List.map_append, List.map_singleton, findFault?_append,
      findFault?_append, findFault?_eq_none_iff_acceptable.mpr hbefore, List.append_nil,
      Option.none_or, findFault?_singleton_iff.mpr hr, Option.some_or]

variable {frames : List Frame} {b b' : FactBase} {fault : Fault}

theorem ofFrames_eq_error_iff_findFault? :
    ofFrames frames = .error fault ↔ findFault? [] (frames.map (·.id)) = some fault := by
  unfold ofFrames
  split
  · rename_i h
    simp [h, throw, throwThe, MonadExceptOf.throw]
  · rename_i h
    simp [h, pure, Except.pure]

/-- A trace is refused for its first faulty frame. -/
theorem ofFrames_eq_error_iff : ofFrames frames = .error fault ↔ FirstFault frames fault :=
  ofFrames_eq_error_iff_findFault?.trans findFault?_eq_some_iff

theorem exists_ofFrames_iff_acceptable : (∃ b, ofFrames frames = .ok b) ↔ Acceptable frames := by
  rw [exists_ofFrames_iff]
  exact ⟨fun h => ⟨h.1, h.2⟩, fun h => ⟨h.ne_zero, h.nodup⟩⟩

/-! ## One fact after another -/

/-- Inserts the facts of frames one after another. The identifier of a frame is looked at before its
facts are inserted. -/
def record (seen : List FrameId) (b : FactBase) : List Frame → Except Fault FactBase
  | [] => return b
  | r :: rest =>
    if r.id = 0 then throw (.invalidFrame r.id)
    else if seen.contains r.id then throw (.duplicateFrame r.id)
    else do record (r.id :: seen) (← r.facts.foldlM insert b) rest

theorem insert_eq_ok_iff {f : Fact} :
    b.insert f = .ok b' ↔ f.WellFormed ∧ b'.toList = b.toList ++ [f] := by
  unfold insert
  split
  · rename_i h
    obtain ⟨facts, hfacts⟩ := b'
    simp [h, pure, Except.pure, eq_comm]
  · rename_i h
    simp [h, throw, throwThe, MonadExceptOf.throw]

/-- Facts of the right arities can all be inserted. -/
theorem exists_foldlM_insert {fs : List Fact} (h : ∀ f ∈ fs, f.WellFormed) (b : FactBase) :
    ∃ b', fs.foldlM insert b = .ok b' ∧ b'.toList = b.toList ++ fs := by
  induction fs generalizing b with
  | nil => exact ⟨b, rfl, (List.append_nil _).symm⟩
  | cons f fs ih =>
      obtain ⟨hf, hfs⟩ := List.forall_mem_cons.mp h
      obtain ⟨c, hc, hlist⟩ : ∃ c, b.insert f = .ok c ∧ c.toList = b.toList ++ [f] := by
        have hwell : ∀ g ∈ b.toList ++ [f], g.WellFormed :=
          List.forall_mem_append.mpr ⟨b.wellFormed, List.forall_mem_singleton.mpr hf⟩
        exact ⟨⟨b.toList ++ [f], hwell⟩, insert_eq_ok_iff.mpr ⟨hf, rfl⟩, rfl⟩
      obtain ⟨b', hb', hlist'⟩ := ih hfs c
      refine ⟨b', ?_, ?_⟩
      · rw [List.foldlM_cons, hc]
        exact hb'
      · rw [hlist', hlist, List.append_assoc, List.singleton_append]

/-- No insertion fails, so the identifiers alone decide. -/
theorem record_cases (seen : List FrameId) (b : FactBase) (frames : List Frame) :
    (∃ fault, findFault? seen (frames.map (·.id)) = some fault ∧
      record seen b frames = .error fault) ∨
    (findFault? seen (frames.map (·.id)) = none ∧ ∃ b', record seen b frames = .ok b' ∧
      b'.toList = b.toList ++ frames.flatMap Frame.facts) := by
  induction frames generalizing seen b with
  | nil => exact .inr ⟨rfl, b, rfl, (List.append_nil _).symm⟩
  | cons r frames ih =>
      simp only [List.map_cons, findFault?, record]
      split
      · exact .inl ⟨_, rfl, rfl⟩
      · split
        · exact .inl ⟨_, rfl, rfl⟩
        · obtain ⟨c, hc, hlist⟩ := exists_foldlM_insert r.wellFormed_facts b
          rw [hc, List.flatMap_cons, ← List.append_assoc, ← hlist]
          exact ih (r.id :: seen) c

theorem toList_inj (h : b.toList = b'.toList) : b = b' := by
  cases b
  cases b'
  cases h
  rfl

theorem record_eq_ofFrames (frames : List Frame) : record [] empty frames = ofFrames frames := by
  rcases record_cases [] empty frames with ⟨fault, hfault, hrecord⟩ | ⟨hnone, b, hrecord, hlist⟩
  · rw [hrecord, ofFrames_eq_error_iff_findFault?.mpr hfault]
  · have h := findFault?_eq_none_iff_acceptable.mp hnone
    rw [hrecord, ofFrames_eq_ok_iff.mpr ⟨h.ne_zero, h.nodup, hlist⟩]

/-! ## Numbers of facts -/

theorem size_of_ofFrames (h : ofFrames frames = .ok b) : b.size =
    3 * frames.length + frames.countP (·.caller.isSome) +
      (frames.map (·.parameters.length)).sum := by
  rw [size, (ofFrames_eq_ok_iff.mp h).2.2]
  clear h
  induction frames with
  | nil => rfl
  | cons r frames ih =>
      rw [List.flatMap_cons, List.length_append, ih, r.length_facts, List.length_cons,
        List.countP_cons, List.map_cons, List.sum_cons]
      omega

/-! ## Acceptance -/

/-- A trace is accepted exactly when its identifiers are distinct and not zero; else it is refused for
its first faulty frame, and never for the arity of a fact. The facts of a predicate are then what each
frame adds to it, in the order of the frames. All this is as if the facts were inserted one after
another. -/
theorem ofFrames_spec (frames : List Frame) :
    ((∃ b, ofFrames frames = .ok b) ↔ Acceptable frames) ∧
    (∀ fault, ofFrames frames = .error fault ↔ FirstFault frames fault) ∧
    (∀ p expected found, ofFrames frames ≠ .error (.arity p expected found)) ∧
    (∀ b, ofFrames frames = .ok b →
      (∀ p, b.facts p = frames.flatMap fun r => (r.rows p).map (Fact.mk p)) ∧
      b.size = 3 * frames.length + frames.countP (·.caller.isSome) +
        (frames.map (·.parameters.length)).sum) ∧
    record [] empty frames = ofFrames frames := by
  refine ⟨exists_ofFrames_iff_acceptable, fun fault => ofFrames_eq_error_iff, ?_, fun b hb => ?_,
    record_eq_ofFrames frames⟩
  · intro p expected found h
    obtain ⟨_, _, _, _, _, hr⟩ := ofFrames_eq_error_iff.mp h
    cases hr
  · exact ⟨facts_of_ofFrames hb, size_of_ofFrames hb⟩

/-- Frame 1 called frame 2 and stands there once more before a frame without an identifier. -/
def garbledTrace : List Frame :=
  [⟨1, "main", none, 1000, 64, .active, []⟩,
    ⟨2, "fetch", some 1, 1010, 4096, .error, [("url", .atom "home"), ("delay", .null)]⟩,
    ⟨1, "main", some 2, 1020, 64, .active, []⟩, ⟨0, "lost", some 1, 1030, 64, .active, []⟩]

theorem ofFrames_spec_garbledTrace :
    ofFrames garbledTrace = .error (.duplicateFrame 1) ∧
    record [] empty garbledTrace = .error (.duplicateFrame 1) ∧
    ∃ b, ofFrames (garbledTrace.take 2) = .ok b ∧ b.size = 9 ∧
      b.facts .calls = [⟨.calls, [.int 1, .int 2]⟩] := by
  have hfirst : FirstFault garbledTrace (.duplicateFrame 1) :=
    ⟨garbledTrace.take 2, _, _, rfl, ⟨by decide, by decide⟩, .repeated (by decide) (by decide)⟩
  obtain ⟨-, herror, -, -, hrecord⟩ := ofFrames_spec garbledTrace
  obtain ⟨hok, -, -, hfacts, -⟩ := ofFrames_spec (garbledTrace.take 2)
  obtain ⟨b, hb⟩ := hok.mpr ⟨by decide, by decide⟩
  have hrefused := (herror _).mpr hfirst
  exact ⟨hrefused, hrecord.trans hrefused, b, hb, (hfacts b hb).2.trans (by decide),
    ((hfacts b hb).1 .calls).trans (by decide)⟩

end FactBase

end FrameLog
