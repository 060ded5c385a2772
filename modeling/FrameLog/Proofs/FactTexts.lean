import FrameLog.Proofs.Lookup

/-!
# Written facts

The facts of a trace are written in two ways: by the fact base, from the values that it keeps, and by
each frame, from the numbers that it recorded. As long as the numbers are kept as integers, both write
the same texts.
-/

namespace FrameLog

namespace Value

theorem text_ofUInt64 {n : UInt64} (hn : Fits n) : (ofUInt64 n).text = toString n.toNat := by
  rw [ofUInt64_of_fits hn, ofNat, text, toInt_ofInt_toNat hn]
  rfl

end Value

/-! ## The facts of one frame -/

namespace Frame

/-- The predicates that the texts of the frame come under, one for each text. -/
def layout (r : Frame) : List Predicate :=
  [.frame] ++ (r.caller.toList.map fun _ => .calls) ++ [.allocated] ++
  (r.parameters.map fun _ => .param) ++ [.status]

/-- The texts of the frame that stand in the places of one predicate. -/
def factTextsOf (r : Frame) (p : Predicate) : List String :=
  ((r.layout.zip r.factTexts).filter (·.1 == p)).map (·.2)

variable {r : Frame}

theorem layout_eq (r : Frame) : r.layout = r.facts.map (·.predicate) := by
  simp [layout, facts, Function.comp_def]

theorem factTexts_eq (h : r.Fits) : r.factTexts = r.facts.map Fact.text := by
  have hid := Value.text_ofUInt64 h.id
  have hcaller : ∀ caller ∈ r.caller.toList,
      (Fact.mk .calls [.ofUInt64 caller, .ofUInt64 r.id]).text =
        "calls(" ++ toString caller.toNat ++ ", " ++ toString r.id.toNat ++ ")." := by
    intro caller hcaller
    have hfits := h.caller caller (by simpa using hcaller)
    simp [Fact.text, Predicate.name, Value.text_ofUInt64 hfits, hid, String.append_assoc]
  have htimestamp := Value.text_ofUInt64 h.timestamp
  have hallocated := Value.text_ofUInt64 h.allocated
  have hatom (s : String) : (Value.atom s).text = s := rfl
  simp only [factTexts, facts, List.map_append, List.map_map, Function.comp_def]
  rw [List.map_congr_left hcaller]
  simp [Fact.text, Predicate.name, hid, htimestamp, hallocated, hatom, String.append_assoc]

/-- The texts in the places of a predicate are those of its facts. -/
theorem factTextsOf_eq (h : r.Fits) (p : Predicate) :
    r.factTextsOf p = ((r.rows p).map (Fact.mk p)).map Fact.text := by
  rw [factTextsOf, layout_eq, factTexts_eq h, List.zip_map', List.filter_map, List.map_map,
    ← filter_facts]
  rfl

end Frame

/-! ## The facts of a trace -/

/-- The predicates in the order in which a frame writes its facts. -/
def Predicate.written : List Predicate := [.frame, .calls, .allocated, .param, .status]

theorem Frame.flatMap_rows (r : Frame) :
    (Predicate.written.flatMap fun p => (r.rows p).map (Fact.mk p)) = r.facts := by
  simp [Predicate.written, rows, facts, Function.comp_def]

/-- Of an accepted trace whose numbers are kept as integers, the texts of the facts of a predicate are
those that the frames write in its places, one frame after another. The facts of each frame alone,
taken in the order in which a frame writes them, have exactly the texts that the frame writes. -/
theorem FactBase.texts_of_ofFrames {frames : List Frame} {b : FactBase}
    (h : ofFrames frames = .ok b) (hfits : ∀ r ∈ frames, r.Fits) :
    (∀ p, (b.facts p).map Fact.text = frames.flatMap fun r => r.factTextsOf p) ∧
    ∀ r ∈ frames, ∃ own, ofFrames [r] = .ok own ∧
      (Predicate.written.flatMap fun p => (own.facts p).map Fact.text) = r.factTexts := by
  refine ⟨fun p => ?_, fun r hr => ?_⟩
  · rw [facts_of_ofFrames h, List.map_flatMap]
    exact List.flatMap_congr fun r hr => (Frame.factTextsOf_eq (hfits r hr) p).symm
  · have hvalid : r.id ≠ 0 := (ofFrames_eq_ok_iff.mp h).1 r hr
    obtain ⟨own, hown⟩ : ∃ own, ofFrames [r] = .ok own :=
      exists_ofFrames_iff.mpr (by simpa using hvalid)
    refine ⟨own, hown, ?_⟩
    calc (Predicate.written.flatMap fun p => (own.facts p).map Fact.text)
        = (Predicate.written.flatMap fun p => (r.rows p).map (Fact.mk p)).map Fact.text := by
          rw [List.map_flatMap]
          refine List.flatMap_congr fun p _ => ?_
          rw [facts_of_ofFrames hown, List.flatMap_singleton]
      _ = r.factTexts := by rw [r.flatMap_rows, Frame.factTexts_eq (hfits r hr)]

theorem texts_of_ofFrames_retriedTrace : ∃ b, FactBase.ofFrames retriedTrace = .ok b ∧
    (∀ r ∈ retriedTrace, r.Fits) ∧
    (b.facts .param).map Fact.text =
      ["param(2, delay, NaN).", "param(2, url, home).", "param(2, delay, 5)."] ∧
    (b.facts .calls).map Fact.text = ["calls(1, 2)."] := by
  obtain ⟨b, hb⟩ := FactBase.exists_ofFrames_iff.mpr
    (show (∀ r ∈ retriedTrace, r.id ≠ 0) ∧ (retriedTrace.map (·.id)).Nodup by decide)
  obtain ⟨htexts, -⟩ := FactBase.texts_of_ofFrames hb fits_retriedTrace
  refine ⟨b, hb, fits_retriedTrace, (htexts .param).trans ?_, (htexts .calls).trans ?_⟩
  · decide +kernel
  · decide +kernel

end FrameLog
