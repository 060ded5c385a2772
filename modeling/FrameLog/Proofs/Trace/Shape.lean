import FrameLog.Proofs.CallGraph.Line
import FrameLog.Trace.Keystream

/-!
# The shape of generated traces

A generator may be asked for one trace after another. Whatever it made before, each trace has as many
frames as were asked for, or as many as its failure needs. The frames are numbered from one, each is
called by the one before it a little later, and all but those of the failure are ordinary.
-/

namespace FrameLog

/-! ## What a frame may be -/

/-- The frame may be an ordinary one. -/
structure Frame.Ordinary (r : Frame) : Prop where
  function : r.function ∈ systemFunctions.toList
  allocated : 1024 ≤ r.allocated.toNat ∧ r.allocated.toNat ≤ 8192
  status : r.status = .active ∨ r.status = .completed
  count : r.parameters.length ≤ 3
  parameters : Draft.OrdinaryParameters 0 r.parameters

theorem Draft.Placed.ordinary {d : Draft} {r : Frame} (h : d.Placed r) (hd : d.Ordinary) :
    r.Ordinary where
  function := h.function ▸ hd.function
  allocated := h.allocated ▸ hd.allocated
  status := h.status ▸ hd.status
  count := h.parameters ▸ hd.count
  parameters := h.parameters ▸ hd.parameters

/-- The frame was called by the one before it, 5 to 100 ticks later. -/
structure Frame.Follows (s r : Frame) : Prop where
  caller : s.caller = some r.id
  later : r.timestamp.toNat + 5 ≤ s.timestamp.toNat
  soon : s.timestamp.toNat ≤ r.timestamp.toNat + 100

/-- The frames called one another in the order of their identifiers. Places are counted from zero and
identifiers from one. -/
structure Linked (frames : List Frame) : Prop where
  id : ∀ i (h : i < frames.length), frames[i].id.toNat = i + 1
  caller : ∀ i (h : i < frames.length),
    frames[i].caller.map UInt64.toNat = if i = 0 then none else some i
  start : ∀ r ∈ frames.head?, r.timestamp = 1000
  follows : frames.IsChain fun r s => s.Follows r
  /-- The clock can move on even after the last frame. -/
  room : ∀ r ∈ frames, r.timestamp.toNat + 100 < 2 ^ 64

/-! ## Linked frames -/

namespace Draft

variable {drafts : List Draft}

/-- Linking makes every frame follow the one before it, as long as the clock does not run over. -/
theorem isChain_linkFrom {id : FrameId} {caller : Option FrameId} {time : UInt64}
    (hadvance : ∀ d ∈ drafts, 5 ≤ d.advance.toNat ∧ d.advance.toNat ≤ 100)
    (hlimit : time.toNat + 100 * drafts.length < 2 ^ 64) :
    (linkFrom id caller time drafts).IsChain fun r s => s.Follows r := by
  induction drafts generalizing id caller time with
  | nil => exact .nil
  | cons d drafts ih =>
      obtain ⟨hd, hdrafts⟩ := List.forall_mem_cons.mp hadvance
      rw [List.length_cons] at hlimit
      have hnext : (time + d.advance).toNat = time.toNat + d.advance.toNat := by
        rw [UInt64.toNat_add, Nat.mod_eq_of_lt (by omega)]
      have hrest : (linkFrom (id + 1) (some id) (time + d.advance) drafts).IsChain
          fun r s => s.Follows r := ih hdrafts (by omega)
      cases drafts with
      | nil => exact .singleton _
      | cons e drafts =>
          refine List.isChain_cons_cons.mpr ⟨⟨rfl, ?_, ?_⟩, hrest⟩
          · exact hnext ▸ Nat.add_le_add_left hd.1 _
          · exact hnext ▸ Nat.add_le_add_left hd.2 _

theorem id_getElem_link {i : Nat} (h : i < (link drafts).length) :
    (link drafts)[i].id = UInt64.ofNat (i + 1) := by
  have hlen : i < ((link drafts).map (·.id)).length := by rwa [List.length_map]
  have hid : ((link drafts).map (·.id))[i] = UInt64.ofNat (i + 1) := by
    simp only [map_id_link, FrameId.interval, List.getElem_map, List.getElem_range', Nat.one_mul,
      Nat.add_comm]
  rwa [List.getElem_map] at hid

theorem head?_link {r : Frame} (h : r ∈ (link drafts).head?) :
    r.caller = none ∧ r.timestamp = 1000 := by
  cases drafts with
  | nil => cases h
  | cons d drafts =>
      obtain rfl := Option.some.inj h
      exact ⟨rfl, rfl⟩

theorem linked_link (hadvance : ∀ d ∈ drafts, 5 ≤ d.advance.toNat ∧ d.advance.toNat ≤ 100)
    (hlen : drafts.length < 2 ^ 56) : Linked (link drafts) := by
  have hstart : (1000 : UInt64).toNat = 1000 := rfl
  have hlimit : (1000 : UInt64).toNat + 100 * drafts.length < 2 ^ 64 := by omega
  have hid : ∀ i (h : i < (link drafts).length), (link drafts)[i].id.toNat = i + 1 := by
    intro i hi
    rw [length_link] at hi
    rw [id_getElem_link, UInt64.toNat_ofNat_of_lt' (show i + 1 < 2 ^ 64 by omega)]
  have hfollows : (link drafts).IsChain fun r s => s.Follows r := isChain_linkFrom hadvance hlimit
  refine ⟨hid, fun i hi => ?_, fun r hr => (head?_link hr).2, hfollows, fun r hr => ?_⟩
  · cases i with
    | zero =>
        have hhead : (link drafts)[0] ∈ (link drafts).head? := by
          rw [List.head?_eq_getElem?, List.getElem?_eq_getElem hi]
          rfl
        rw [(head?_link hhead).1]
        rfl
    | succ i =>
        have hcaller := (List.isChain_iff_getElem.mp hfollows i hi).caller
        rw [hcaller, Option.map_some, hid i (by omega), if_neg (Nat.succ_ne_zero i)]
  · have hle := timestamp_linkFrom (fun d hd => (hadvance d hd).2) hlimit r hr
    omega

end Draft

/-! ## Shapes -/

namespace Scenario

/-- The number of frames that show the failure. -/
def span : Scenario → Nat
  | memoryLeak => 3
  | stackOverflow => 15
  | nullPointer => 1
  | deadlock => 2
  | resourceExhaustion => 5

theorem length_anomaly (scenario : Scenario) : scenario.anomaly.length = scenario.span := by
  cases scenario <;> rfl

/-- What the frame with the given place among those of the failure shows; places are counted from
zero. -/
def Shows (r : Frame) (place : Nat) : Scenario → Prop
  | memoryLeak =>
    r.function = "allocate_buffer" ∧ r.allocated = 1048576 ∧ r.status = .active ∧
      r.parameters = [("buffer_size", .int 1048576), ("buffer_id", .int (Int64.ofNat place))]
  | stackOverflow =>
    r.function = "recursive_process" ∧ r.allocated = 4096 ∧ r.status = .active ∧
      r.parameters = [("depth", .int (Int64.ofNat place)), ("max_depth", .int 10)]
  | nullPointer =>
    r.function = "process_request" ∧ r.allocated = 2048 ∧ r.status = .error ∧
      r.parameters = [("request_data", .null), ("handler", .null)]
  | deadlock =>
    let (held, wanted) := if place = 0 then ("lock_a", "lock_b") else ("lock_b", "lock_a")
    r.function = "acquire_lock" ∧ r.allocated = 1024 ∧ r.status = .active ∧
      r.parameters = [("lock_id", .atom held), ("waiting_for", .atom wanted)]
  | resourceExhaustion =>
    r.function = "load_dataset" ∧ r.allocated = 10485760 ∧ r.status = .active ∧
      r.parameters = [("dataset_id", .int (Int64.ofNat place)), ("size", .atom "large")]

/-- The frames make up a trace of the size, with the failure behind the first half. -/
structure Shaped (scenario : Scenario) (size : Nat) (frames : List Frame) : Prop where
  length : frames.length = max size (size / 2 + scenario.span)
  linked : Linked frames
  failure : ∀ place < scenario.span, ∃ r ∈ frames[size / 2 + place]?, scenario.Shows r place
  ordinary : ∀ i, ∀ r ∈ frames[i]?, i < size / 2 ∨ size / 2 + scenario.span ≤ i → r.Ordinary

/-- A frame of the failure shows what belongs to its place. -/
theorem shows_of_placed {scenario : Scenario} {place : Nat} {d : Draft} {r : Frame}
    (hd : scenario.anomaly[place]? = some d) (h : d.Placed r) : scenario.Shows r place := by
  have hrange : ∀ {n : Nat} {f : Nat → Draft}, ((List.range n).map f)[place]? = some d →
      d = f place := by
    intro n f hf
    rw [List.getElem?_map, Option.map_eq_some_iff] at hf
    obtain ⟨i, hi, rfl⟩ := hf
    obtain ⟨-, rfl⟩ := List.getElem?_eq_some_iff.mp hi
    rw [List.getElem_range]
  cases scenario with
  | memoryLeak =>
      obtain rfl := hrange hd
      exact ⟨h.function, h.allocated, h.status, h.parameters⟩
  | stackOverflow =>
      obtain rfl := hrange hd
      exact ⟨h.function, h.allocated, h.status, h.parameters⟩
  | nullPointer =>
      match place with
      | 0 =>
          obtain rfl := Option.some.inj hd
          exact ⟨h.function, h.allocated, h.status, h.parameters⟩
  | deadlock =>
      match place with
      | 0 =>
          obtain rfl := Option.some.inj hd
          exact ⟨h.function, h.allocated, h.status, h.parameters⟩
      | 1 =>
          obtain rfl := Option.some.inj hd
          exact ⟨h.function, h.allocated, h.status, h.parameters⟩
  | resourceExhaustion =>
      obtain rfl := hrange hd
      exact ⟨h.function, h.allocated, h.status, h.parameters⟩

variable {scenario : Scenario} {size : Nat} {before after : List Draft}

/-- Behind the first half stand the drafts of the failure. -/
theorem Drafted.getElem?_failure (h : scenario.Drafted size before after) {place : Nat}
    (hplace : place < scenario.span) :
    (before ++ scenario.anomaly ++ after)[size / 2 + place]? = scenario.anomaly[place]? := by
  have hbefore := h.length_before
  have hspan := scenario.length_anomaly
  rw [List.append_assoc, List.getElem?_append_right (by omega), hbefore, Nat.add_sub_cancel_left,
    List.getElem?_append_left (by omega)]

/-- In all other places the drafts are ordinary. -/
theorem Drafted.ordinary_of_getElem? (h : scenario.Drafted size before after) {i : Nat} {d : Draft}
    (hd : (before ++ scenario.anomaly ++ after)[i]? = some d)
    (hi : i < size / 2 ∨ size / 2 + scenario.span ≤ i) : d.Ordinary := by
  have hbefore := h.length_before
  have hspan := scenario.length_anomaly
  obtain ⟨hbefores, hafters⟩ := List.forall_mem_append.mp h.ordinary
  rcases hi with hi | hi
  · rw [List.append_assoc, List.getElem?_append_left (by omega)] at hd
    exact hbefores d (List.mem_of_getElem? hd)
  · rw [List.getElem?_append_right (by rw [List.length_append]; omega)] at hd
    exact hafters d (List.mem_of_getElem? hd)

/-- The drafts of a trace have its shape when they are linked. -/
theorem Drafted.shaped (h : scenario.Drafted size before after)
    (hlen : (before ++ scenario.anomaly ++ after).length < 2 ^ 56) :
    scenario.Shaped size (Draft.link (before ++ scenario.anomaly ++ after)) := by
  have hspan := scenario.length_anomaly
  have hdrafts := h.length_eq
  have hplaced : ∀ i, ∀ r ∈ (Draft.link (before ++ scenario.anomaly ++ after))[i]?,
      ∃ d : Draft, (before ++ scenario.anomaly ++ after)[i]? = some d ∧ d.Placed r := fun i r hr =>
    exists_getElem?_of_forall₂ (Draft.forall₂_link _) hr
  refine ⟨by rw [Draft.length_link, hdrafts, hspan],
    Draft.linked_link (fun d hd => (h.bounds d hd).1) hlen, fun place hplace => ?_,
    fun i r hr hi => ?_⟩
  · have hlt : size / 2 + place < (Draft.link (before ++ scenario.anomaly ++ after)).length := by
      rw [Draft.length_link]
      omega
    obtain ⟨d, hd, hdr⟩ := hplaced _ _ (List.getElem?_eq_getElem hlt)
    exact ⟨_, List.getElem?_eq_getElem hlt,
      shows_of_placed ((h.getElem?_failure hplace).symm.trans hd) hdr⟩
  · obtain ⟨d, hd, hdr⟩ := hplaced i r hr
    exact hdr.ordinary (h.ordinary_of_getElem? hd hi)

end Scenario

/-! ## One trace after another -/

namespace Generator

variable {σ : Type} [RandomSource σ]

/-- Whatever the generator did before, the trace that it makes has the shape of its size. -/
theorem shaped_generate (g : Generator σ) (size : Nat)
    (hlen : ((generate size).run g).1.length < 2 ^ 56) :
    g.scenario.Shaped size ((generate size).run g).1 := by
  obtain ⟨before, after, hdrafted, hframes, -⟩ := g.exists_generate_eq size
  rw [hframes] at hlen ⊢
  exact hdrafted.shaped (Draft.length_link _ ▸ hlen)

theorem scenario_generate (g : Generator σ) (size : Nat) :
    ((generate size).run g).2.scenario = g.scenario := by
  obtain ⟨-, -, -, -, hscenario⟩ := g.exists_generate_eq size
  exact hscenario

theorem run_mapM_generate_cons (g : Generator σ) (size : Nat) (sizes : List Nat) :
    (((size :: sizes).mapM generate : StateM (Generator σ) (List (List Frame))).run g).1 =
      ((generate size).run g).1 ::
        ((sizes.mapM generate : StateM (Generator σ) (List (List Frame))).run
          ((generate size).run g).2).1 := by
  rw [List.mapM_cons]
  rfl

/-- Traces that a generator makes one after another, in whatever state it begins, all have the shape
of their sizes, as far as they are not too long. -/
theorem shaped_of_generate (g : Generator σ) (sizes : List Nat) :
    List.Forall₂ (fun size frames => frames.length < 2 ^ 56 → g.scenario.Shaped size frames) sizes
      ((sizes.mapM generate : StateM (Generator σ) (List (List Frame))).run g).1 := by
  induction sizes generalizing g with
  | nil => exact .nil
  | cons size sizes ih =>
      rw [run_mapM_generate_cons]
      refine .cons (g.shaped_generate size) ?_
      rw [← g.scenario_generate size]
      exact ih _

/-- A generator in the midst of a trace: it has made a frame, has numbered others, and its clock has
moved. -/
def interrupted : Generator Keystream where
  scenario := .deadlock
  supply := Keystream.ofSeed 7
  frames := #[⟨9, "poll", some 8, 5000, 64, .active, []⟩]
  nextId := 10
  clock := 5100

/-- A trace whose failure takes more frames than are asked for, and another trace after it. -/
theorem shaped_of_generate_interrupted : ∃ short long,
    (([1, 4].mapM generate : StateM (Generator Keystream) (List (List Frame))).run interrupted).1 =
      [short, long] ∧
    short =
      [⟨1, "acquire_lock", none, 1000, 1024, .active,
          [("lock_id", .atom "lock_a"), ("waiting_for", .atom "lock_b")]⟩,
        ⟨2, "acquire_lock", some 1, 1010, 1024, .active,
          [("lock_id", .atom "lock_b"), ("waiting_for", .atom "lock_a")]⟩] ∧
    long.length = 4 ∧ Scenario.deadlock.Shaped 1 short ∧ Scenario.deadlock.Shaped 4 long := by
  have hshaped := interrupted.shaped_of_generate [1, 4]
  have hshort : ((generate 1).run interrupted).1.length = 2 := rfl
  have hlong : ((generate 4).run ((generate 1).run interrupted).2).1.length = 4 := by
    obtain ⟨before, after, hdrafted, hframes, -⟩ :=
      (((generate 1).run interrupted).2).exists_generate_eq 4
    rw [hframes, Draft.length_link, hdrafted.length_eq, scenario_generate]
    rfl
  rw [run_mapM_generate_cons, run_mapM_generate_cons] at hshaped ⊢
  obtain ⟨hfirst, hrest⟩ := List.forall₂_cons.mp hshaped
  obtain ⟨hsecond, -⟩ := List.forall₂_cons.mp hrest
  refine ⟨_, _, rfl, rfl, hlong, hfirst ?_, hsecond ?_⟩
  · rw [hshort]
    decide
  · rw [hlong]
    decide

end Generator

end FrameLog
