import FrameLog.Proofs.FactBase
import FrameLog.Proofs.FrameId
import FrameLog.Trace
import Mathlib.Data.List.Forall2
import Mathlib.Data.List.Nodup

/-!
# Generated traces

Whatever the supply of random numbers and whatever a generator made before, a trace is the failure of
its scenario between ordinary frames, numbered from one, each frame called by the one before it.
-/

namespace FrameLog

/-! ## What every supply yields -/

/-- Whatever the supply, the computation yields something with the property. -/
def Yields {σ α : Type} (m : StateM σ α) (P : α → Prop) : Prop := ∀ s, P (m.run s).1

section

variable {σ α β : Type} {P : α → Prop} {Q : β → Prop}

theorem Yields.pure {a : α} (h : P a) : Yields (Pure.pure a : StateM σ α) P := fun _ => h

theorem Yields.bind {m : StateM σ α} {f : α → StateM σ β} (hm : Yields m P)
    (hf : ∀ a, P a → Yields (f a) Q) : Yields (m >>= f) Q :=
  fun s => hf _ (hm s) (m.run s).2

/-- Nothing need be known of what comes first when the rest is right after anything. -/
theorem Yields.bind_any {m : StateM σ α} {f : α → StateM σ β} (hf : ∀ a, Yields (f a) Q) :
    Yields (m >>= f) Q := fun s => hf _ (m.run s).2

end

/-! ## Ordinary frames -/

/-- The value may stand in an ordinary frame. -/
inductive Value.Ordinary : Value → Prop where
  | number {n : Nat} (h : n ≤ 1000) : Ordinary (.int (Int64.ofNat n))
  | data {n : Nat} (h : 1 ≤ n ∧ n ≤ 100) : Ordinary (.atom ("data_" ++ toString n))
  | null : Ordinary .null

/-- Parameters with consecutive numbers in their names, each with a value of an ordinary frame. -/
structure Draft.OrdinaryParameters (first : Nat) (parameters : List (String × Value)) : Prop where
  names : parameters.map (·.1) =
    (List.range' first parameters.length).map fun n => "arg" ++ toString n
  values : ∀ e ∈ parameters, e.2.Ordinary

/-- The draft may be that of an ordinary frame. -/
structure Draft.Ordinary (d : Draft) : Prop where
  function : d.function ∈ systemFunctions.toList
  allocated : 1024 ≤ d.allocated.toNat ∧ d.allocated.toNat ≤ 8192
  status : d.status = .active ∨ d.status = .completed
  advance : 10 ≤ d.advance.toNat ∧ d.advance.toNat ≤ 100
  count : d.parameters.length ≤ 3
  parameters : OrdinaryParameters 0 d.parameters

namespace Draft

variable {σ : Type} [RandomSource σ]

theorem yields_randomValue : Yields (randomValue : StateM σ Value) Value.Ordinary := by
  refine Yields.bind_any fun kind => ?_
  match kind with
  | ⟨0, _⟩ => exact Yields.bind_any fun n => .pure (.number n.property.2)
  | ⟨1, _⟩ => exact Yields.bind_any fun n => .pure (.data n.property)
  | ⟨_ + 2, _⟩ => exact .pure .null

theorem OrdinaryParameters.cons {first : Nat} {value : Value} {rest : List (String × Value)}
    (hvalue : value.Ordinary) (h : OrdinaryParameters (first + 1) rest) :
    OrdinaryParameters first (("arg" ++ toString first, value) :: rest) := by
  refine ⟨?_, List.forall_mem_cons.mpr ⟨hvalue, h.values⟩⟩
  rw [List.map_cons, List.length_cons, List.range'_succ, List.map_cons, h.names]

theorem yields_randomParameters (first count : Nat) :
    Yields (randomParameters first count : StateM σ (List (String × Value))) fun parameters =>
      parameters.length = count ∧ OrdinaryParameters first parameters := by
  induction count generalizing first with
  | zero => exact .pure ⟨rfl, rfl, by simp⟩
  | succ count ih =>
      refine yields_randomValue.bind fun value hvalue => (ih (first + 1)).bind fun rest hrest => ?_
      exact .pure ⟨congrArg Nat.succ hrest.1, hrest.2.cons hvalue⟩

theorem toNat_ofNat_between {low high : Nat} (n : Between low high) (h : high < 2 ^ 64) :
    low ≤ (UInt64.ofNat n.val).toNat ∧ (UInt64.ofNat n.val).toNat ≤ high := by
  rw [UInt64.toNat_ofNat_of_lt' (Nat.lt_of_le_of_lt n.property.2 h)]
  exact n.property

theorem yields_ordinary : Yields (ordinary : StateM σ Draft) Ordinary := by
  refine Yields.bind_any fun index => Yields.bind_any fun allocated => Yields.bind_any fun active =>
    Yields.bind_any fun advance => Yields.bind_any fun count => ?_
  refine (yields_randomParameters 0 count.val).bind fun parameters hparameters => .pure ?_
  refine
    { function := Vector.mem_toList_iff.mpr (Vector.getElem_mem _)
      allocated := toNat_ofNat_between allocated (by decide)
      status := ?_
      advance := toNat_ofNat_between advance (by decide)
      count := hparameters.1 ▸ count.property.2
      parameters := hparameters.2 }
  cases active with
  | true => exact .inl rfl
  | false => exact .inr rfl

end Draft

/-! ## Linking -/

namespace Draft

/-- Frames with consecutive identifiers, each called by the one before. -/
def linkFrom (id : FrameId) (caller : Option FrameId) (time : UInt64) : List Draft → List Frame
  | [] => []
  | d :: rest =>
    { id := id, function := d.function, caller := caller, timestamp := time
      allocated := d.allocated, status := d.status, parameters := d.parameters } ::
    linkFrom (id + 1) (some id) (time + d.advance) rest

/-- The trace of a list of drafts: identifiers begin at one and timestamps at a thousand. -/
def link (drafts : List Draft) : List Frame := linkFrom 1 none 1000 drafts

/-- The time at which the drafts have passed. -/
def passed (time : UInt64) (drafts : List Draft) : UInt64 :=
  drafts.foldl (fun time d => time + d.advance) time

/-- What is linked behind other frames is called by the last of them, and goes on from their number
and their time. -/
theorem linkFrom_append (id : FrameId) (caller : Option FrameId) (time : UInt64)
    (drafts more : List Draft) : linkFrom id caller time (drafts ++ more) =
      linkFrom id caller time drafts ++
        linkFrom (id + UInt64.ofNat drafts.length)
          (((linkFrom id caller time drafts).getLast?.map (·.id)).or caller)
          (passed time drafts) more := by
  induction drafts generalizing id caller time with
  | nil => simp [linkFrom, passed]
  | cons d drafts ih =>
      have hid : id + 1 + UInt64.ofNat drafts.length = id + UInt64.ofNat (drafts.length + 1) := by
        rw [UInt64.ofNat_add, UInt64.add_assoc, UInt64.add_comm 1]
        rfl
      rw [List.cons_append, linkFrom, ih, hid, linkFrom, List.cons_append, List.length_cons,
        List.getLast?_cons]
      cases (linkFrom (id + 1) (some id) (time + d.advance) drafts).getLast? <;> rfl

end Draft

/-! ## Generators -/

namespace Generator

variable {σ : Type} {g : Generator σ} {drafts : List Draft}

/-- The trace that is being made is that of the drafts, and goes on from it. -/
structure Holds (g : Generator σ) (drafts : List Draft) : Prop where
  frames : g.frames.toList = Draft.link drafts
  nextId : g.nextId = 1 + UInt64.ofNat drafts.length
  clock : g.clock = Draft.passed 1000 drafts

theorem holds_reset (g : Generator σ) : g.reset.Holds [] := ⟨rfl, rfl, rfl⟩

/-- Adding a frame links its draft to the others. -/
theorem Holds.push (h : g.Holds drafts) (d : Draft) : (g.push d).Holds (drafts ++ [d]) where
  frames := by
    have hcaller : g.frames.back?.map (·.id) =
        ((Draft.link drafts).getLast?.map (·.id)).or none := by
      rw [← Array.getLast?_toList, h.frames, Option.or_none]
    rw [Draft.link, Draft.linkFrom_append, ← h.nextId, ← h.clock]
    simp only [Generator.push, Array.toList_push, h.frames, hcaller]
    rfl
  nextId := by
    rw [Generator.push, h.nextId, List.length_append, List.length_singleton, UInt64.ofNat_add,
      ← UInt64.add_assoc]
    rfl
  clock := by
    rw [Generator.push, h.clock, Draft.passed, Draft.passed, List.foldl_concat]

theorem Holds.foldl_push (h : g.Holds drafts) (more : List Draft) :
    (more.foldl Generator.push g).Holds (drafts ++ more) := by
  induction more generalizing g drafts with
  | nil => rwa [List.append_nil]
  | cons d more ih => simpa using ih (h.push d)

theorem scenario_foldl_push (g : Generator σ) (drafts : List Draft) :
    (drafts.foldl push g).scenario = g.scenario := by
  induction drafts generalizing g with
  | nil => rfl
  | cons d drafts ih => exact ih (g.push d)

variable [RandomSource σ]

/-- Whatever the supply, a number of ordinary frames is added. -/
theorem Holds.addOrdinaries (h : g.Holds drafts) (count : Nat) : ∃ more : List Draft,
    more.length = count ∧ (∀ d ∈ more, d.Ordinary) ∧
      (g.addOrdinaries count).Holds (drafts ++ more) ∧
      (g.addOrdinaries count).scenario = g.scenario := by
  induction count generalizing g drafts with
  | zero => exact ⟨[], rfl, by simp, by rwa [List.append_nil], rfl⟩
  | succ count ih =>
      let d : Draft := (Draft.ordinary.run g.supply).1
      have hd : d.Ordinary := Draft.yields_ordinary g.supply
      have hstep : g.addOrdinary.Holds (drafts ++ [d]) :=
        Holds.push (g := { g with supply := (Draft.ordinary.run g.supply).2 })
          ⟨h.frames, h.nextId, h.clock⟩ d
      obtain ⟨more, hlength, hordinary, hholds, hscenario⟩ := ih hstep
      refine ⟨d :: more, congrArg Nat.succ hlength, List.forall_mem_cons.mpr ⟨hd, hordinary⟩, ?_, ?_⟩
      · rwa [List.append_assoc] at hholds
      · exact hscenario

end Generator

/-! ## Traces -/

/-- The drafts of a trace of a size: the failure after the first half of the ordinary frames. -/
structure Scenario.Drafted (scenario : Scenario) (size : Nat) (before after : List Draft) :
    Prop where
  length_before : before.length = size / 2
  length_after : after.length = size - (size / 2 + scenario.anomaly.length)
  ordinary : ∀ d ∈ before ++ after, d.Ordinary

/-! ## Linked frames -/

/-- What stands in the second list has a partner in the first one. -/
theorem exists_mem_of_forall₂ {α β : Type} {R : α → β → Prop} {as : List α} {bs : List β}
    (h : List.Forall₂ R as bs) {b : β} (hb : b ∈ bs) : ∃ a ∈ as, R a b := by
  induction h with
  | nil => cases hb
  | cons hab _ ih =>
      rcases List.mem_cons.mp hb with rfl | hb
      · exact ⟨_, List.mem_cons_self, hab⟩
      · obtain ⟨a, ha, hR⟩ := ih hb
        exact ⟨a, List.mem_cons_of_mem _ ha, hR⟩

/-- What has a place in the second list has a partner in that place of the first one. -/
theorem exists_getElem?_of_forall₂ {α β : Type} {R : α → β → Prop} {as : List α} {bs : List β}
    (h : List.Forall₂ R as bs) {i : Nat} {b : β} (hb : bs[i]? = some b) :
    ∃ a, as[i]? = some a ∧ R a b := by
  obtain ⟨hlen, hR⟩ := List.forall₂_iff_get.mp h
  obtain ⟨hi, rfl⟩ := List.getElem?_eq_some_iff.mp hb
  have hi' : i < as.length := hlen ▸ hi
  exact ⟨as[i], List.getElem?_eq_getElem hi', hR i hi' hi⟩

/-- The identifiers from `first` to `last`, in ascending order. -/
def FrameId.interval (first last : Nat) : List FrameId :=
  (List.range' first (last + 1 - first)).map UInt64.ofNat

namespace Draft

/-- The frame has what the draft says, wherever it stands in a trace. -/
structure Placed (d : Draft) (r : Frame) : Prop where
  function : r.function = d.function
  allocated : r.allocated = d.allocated
  status : r.status = d.status
  parameters : r.parameters = d.parameters

theorem forall₂_linkFrom (id : FrameId) (caller : Option FrameId) (time : UInt64)
    (drafts : List Draft) : List.Forall₂ Placed drafts (linkFrom id caller time drafts) := by
  induction drafts generalizing id caller time with
  | nil => exact .nil
  | cons d drafts ih => exact .cons ⟨rfl, rfl, rfl, rfl⟩ (ih _ _ _)

theorem forall₂_link (drafts : List Draft) : List.Forall₂ Placed drafts (link drafts) :=
  forall₂_linkFrom _ _ _ drafts

theorem length_link (drafts : List Draft) : (link drafts).length = drafts.length :=
  (forall₂_link drafts).length_eq.symm

theorem map_id_linkFrom (n : Nat) (caller : Option FrameId) (time : UInt64) (drafts : List Draft) :
    (linkFrom (UInt64.ofNat n) caller time drafts).map (·.id) =
      (List.range' n drafts.length).map UInt64.ofNat := by
  induction drafts generalizing n caller time with
  | nil => rfl
  | cons d drafts ih =>
      have hnext : UInt64.ofNat n + 1 = UInt64.ofNat (n + 1) := (UInt64.ofNat_add n 1).symm
      rw [linkFrom, hnext, List.map_cons, ih, List.length_cons, List.range'_succ, List.map_cons]

theorem map_id_link (drafts : List Draft) :
    (link drafts).map (·.id) = FrameId.interval 1 drafts.length :=
  map_id_linkFrom 1 none 1000 drafts

end Draft

/-! ## Making a trace -/

/-- Whatever a generator did before, it makes a trace of the size, and goes on with its scenario. -/
theorem Generator.exists_generate_eq {σ : Type} [RandomSource σ] (g : Generator σ) (size : Nat) :
    ∃ before after, g.scenario.Drafted size before after ∧
      ((generate size).run g).1 = Draft.link (before ++ g.scenario.anomaly ++ after) ∧
      ((generate size).run g).2.scenario = g.scenario := by
  obtain ⟨before, hbefore, hbefores, hheld, hscenario⟩ := g.holds_reset.addOrdinaries (size / 2)
  have hkept : (g.reset.addOrdinaries (size / 2)).scenario = g.scenario := hscenario
  have hfailed : (g.reset.addOrdinaries (size / 2)).addAnomaly.Holds
      (before ++ g.scenario.anomaly) := by
    rw [addAnomaly, hkept]
    exact hheld.foldl_push g.scenario.anomaly
  have hsize : (g.reset.addOrdinaries (size / 2)).addAnomaly.frames.size =
      size / 2 + g.scenario.anomaly.length := by
    rw [← Array.length_toList, hfailed.frames, Draft.length_link, List.length_append, hbefore]
  obtain ⟨after, hafter, hafters, hdone, hlast⟩ := hfailed.addOrdinaries
    (size - (g.reset.addOrdinaries (size / 2)).addAnomaly.frames.size)
  refine ⟨before, after, ⟨hbefore, by rw [hafter, hsize], ?_⟩, hdone.frames, ?_⟩
  · exact List.forall_mem_append.mpr ⟨hbefores, hafters⟩
  · exact hlast.trans ((scenario_foldl_push _ _).trans hkept)

theorem Scenario.yields_trace {σ : Type} [RandomSource σ] (scenario : Scenario) (size : Nat) :
    Yields (scenario.trace size : StateM σ (List Frame)) fun frames =>
      ∃ before after, scenario.Drafted size before after ∧
        frames = Draft.link (before ++ scenario.anomaly ++ after) := by
  intro supply
  obtain ⟨before, after, hdrafted, hframes, -⟩ :=
    (Generator.ofSupply scenario supply).exists_generate_eq size
  exact ⟨before, after, hdrafted, hframes⟩

/-! ## Acceptance -/

namespace FrameId

theorem mem_interval {first last : Nat} {id : FrameId} :
    id ∈ interval first last ↔ ∃ n, first ≤ n ∧ n ≤ last ∧ UInt64.ofNat n = id := by
  simp only [interval, List.mem_map, List.mem_range'_1]
  constructor
  · rintro ⟨n, hn, rfl⟩
    exact ⟨n, hn.1, by omega, rfl⟩
  · rintro ⟨n, hfirst, hlast, rfl⟩
    exact ⟨n, ⟨hfirst, by omega⟩, rfl⟩

theorem nodup_interval (first : Nat) {last : Nat} (h : last < 2 ^ 64) :
    (interval first last).Nodup := by
  refine List.Nodup.map_on (fun m hm n hn heq => ?_) List.nodup_range'
  rw [List.mem_range'_1] at hm hn
  have hnat := congrArg UInt64.toNat heq
  rwa [UInt64.toNat_ofNat_of_lt' (show m < 2 ^ 64 by omega),
    UInt64.toNat_ofNat_of_lt' (show n < 2 ^ 64 by omega)] at hnat

end FrameId

/-- Frames numbered from one are accepted as long as their numbers fit into a word. -/
theorem FactBase.exists_ofFrames_link {drafts : List Draft} (h : drafts.length < 2 ^ 64) :
    ∃ b, ofFrames (Draft.link drafts) = .ok b := by
  refine exists_ofFrames_iff.mpr ⟨fun r hr hzero => ?_, ?_⟩
  · have hmem := List.mem_map_of_mem (f := Frame.id) hr
    rw [Draft.map_id_link, FrameId.mem_interval] at hmem
    obtain ⟨n, hpos, hle, hn⟩ := hmem
    have hnat := congrArg UInt64.toNat (hn.trans hzero)
    rw [UInt64.toNat_ofNat_of_lt' (show n < 2 ^ 64 by omega)] at hnat
    simp at hnat
    omega
  · rw [Draft.map_id_link]
    exact FrameId.nodup_interval 1 h

namespace Scenario

theorem length_anomaly_le (scenario : Scenario) : scenario.anomaly.length ≤ 15 := by
  cases scenario <;> decide

variable {scenario : Scenario} {size : Nat} {before after : List Draft}

theorem Drafted.length_eq (h : scenario.Drafted size before after) :
    (before ++ scenario.anomaly ++ after).length =
      max size (size / 2 + scenario.anomaly.length) := by
  simp only [List.length_append, h.length_before, h.length_after]
  omega

theorem length_trace {σ : Type} [RandomSource σ] (scenario : Scenario) (size : Nat) (supply : σ) :
    ((scenario.trace size).run supply).1.length =
      max size (size / 2 + scenario.anomaly.length) := by
  obtain ⟨before, after, hdrafted, htrace⟩ := scenario.yields_trace size supply
  rw [htrace, Draft.length_link, hdrafted.length_eq]

/-- A draft of a trace is ordinary or belongs to the failure. -/
theorem Drafted.mem_anomaly (h : scenario.Drafted size before after) {d : Draft}
    (hd : d ∈ before ++ scenario.anomaly ++ after) (hnot : ¬ d.Ordinary) :
    d ∈ scenario.anomaly := by
  obtain ⟨hbefore, hafter⟩ := List.forall_mem_append.mp h.ordinary
  rcases List.mem_append.mp hd with hd | hd
  · rcases List.mem_append.mp hd with hd | hd
    · exact absurd (hbefore d hd) hnot
    · exact hd
  · exact absurd (hafter d hd) hnot

/-- No draft of a trace takes much time or holds more than the largest data set. -/
theorem Drafted.bounds (h : scenario.Drafted size before after) :
    ∀ d ∈ before ++ scenario.anomaly ++ after,
      (5 ≤ d.advance.toNat ∧ d.advance.toNat ≤ 100) ∧ d.allocated.toNat ≤ 10485760 := by
  intro d hd
  by_cases hordinary : d.Ordinary
  · have := hordinary.advance
    have := hordinary.allocated
    omega
  · have hanomaly : ∀ d ∈ scenario.anomaly,
        (5 ≤ d.advance.toNat ∧ d.advance.toNat ≤ 100) ∧ d.allocated.toNat ≤ 10485760 := by
      cases scenario <;> decide
    exact hanomaly d (h.mem_anomaly hd hordinary)

end Scenario

/-! ## Times -/

/-- The clock moves by each advance and does not run over. -/
theorem Draft.timestamp_linkFrom {id : FrameId} {caller : Option FrameId} {time : UInt64}
    {drafts : List Draft} (hadvance : ∀ d ∈ drafts, d.advance.toNat ≤ 100)
    (hlimit : time.toNat + 100 * drafts.length < 2 ^ 64) :
    ∀ r ∈ linkFrom id caller time drafts, r.timestamp.toNat ≤ time.toNat + 100 * drafts.length := by
  induction drafts generalizing id caller time with
  | nil => simp [linkFrom]
  | cons d drafts ih =>
      obtain ⟨hd, hdrafts⟩ := List.forall_mem_cons.mp hadvance
      rw [List.length_cons] at hlimit ⊢
      have hnext : (time + d.advance).toNat = time.toNat + d.advance.toNat := by
        rw [UInt64.toNat_add, Nat.mod_eq_of_lt (by omega)]
      intro r hr
      rcases List.mem_cons.mp hr with rfl | hr
      · exact Nat.le_add_right _ _
      · have hle := ih hdrafts (by omega) r hr
        omega

end FrameLog
