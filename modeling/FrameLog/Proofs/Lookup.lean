import FrameLog.Match
import FrameLog.Proofs.Distinct
import FrameLog.Proofs.FactBase
import FrameLog.Proofs.FrameId

/-!
# Looking frames up

A goal that names a frame by its identifier finds what the frame recorded and nothing else.
-/

namespace FrameLog

/-! ## Matching with variables that are not bound yet -/

theorem matchFrom?_vars {b : Binding} {names : List String} {values : List Value}
    (hnames : names.Nodup) (hlen : names.length = values.length)
    (hfree : ∀ x ∈ names, b.get? x = none) : matchFrom? b (names.map .var) values =
      some ((names.zip values).foldl (fun b e => b.insert e.1 e.2) b) := by
  induction names generalizing b values with
  | nil =>
      cases values with
      | nil => rfl
      | cons v values => cases hlen
  | cons x names ih =>
      cases values with
      | nil => cases hlen
      | cons v values =>
          obtain ⟨hx, hnames⟩ := List.nodup_cons.mp hnames
          have hbind : b.bind? x v = some (b.insert x v) := by
            simp [Binding.bind?, hfree x List.mem_cons_self]
          have hfree' : ∀ y ∈ names, (b.insert x v).get? y = none := by
            intro y hy
            have hne : y ≠ x := fun heq => hx (heq ▸ hy)
            rw [Binding.get?_insert, if_neg hne]
            exact hfree y (List.mem_cons_of_mem _ hy)
          have hrest := ih hnames (Nat.succ.inj hlen) hfree'
          simpa [matchFrom?, Term.matchValue?, hbind] using hrest

theorem matchFrom?_const {b : Binding} {w v : Value} {args : List Term} {values : List Value} :
    matchFrom? b (.const w :: args) (v :: values) =
      if w.agrees v then matchFrom? b args values else none := by
  simp only [matchFrom?, Term.matchValue?]
  split <;> rfl

namespace Fact

variable {p : Predicate} {u v w : Value} {x : String}

/-- A constant before different variables: if it agrees with the first value, the others are bound. -/
theorem match?_const_vars {names : List String} {values : List Value} (hw : w.agrees v = true)
    (hnames : names.Nodup) (hlen : names.length = values.length) :
    (Fact.mk p (v :: values)).match? (.const w :: names.map .var) =
      some (.ofList (names.zip values)) := by
  rw [match?, matchFrom?_const, if_pos hw,
    matchFrom?_vars hnames hlen fun y _ => Binding.get?_empty y]
  rfl

theorem match?_var_const :
    (Fact.mk p [v, u]).match? [.var x, .const w] =
      if w.agrees u then some (.ofList [(x, v)]) else none := by
  simp only [match?, matchFrom?, Term.matchValue?, Binding.bind?, Binding.get?_empty]
  split <;> rfl

end Fact

/-! ## Goals that name a frame -/

/-- The numbers of the frame are all kept as integers. -/
structure Frame.Fits (r : Frame) : Prop where
  id : FrameLog.Fits r.id
  caller : ∀ caller, r.caller = some caller → FrameLog.Fits caller
  timestamp : FrameLog.Fits r.timestamp
  allocated : FrameLog.Fits r.allocated

section

variable {frames : List Frame} {b : FactBase} {r : Frame} {p : Predicate}

theorem answers_of_ofFrames (h : FactBase.ofFrames frames = .ok b) (g : Goal) : g.answers b =
    frames.flatMap fun r => (r.rows g.predicate).filterMap fun row =>
      (Fact.mk g.predicate row).match? g.args := by
  rw [Goal.answers, FactBase.facts_of_ofFrames h, List.filterMap_flatMap]
  refine List.flatMap_congr fun r _ => ?_
  rw [List.filterMap_map]
  rfl

/-- No row of a frame matches a goal that begins with another number than its identifier. -/
theorem filterMap_match?_eq_nil (hid : Fits r.id) (hp : p ≠ .calls) {i : Int64}
    (hi : i.toInt ≠ r.id.toNat) (args : List Term) :
    (r.rows p).filterMap (fun row => (Fact.mk p row).match? (.const (.int i) :: args)) = [] := by
  rw [List.filterMap_eq_nil_iff]
  intro row hrow
  obtain ⟨rest, rfl⟩ := List.head?_eq_some_iff.mp (Frame.head?_rows hp hrow)
  rw [Fact.match?, matchFrom?_const, if_neg]
  rwa [Value.int_agrees_ofUInt64_iff hid]

variable (h : FactBase.ofFrames frames = .ok b) (hfits : ∀ r ∈ frames, r.Fits)

include h hfits

/-- A number that identifies no frame is the first value of no fact but those of `calls`. -/
theorem answers_eq_nil_of_not_id {g : Goal} (hp : g.predicate ≠ .calls) {i : Int64}
    (hi : ∀ r ∈ frames, i.toInt ≠ r.id.toNat) (hg : g.args.head? = some (.const (.int i))) :
    g.answers b = [] := by
  obtain ⟨args, hargs⟩ := List.head?_eq_some_iff.mp hg
  rw [answers_of_ofFrames h, List.flatMap_eq_nil_iff, hargs]
  intro r hr
  exact filterMap_match?_eq_nil (hfits r hr).id hp (hi r hr) args

/-- A goal that begins with the identifier of a frame is answered from the rows of the frame. -/
theorem answers_of_id (hp : p ≠ .calls) (hr : r ∈ frames) (args : List Term) :
    (Goal.mk p (FrameId.term r.id :: args)).answers b =
      (r.rows p).filterMap fun row => (Fact.mk p row).match? (FrameId.term r.id :: args) := by
  rw [answers_of_ofFrames h]
  refine flatMap_eq_of_nodup (FactBase.ofFrames_eq_ok_iff.mp h).2.1 hr fun s hs hne => ?_
  refine filterMap_match?_eq_nil (hfits s hs).id hp ?_ args
  rw [Value.toInt_ofInt_toNat (hfits r hr).id]
  intro heq
  exact hne (UInt64.toNat_inj.mp (Int.natCast_inj.mp heq).symm)

/-- With different variables for all other values, every row of the frame is an answer. -/
theorem answers_of_id_vars (hp : p ≠ .calls) (hr : r ∈ frames) {names : List String}
    (hnames : names.Nodup) (hlen : names.length + 1 = p.arity) :
    (Goal.mk p (FrameId.term r.id :: names.map .var)).answers b =
      (r.rows p).map fun row => .ofList (names.zip row.tail) := by
  have hid := (Value.ofNat_agrees_ofUInt64_iff (hfits r hr).id (hfits r hr).id).mpr rfl
  rw [answers_of_id h hfits hp hr, List.filterMap_eq_map_iff_forall_eq_some]
  intro row hrow
  obtain ⟨values, rfl⟩ := List.head?_eq_some_iff.mp (Frame.head?_rows hp hrow)
  have hvalues : names.length = values.length := by
    have := Frame.length_rows hrow
    rw [List.length_cons] at this
    omega
  exact Fact.match?_const_vars hid hnames hvalues

theorem answers_caller (hr : r ∈ frames) (x : String) :
    (Goal.mk .calls [.var x, FrameId.term r.id]).answers b =
      r.caller.toList.map fun caller => .ofList [(x, .ofNat caller.toNat)] := by
  have hrows : ∀ s ∈ frames, ((s.rows .calls).filterMap fun row =>
      (Fact.mk .calls row).match? [.var x, FrameId.term r.id]) =
        if r.id = s.id then s.caller.toList.map fun caller => .ofList [(x, .ofUInt64 caller)]
        else [] := by
    intro s hs
    have hagrees := Value.ofNat_agrees_ofUInt64_iff (hfits r hr).id (hfits s hs).id
    cases hc : s.caller with
    | none => simp [Frame.rows, hc]
    | some caller =>
        simp only [Frame.rows, hc, Option.toList_some, List.map_cons, List.map_nil,
          FrameId.term, List.filterMap_cons, List.filterMap_nil, Fact.match?_var_const, hagrees]
        split <;> simp_all
  rw [answers_of_ofFrames h, List.flatMap_congr hrows,
    flatMap_eq_of_nodup (FactBase.ofFrames_eq_ok_iff.mp h).2.1 hr fun s _ hne =>
      if_neg (Ne.symm hne), if_pos rfl]
  refine List.map_congr_left fun caller hcaller => ?_
  rw [Value.ofUInt64_of_fits ((hfits r hr).caller caller (by simpa using hcaller))]

theorem answers_parameter (hr : r ∈ frames) (name x : String) :
    (Goal.mk .param [FrameId.term r.id, .const (.atom name), .var x]).answers b =
      (r.parameters.filter (·.1 == name)).map fun e => .ofList [(x, e.2)] := by
  have hid := (Value.ofNat_agrees_ofUInt64_iff (hfits r hr).id (hfits r hr).id).mpr rfl
  have hmatch : ∀ e : String × Value, (Fact.mk .param [.ofUInt64 r.id, .atom e.1, e.2]).match?
      [FrameId.term r.id, .const (.atom name), .var x] =
        if e.1 == name then some (.ofList [(x, e.2)]) else none := by
    intro e
    have hname : (Value.atom name).agrees (.atom e.1) = (e.1 == name) := Bool.beq_comm
    rw [Fact.match?, FrameId.term, matchFrom?_const, if_pos hid, matchFrom?_const, hname]
    rfl
  rw [answers_of_id h hfits (by decide) hr, Frame.rows, List.filterMap_map]
  simp only [Function.comp_def, hmatch]
  generalize r.parameters = es
  induction es with
  | nil => rfl
  | cons e es ih =>
      rw [List.filterMap_cons, List.filter_cons, ih]
      cases e.1 == name with
      | true => rfl
      | false => rfl

end

/-! ## What is found -/

/-- What the frame recorded is what goals that name it find. -/
structure FactBase.Recovers (b : FactBase) (r : Frame) : Prop where
  frame : ∀ {name time status : String}, [name, time, status].Nodup →
    (Goal.mk .frame [r.id.term, .var name, .var time, .var status]).answers b =
      [.ofList [(name, .atom r.function), (time, .ofNat r.timestamp.toNat),
        (status, .atom r.status.name)]]
  status : ∀ x, (Goal.mk .status [r.id.term, .var x]).answers b =
    [.ofList [(x, .atom r.status.name)]]
  allocated : ∀ x, (Goal.mk .allocated [r.id.term, .var x]).answers b =
    [.ofList [(x, .ofNat r.allocated.toNat)]]
  caller : ∀ x, (Goal.mk .calls [.var x, r.id.term]).answers b =
    r.caller.toList.map fun caller => .ofList [(x, .ofNat caller.toNat)]
  parameters : ∀ {name value : String}, name ≠ value →
    (Goal.mk .param [r.id.term, .var name, .var value]).answers b =
      r.parameters.map fun e => .ofList [(name, .atom e.1), (value, e.2)]
  parameter : ∀ name x,
    ((Goal.mk .param [r.id.term, .const (.atom name), .var x]).answers b).head? =
      (r.parameter? name).map fun value => .ofList [(x, value)]

/-- Of an accepted trace whose numbers are kept as integers, every frame is recovered by its
identifier, and a number that identifies no frame is found in the first place of no fact but those of
`calls`. The values of parameters are arbitrary. -/
theorem FactBase.recovers_of_ofFrames {frames : List Frame} {b : FactBase}
    (h : ofFrames frames = .ok b) (hfits : ∀ r ∈ frames, r.Fits) :
    (∀ r ∈ frames, b.Recovers r) ∧
    ∀ g : Goal, g.predicate ≠ .calls → ∀ i : Int64, (∀ r ∈ frames, i.toInt ≠ r.id.toNat) →
      g.args.head? = some (.const (.int i)) → g.answers b = [] := by
  refine ⟨fun r hr => ⟨?_, ?_, ?_, answers_caller h hfits hr, ?_, ?_⟩,
    fun g hp i hi hg => answers_eq_nil_of_not_id h hfits hp hi hg⟩
  · intro name time status hnames
    rw [← Value.ofUInt64_of_fits (hfits r hr).timestamp]
    exact answers_of_id_vars h hfits (by decide) hr hnames rfl
  · intro x
    exact answers_of_id_vars h hfits (by decide) hr (List.pairwise_singleton _ x) rfl
  · intro x
    rw [← Value.ofUInt64_of_fits (hfits r hr).allocated]
    exact answers_of_id_vars h hfits (by decide) hr (List.pairwise_singleton _ x) rfl
  · intro name value hne
    have hnames : [name, value].Nodup := by simpa using hne
    have hrows := answers_of_id_vars h hfits (by decide : Predicate.param ≠ .calls) hr hnames rfl
    rw [Frame.rows, List.map_map] at hrows
    exact hrows
  · intro name x
    rw [answers_parameter h hfits hr, List.head?_map, List.head?_filter, Frame.parameter?,
      Option.map_map]
    rfl

/-- Frame 1 called frame 2, which has two parameters of one name; the value of the first is no
number. -/
def retriedTrace : List Frame :=
  [⟨1, "main", none, 1000, 64, .active, []⟩,
    ⟨2, "fetch", some 1, 1010, 4096, .error,
      [("delay", .float ⟨0x7ff8000000000000⟩), ("url", .atom "home"), ("delay", .int 5)]⟩]

theorem fits_retriedTrace : ∀ r ∈ retriedTrace, r.Fits := by
  intro r hr
  rcases List.mem_pair.mp hr with rfl | rfl
  · refine ⟨by decide, fun caller hc => ?_, by decide, by decide⟩
    cases hc
  · refine ⟨by decide, fun caller hc => ?_, by decide, by decide⟩
    obtain rfl := Option.some.inj hc
    decide

theorem recovers_of_ofFrames_retriedTrace : ∃ b, FactBase.ofFrames retriedTrace = .ok b ∧
    (∀ r ∈ retriedTrace, r.Fits) ∧
    ((Goal.mk .param [.const (.int 2), .const (.atom "delay"), .var "V"]).answers b).head? =
      some (.ofList [("V", .float ⟨0x7ff8000000000000⟩)]) ∧
    (Goal.mk .calls [.var "C", .const (.int 2)]).answers b = [.ofList [("C", .int 1)]] ∧
    (Goal.mk .status [.const (.int 3), .var "S"]).answers b = [] := by
  obtain ⟨b, hb⟩ := FactBase.exists_ofFrames_iff.mpr
    (show (∀ r ∈ retriedTrace, r.id ≠ 0) ∧ (retriedTrace.map (·.id)).Nodup by decide)
  obtain ⟨hrecovers, hnone⟩ := FactBase.recovers_of_ofFrames hb fits_retriedTrace
  have hfetch := hrecovers _ (List.mem_cons_of_mem _ List.mem_cons_self)
  refine ⟨b, hb, fits_retriedTrace, hfetch.parameter "delay" "V", hfetch.caller "C", ?_⟩
  exact hnone _ (by decide) 3 (by decide) rfl

end FrameLog
