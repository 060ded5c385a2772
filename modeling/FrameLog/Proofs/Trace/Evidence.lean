import FrameLog.Proofs.CallGraph.Line
import FrameLog.Proofs.Join.Plain
import FrameLog.Proofs.Lookup
import Mathlib.Algebra.GroupWithZero.Nat

/-!
# The evidence in a generated trace

What a goal finds in a generated trace is counted draft by draft. No ordinary frame, however it was
drawn, adds a match to the goals that look for a failure.
-/

namespace FrameLog

/-! ## Matching with a variable for the frame -/

namespace Fact

variable {p : Predicate} {x y : String} {u v w c d : Value}

theorem match?_var_const_var (hxy : x ≠ y) :
    (Fact.mk p [v, u, w]).match? [.var x, .const c, .var y] =
      if c.agrees u then some (.ofList [(x, v), (y, w)]) else none := by
  have hfree : (Binding.ofList [(x, v)]).get? y = none := by
    rw [Binding.ofList, List.foldl_cons, List.foldl_nil, Binding.get?_insert, if_neg hxy.symm,
      Binding.get?_empty]
  have hfirst : (Fact.mk p [v, u, w]).match? [.var x, .const c, .var y] =
      matchFrom? (.ofList [(x, v)]) [.const c, .var y] [u, w] := rfl
  have hlast : matchFrom? (.ofList [(x, v)]) [.var y] [w] = some (.ofList [(x, v), (y, w)]) := by
    simp only [matchFrom?, Term.matchValue?, Binding.bind?, hfree]
    rfl
  rw [hfirst, matchFrom?_const, hlast]

theorem match?_var_const_const :
    (Fact.mk p [v, u, w]).match? [.var x, .const c, .const d] =
      if c.agrees u then if d.agrees w then some (.ofList [(x, v)]) else none else none := by
  have hfirst : (Fact.mk p [v, u, w]).match? [.var x, .const c, .const d] =
      matchFrom? (.ofList [(x, v)]) [.const c, .const d] [u, w] := rfl
  rw [hfirst, matchFrom?_const, matchFrom?_const]
  rfl

end Fact

/-! ## Counting matches by drafts -/

theorem sum_map_eq_of_forall₂ {α β : Type} {R : α → β → Prop} {f : α → Nat} {k : β → Nat}
    {as : List α} {bs : List β} (h : List.Forall₂ R as bs) (hR : ∀ a c, R a c → f a = k c) :
    (as.map f).sum = (bs.map k).sum := by
  induction h with
  | nil => rfl
  | cons hab _ ih => rw [List.map_cons, List.map_cons, List.sum_cons, List.sum_cons, ih, hR _ _ hab]

theorem Draft.exists_placed {drafts : List Draft} {r : Frame} (h : r ∈ link drafts) :
    ∃ d ∈ drafts, d.Placed r := exists_mem_of_forall₂ (forall₂_link drafts) h

/-- The matches of a goal among the rows of a frame. -/
def Goal.matches (g : Goal) (r : Frame) : List Binding :=
  (r.rows g.predicate).filterMap fun row => (Fact.mk g.predicate row).match? g.args

theorem answers_eq_flatMap_matches {frames : List Frame} {b : FactBase}
    (h : FactBase.ofFrames frames = .ok b) (g : Goal) : g.answers b = frames.flatMap g.matches :=
  answers_of_ofFrames h g

/-- The frame of a draft has a certain number of matches wherever it stands, and none when it is an
ordinary frame. -/
structure Goal.CountedBy (g : Goal) (count : Draft → Nat) : Prop where
  placed : ∀ d r, d.Placed r → (g.matches r).length = count d
  ordinary : ∀ d, d.Ordinary → count d = 0

section

variable {scenario : Scenario} {size : Nat} {before after : List Draft} {b : FactBase} {g : Goal}
  {count : Draft → Nat}

/-- Only the failure is counted. -/
theorem Scenario.Drafted.length_answers (hdrafted : scenario.Drafted size before after)
    (h : FactBase.ofFrames (Draft.link (before ++ scenario.anomaly ++ after)) = .ok b)
    (hg : g.CountedBy count) : (g.answers b).length = (scenario.anomaly.map count).sum := by
  have hnone : ∀ ds : List Draft, (∀ d ∈ ds, d.Ordinary) → (ds.map count).sum = 0 := fun ds hds =>
    List.sum_eq_zero_iff_forall_eq_nat.mpr fun n hn => by
      obtain ⟨d, hd, rfl⟩ := List.mem_map.mp hn
      exact hg.ordinary d (hds d hd)
  have hsum : (g.answers b).length = ((before ++ scenario.anomaly ++ after).map count).sum := by
    rw [answers_eq_flatMap_matches h, List.length_flatMap]
    exact (sum_map_eq_of_forall₂ (Draft.forall₂_link _) fun d r hr => (hg.placed d r hr).symm).symm
  obtain ⟨hbefore, hafter⟩ := List.forall_mem_append.mp hdrafted.ordinary
  rw [hsum, List.map_append, List.map_append, List.sum_append, List.sum_append,
    hnone before hbefore, hnone after hafter, Nat.zero_add, Nat.add_zero]

end

/-! ## Evidence -/

/-- Which frames failed? -/
def failedFrames : Goal := ⟨.status, [.var "X", .const (.atom "error")]⟩

/-- Which frames wait, and for what? -/
def waitingFrames : Goal := ⟨.param, [.var "F", .const (.atom "waiting_for"), .var "L"]⟩

/-- Which frames hold a buffer of one mebibyte? -/
def bufferFrames : Goal :=
  ⟨.param, [.var "F", .const (.atom "buffer_size"), .const (.int 1048576)]⟩

/-- Which frames load a data set? The time and the status can be asked for as well. -/
def loadingFrames (time status : Term) : Goal :=
  ⟨.frame, [.var "F", .const (.atom "load_dataset"), time, status]⟩

/-- Which frames called which? -/
def allCalls : Goal := ⟨.calls, [.var "A", .var "B"]⟩

theorem Value.atom_agrees_atom (s t : String) : (Value.atom s).agrees (.atom t) = (s == t) := rfl

theorem failedFrames_countedBy :
    failedFrames.CountedBy fun d => if d.status = .error then 1 else 0 := by
  constructor
  · intro d r hr
    have hrows : failedFrames.matches r =
        [[Value.ofUInt64 r.id, .atom r.status.name]].filterMap fun row =>
          (Fact.mk .status row).match? [.var "X", .const (.atom "error")] := rfl
    rw [hrows, hr.status]
    cases d.status <;> rfl
  · intro d hd
    rcases hd.status with h | h <;> rw [h, if_neg (by decide)]

theorem Draft.Ordinary.ne_of_mem {d : Draft} (h : d.Ordinary) {name : String}
    (hname : name.toList.head? ≠ some 'a') : ∀ e ∈ d.parameters, e.1 ≠ name := by
  intro e he heq
  have hmem : e.1 ∈ d.parameters.map (·.1) := List.mem_map_of_mem he
  rw [h.parameters.names] at hmem
  obtain ⟨n, -, hn⟩ := List.mem_map.mp hmem
  rw [← heq, ← hn] at hname
  exact hname (by simp)

/-- Parameters are counted one by one. -/
theorem length_matches_param {args : List Term} {counted : String × Value → Bool} {r : Frame}
    (h : ∀ e ∈ r.parameters,
      ((Fact.mk .param [.ofUInt64 r.id, .atom e.1, e.2]).match? args).isSome = counted e) :
    ((Goal.mk .param args).matches r).length = r.parameters.countP counted := by
  rw [Goal.matches, List.length_filterMap_eq_countP, Frame.rows, List.countP_map]
  exact List.countP_congr fun e he => by rw [← h e he]; rfl

theorem waitingFrames_countedBy : waitingFrames.CountedBy fun d =>
    d.parameters.countP fun e => "waiting_for" == e.1 := by
  constructor
  · intro d r hr
    rw [← hr.parameters]
    refine length_matches_param fun e _ => ?_
    rw [Fact.match?_var_const_var (by decide), Value.atom_agrees_atom]
    cases "waiting_for" == e.1 <;> rfl
  · intro d hd
    rw [List.countP_eq_zero]
    intro e he
    simpa using (hd.ne_of_mem (by decide) e he).symm

theorem bufferFrames_countedBy : bufferFrames.CountedBy fun d =>
    d.parameters.countP fun e => "buffer_size" == e.1 && (Value.int 1048576).agrees e.2 := by
  constructor
  · intro d r hr
    rw [← hr.parameters]
    refine length_matches_param fun e _ => ?_
    rw [Fact.match?_var_const_const, Value.atom_agrees_atom]
    cases "buffer_size" == e.1 <;> cases (Value.int 1048576).agrees e.2 <;> rfl
  · intro d hd
    rw [List.countP_eq_zero]
    intro e he
    simpa using fun heq => absurd heq.symm (hd.ne_of_mem (by decide) e he)

theorem matches_loadingFrames (time status : Term) (r : Frame) :
    (loadingFrames time status).matches r =
      if "load_dataset" == r.function then
        (matchFrom? (.ofList [("F", .ofUInt64 r.id)]) [time, status]
          [.ofUInt64 r.timestamp, .atom r.status.name]).toList
      else [] := by
  have hmatch : (Fact.mk .frame [.ofUInt64 r.id, .atom r.function, .ofUInt64 r.timestamp,
      .atom r.status.name]).match? (loadingFrames time status).args =
        if (Value.atom "load_dataset").agrees (.atom r.function) then
          matchFrom? (.ofList [("F", .ofUInt64 r.id)]) [time, status]
            [.ofUInt64 r.timestamp, .atom r.status.name]
        else none := matchFrom?_const
  have hrows : (loadingFrames time status).matches r =
      ((Fact.mk .frame [.ofUInt64 r.id, .atom r.function, .ofUInt64 r.timestamp,
        .atom r.status.name]).match? (loadingFrames time status).args).toList := by
    rw [Goal.matches, List.filterMap_eq_flatMap_toList]
    exact List.flatMap_singleton _ _
  rw [hrows, hmatch, Value.atom_agrees_atom]
  split <;> rfl

theorem loadingFrames_countedBy {time status : Term}
    (hfree : ∀ id t s : Value,
      (matchFrom? (.ofList [("F", id)]) [time, status] [t, s]).isSome = true) :
    (loadingFrames time status).CountedBy
      fun d => if "load_dataset" == d.function then 1 else 0 := by
  constructor
  · intro d r hr
    obtain ⟨m, hm⟩ := Option.isSome_iff_exists.mp
      (hfree (.ofUInt64 r.id) (.ofUInt64 r.timestamp) (.atom r.status.name))
    rw [matches_loadingFrames, hm, hr.function]
    cases "load_dataset" == d.function <;> rfl
  · intro d hd
    have hsystem : ∀ f ∈ systemFunctions.toList, ("load_dataset" == f) = false := by decide
    rw [hsystem _ hd.function]
    rfl

/-- Every call answers the question which calls there are. -/
theorem length_answers_allCalls {drafts : List Draft} {b : FactBase}
    (h : FactBase.ofFrames (Draft.link drafts) = .ok b) :
    (allCalls.answers b).length = drafts.length - 1 := by
  have hmatch : ∀ f ∈ b.facts .calls, (f.match? allCalls.args).isSome = true := by
    intro f hf
    obtain ⟨c, d, hvalues⟩ := FactBase.exists_values_of_mem_calls hf
    rw [Fact.match?, hvalues]
    rfl
  rw [Goal.answers, List.length_filterMap_eq_countP, ← FactBase.length_facts_calls h]
  exact List.countP_eq_length.mpr hmatch

/-! ## Numbers that fit -/

/-- The numbers in a trace that is not too long are all kept as integers. -/
theorem Scenario.Drafted.fits {scenario : Scenario} {size : Nat} {before after : List Draft}
    (hdrafted : scenario.Drafted size before after)
    (hlen : (before ++ scenario.anomaly ++ after).length < 2 ^ 56) :
    ∀ r ∈ Draft.link (before ++ scenario.anomaly ++ after), r.Fits := by
  have hbounds := hdrafted.bounds
  generalize before ++ scenario.anomaly ++ after = drafts at hlen hbounds
  intro r hr
  obtain ⟨d, hd, hplaced⟩ := Draft.exists_placed hr
  refine ⟨?_, fun caller hc => ?_, ?_, ?_⟩
  · have hid : r.id ∈ FrameId.interval 1 drafts.length := by
      rw [← Draft.map_id_link]
      exact List.mem_map_of_mem hr
    obtain ⟨n, -, hn, heq⟩ := FrameId.mem_interval.mp hid
    exact heq ▸ FrameId.fits_ofNat (by omega)
  · have hcall : (caller, r.id) ∈ (CallGraph.line drafts.length).edges := by
      rw [← Draft.filterMap_call?_link]
      exact List.mem_filterMap.mpr ⟨r, hr, by rw [Frame.call?, hc]; rfl⟩
    obtain ⟨n, hn, heq⟩ := List.mem_map.mp hcall
    rw [List.mem_range'_1] at hn
    obtain ⟨rfl, -⟩ := Prod.mk.inj heq
    exact FrameId.fits_ofNat (by omega)
  · have hstart : (1000 : UInt64).toNat = 1000 := rfl
    have htime : r.timestamp.toNat ≤ (1000 : UInt64).toNat + 100 * drafts.length :=
      Draft.timestamp_linkFrom (fun d hd => (hbounds d hd).1.2) (by omega) r hr
    rw [Fits]
    omega
  · have := (hbounds d hd).2
    rw [Fits, hplaced.allocated]
    omega

/-! ## Data sets and their sizes -/

theorem flatMap_ite {α β : Type} (p : α → Bool) (f : α → β) (as : List α) :
    (as.flatMap fun a => if p a then [f a] else []) = (as.filter p).map f := by
  induction as with
  | nil => rfl
  | cons a as ih =>
      rw [List.flatMap_cons, ih]
      cases hp : p a <;> simp [hp]

/-- Which frames load a data set, and how much have they allocated? -/
def loadingAllocations : Conjunction :=
  ⟨[⟨loadingFrames .anonymous .anonymous, false⟩, ⟨⟨.allocated, [.var "F", .var "B"]⟩, false⟩]⟩

/-- The frame and its bytes. -/
def Frame.allocation (r : Frame) : Binding :=
  .ofList [("F", .ofUInt64 r.id), ("B", .ofUInt64 r.allocated)]

theorem Frame.get?_allocation (r : Frame) :
    r.allocation.get? "F" = some (.ofUInt64 r.id) ∧
      r.allocation.get? "B" = some (.ofUInt64 r.allocated) := by
  simp [allocation, Binding.ofList, Binding.get?_insert]

theorem Frame.eq_of_mem_values_allocation (r : Frame) {v : Value} (h : v ∈ r.allocation.values) :
    v = .ofUInt64 r.id ∨ v = .ofUInt64 r.allocated := by
  obtain ⟨x, hx⟩ := Binding.mem_values_iff.mp h
  rw [allocation, Binding.ofList, List.foldl_cons, List.foldl_cons, List.foldl_nil,
    Binding.get?_insert, Binding.get?_insert, Binding.get?_empty] at hx
  split at hx
  · exact .inr (Option.some.inj hx).symm
  · split at hx
    · exact .inl (Option.some.inj hx).symm
    · cases hx

section

variable {frames : List Frame} {b : FactBase} (h : FactBase.ofFrames frames = .ok b)

include h

theorem answers_loadingFrames : (loadingFrames .anonymous .anonymous).answers b =
    (frames.filter fun r => "load_dataset" == r.function).map fun r =>
      .ofList [("F", .ofUInt64 r.id)] := by
  have hmatches : ∀ r : Frame, (loadingFrames .anonymous .anonymous).matches r =
      if "load_dataset" == r.function then [.ofList [("F", .ofUInt64 r.id)]] else [] :=
    matches_loadingFrames .anonymous .anonymous
  rw [answers_eq_flatMap_matches h, List.flatMap_congr fun r _ => hmatches r]
  exact flatMap_ite _ _ frames

variable (hfits : ∀ r ∈ frames, r.Fits)

include hfits

theorem extensions_allocation {r : Frame} (hr : r ∈ frames) :
    (Condition.mk ⟨.allocated, [.var "F", .var "B"]⟩ false).extensions b
      (.ofList [("F", .ofUInt64 r.id)]) = [r.allocation] := by
  have hgoal : (Goal.mk .allocated [.var "F", .var "B"]).substitute
      (.ofList [("F", .ofUInt64 r.id)]) = ⟨.allocated, FrameId.term r.id :: ["B"].map .var⟩ := by
    rw [FrameId.term, ← Value.ofUInt64_of_fits (hfits r hr).id]
    rfl
  have hvars := answers_of_id_vars h hfits (by decide : Predicate.allocated ≠ .calls) hr
    (List.nodup_singleton "B") rfl
  rw [Condition.extensions, hgoal, hvars]
  rfl

theorem answers_loadingAllocations : loadingAllocations.answers b =
    (frames.filter fun r => "load_dataset" == r.function).map Frame.allocation := by
  have hmem : ∀ r ∈ frames.filter fun r => "load_dataset" == r.function, r ∈ frames :=
    fun r hr => (List.mem_filter.mp hr).1
  have hanswers : loadingAllocations.answers b =
      (Condition.mk ⟨.allocated, [.var "F", .var "B"]⟩ false).extend b
        ((loadingFrames .anonymous .anonymous).answers b) := rfl
  have hextensions : ((loadingFrames .anonymous .anonymous).answers b).flatMap
      ((Condition.mk ⟨.allocated, [.var "F", .var "B"]⟩ false).extensions b) =
        (frames.filter fun r => "load_dataset" == r.function).map Frame.allocation := by
    rw [answers_loadingFrames h, List.flatMap_map,
      List.flatMap_congr fun r hr => extensions_allocation h hfits (hmem r hr)]
    exact List.map_eq_flatMap.symm
  have hfree : ∀ m ∈ (frames.filter fun r => "load_dataset" == r.function).map Frame.allocation,
      m.FloatFree := by
    intro m hm v hv
    obtain ⟨r, hr, rfl⟩ := List.mem_map.mp hm
    have hr := hfits r (hmem r hr)
    rcases r.eq_of_mem_values_allocation hv with rfl | rfl
    · rw [Value.ofUInt64_of_fits hr.id]
      rfl
    · rw [Value.ofUInt64_of_fits hr.allocated]
      rfl
  have hnodup : ((frames.filter fun r => "load_dataset" == r.function).map
      Frame.allocation).Nodup := by
    have hids : (frames.map (·.id)).Nodup := (FactBase.ofFrames_eq_ok_iff.mp h).2.1
    refine List.Nodup.map_on (fun r hr r' hr' heq => ?_) (hids.of_map _ |>.filter _)
    refine List.inj_on_of_nodup_map hids (hmem r hr) (hmem r' hr') ?_
    have hvalue : Value.ofUInt64 r.id = .ofUInt64 r'.id := by
      rw [← Option.some_inj, ← r.get?_allocation.1, heq, r'.get?_allocation.1]
    have hid := congrArg Value.toFrameId? hvalue
    rw [Value.toFrameId?_ofUInt64, Value.toFrameId?_ofUInt64, if_pos (hfits r (hmem r hr)).id,
      if_pos (hfits r' (hmem r' hr')).id] at hid
    exact Option.some.inj hid
  rw [hanswers, Condition.extend_eq, hextensions, foldl_insertNew_eq_eraseDups hfree,
    eraseDups_of_nodup hnodup]

end

end FrameLog
