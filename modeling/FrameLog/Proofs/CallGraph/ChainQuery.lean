import FrameLog.Proofs.CallGraph.Path
import FrameLog.Proofs.Join.Exact
import FrameLog.Proofs.Join.Relevant

/-!
# Chain queries

A chain query asks for calls that lead from one frame to another, with a variable for every frame
between them. Its answers are the walks of that length in the call graph, so that the shortest chain
with an answer is as long as the path that the search finds.
-/

namespace FrameLog

/-! ## Calls between frames -/

/-- All facts of `calls` are about frames. -/
def FactBase.CallsFrames (facts : FactBase) : Prop :=
  ∀ f ∈ facts.facts .calls, ∀ v ∈ f.values, v.IsFrame

instance (facts : FactBase) : Decidable facts.CallsFrames :=
  inferInstanceAs (Decidable (∀ f ∈ facts.facts .calls, ∀ v ∈ f.values, v.IsFrame))

section

variable {facts : FactBase} {u v : FrameId}

theorem Fact.callEdge?_eq_some_iff {f : Fact} {c d : Value} (hf : f.values = [c, d]) :
    f.callEdge? = some (u, v) ↔ c.toFrameId? = some u ∧ d.toFrameId? = some v := by
  simp only [callEdge?, hf]
  cases c.toFrameId? <;> cases d.toFrameId? <;> simp

theorem FactBase.mem_edges_iff : (u, v) ∈ facts.callGraph.edges ↔
    ∃ f ∈ facts.facts .calls, f.callEdge? = some (u, v) :=
  List.mem_filterMap

theorem CallGraph.Calls.fits (h : facts.callGraph.Calls u v) : Fits u ∧ Fits v := by
  obtain ⟨f, hf, hedge⟩ := FactBase.mem_edges_iff.mp h
  obtain ⟨c, d, hvalues⟩ := FactBase.exists_values_of_mem_calls hf
  rw [Fact.callEdge?_eq_some_iff hvalues, Value.toFrameId?_eq_some_iff,
    Value.toFrameId?_eq_some_iff] at hedge
  exact ⟨hedge.1.1, hedge.2.1⟩

theorem answers_calls_ne_nil_iff (hfacts : facts.CallsFrames) (hu : Fits u) (hv : Fits v) :
    (Goal.mk .calls [u.term, v.term]).answers facts ≠ [] ↔ facts.callGraph.Calls u v := by
  have hmatch : ∀ f ∈ facts.facts .calls,
      f.match? [u.term, v.term] ≠ none ↔ f.callEdge? = some (u, v) := by
    intro f hf
    obtain ⟨c, d, hvalues⟩ := FactBase.exists_values_of_mem_calls hf
    have hc := hfacts f hf c (by simp [hvalues])
    have hd := hfacts f hf d (by simp [hvalues])
    rw [Fact.callEdge?_eq_some_iff hvalues, Value.toFrameId?_eq_some_iff_agrees hu hc,
      Value.toFrameId?_eq_some_iff_agrees hv hd]
    simp [Fact.match?, hvalues, matchFrom?, FrameId.term, Term.matchValue?]
  rw [CallGraph.Calls, FactBase.mem_edges_iff, Goal.answers, Ne, List.filterMap_eq_nil_iff]
  push Not
  exact exists_congr fun f => and_congr_right fun hf => hmatch f hf

end

/-! ## Chains of goals -/

/-- A call from each term to the next. -/
def chainGoals : List Term → List Goal
  | s :: t :: rest => ⟨.calls, [s, t]⟩ :: chainGoals (t :: rest)
  | _ => []

theorem forall_mem_chainGoals_iff {P : Goal → Prop} {ts : List Term} :
    (∀ g ∈ chainGoals ts, P g) ↔ ts.IsChain fun s t => P ⟨.calls, [s, t]⟩ := by
  fun_induction chainGoals ts with
  | case1 s t rest ih => rw [List.forall_mem_cons, ih, List.isChain_cons_cons]
  | case2 ts hts =>
      match ts with
      | [] => simp
      | [t] => simp
      | s :: t :: rest => exact absurd rfl (hts s t rest)

theorem exists_mem_chainGoals_iff {s t u : Term} {rest : List Term} :
    (∃ g ∈ chainGoals (s :: t :: rest), u ∈ g.args) ↔ u ∈ s :: t :: rest := by
  induction rest generalizing s t with
  | nil => simp [chainGoals]
  | cons r rest ih =>
      rw [chainGoals, List.exists_mem_cons_iff, ih]
      simp only [List.mem_cons, List.not_mem_nil, or_false]
      tauto

/-- The terms of a chain from one frame to another, with a variable for each frame between. -/
def chainTerms (a : FrameId) (xs : List String) (b : FrameId) : List Term :=
  a.term :: (xs.map .var ++ [b.term])

def chainConditions (a : FrameId) (xs : List String) (b : FrameId) : List Condition :=
  (chainGoals (chainTerms a xs b)).map fun g => ⟨g, false⟩

/-- The chain query `calls(a, x1), calls(x1, x2), ..., calls(xn, b)`, which is a simple one if there
are no variables. -/
def chainQuestion (a : FrameId) (xs : List String) (b : FrameId) : Question :=
  match xs with
  | [] => .simple ⟨.calls, [a.term, b.term]⟩
  | _ :: _ => .compound ⟨chainConditions a xs b⟩

example : (chainQuestion 1 ["X", "Y"] 4).text = "?- calls(1, X), calls(X, Y), calls(Y, 4)." := by
  decide

/-- The binding of the variables to the frames between. -/
def chainBinding (xs : List String) (ids : List FrameId) : Binding :=
  .ofList (xs.zip (ids.map fun f => .ofNat f.toNat))

section

variable {a b : FrameId} {xs : List String} {ids : List FrameId} {facts : FactBase}

theorem mem_positiveVars_chainConditions {x : String} :
    x ∈ positiveVars (chainConditions a xs b) ↔ x ∈ xs := by
  have hterms : Term.var x ∈ chainTerms a xs b ↔ x ∈ xs := by simp [chainTerms, FrameId.term]
  have hgoals : (∃ g ∈ chainGoals (chainTerms a xs b), Term.var x ∈ g.args) ↔
      Term.var x ∈ chainTerms a xs b := by
    cases xs with
    | nil => exact exists_mem_chainGoals_iff
    | cons _ _ => exact exists_mem_chainGoals_iff
  rw [mem_positiveVars_iff, ← hterms, ← hgoals]
  simp [chainConditions]

theorem eq_calls_of_mem_predicates {p : Predicate} (hp : p ∈ (chainQuestion a xs b).predicates) :
    p = .calls := by
  have hgoals : ∀ g ∈ chainGoals (chainTerms a xs b), g.predicate = .calls :=
    forall_mem_chainGoals_iff.mpr (List.pairwise_of_forall fun _ _ => rfl).isChain
  cases xs with
  | nil => exact List.mem_singleton.mp hp
  | cons x xs =>
      obtain ⟨c, hc, rfl⟩ := List.mem_map.mp hp
      obtain ⟨g, hg, rfl⟩ := List.mem_map.mp hc
      exact hgoals g hg

/-! ## Answers as lists of frames -/

theorem map_substitute_var {m : Binding} {vs : List Value} (h : xs.map m.get? = vs.map some) :
    (xs.map Term.var).map (·.substitute m) = vs.map .const := by
  induction xs generalizing vs with
  | nil => cases vs with
    | nil => rfl
    | cons v vs => cases h
  | cons x xs ih =>
      cases vs with
      | nil => cases h
      | cons v vs =>
          obtain ⟨hx, hxs⟩ := List.cons.inj h
          rw [List.map_cons, List.map_cons, ih hxs, Term.substitute, hx, List.map_cons]

theorem map_substitute_chainTerms (hxs : xs.Nodup) (hlen : ids.length = xs.length) :
    (chainTerms a xs b).map (·.substitute (chainBinding xs ids)) =
      (a :: (ids ++ [b])).map FrameId.term := by
  have hvalues := ((Binding.eq_ofList_zip_iff hxs (by simp [hlen])).mp
    (rfl : chainBinding xs ids = _)).2
  rw [chainTerms, List.map_cons, List.map_append, map_substitute_var hvalues]
  simp [FrameId.term, Term.substitute, Function.comp_def]

/-- An assignment of frames to the variables is the binding to a list of frames. -/
theorem exists_chainBinding_of_assigns {m : Binding} (hxs : xs.Nodup)
    (hm : m.Assigns xs Value.IsFrame) :
    ∃ ids, ids.length = xs.length ∧ (∀ f ∈ ids, Fits f) ∧ m = chainBinding xs ids := by
  have hframe : ∀ x ∈ xs, ∃ f, Fits f ∧ m.get? x = some (.ofNat f.toNat) := by
    intro x hx
    obtain ⟨v, hv⟩ := Binding.mem_keys_iff.mp ((hm.vars x).mpr hx)
    obtain ⟨f, hf, rfl⟩ :=
      Value.isFrame_iff.mp (hm.values v (Binding.mem_values_iff.mpr ⟨x, hv⟩))
    exact ⟨f, hf, hv⟩
  choose! frame hfits hget using hframe
  refine ⟨xs.map frame, List.length_map _, by simpa using hfits, ?_⟩
  refine (Binding.eq_ofList_zip_iff hxs (by simp)).mpr ⟨fun x => (hm.vars x).mp, ?_⟩
  rw [List.map_congr_left hget, List.map_map, List.map_map]
  rfl

theorem assigns_chainBinding (hxs : xs.Nodup) (hlen : ids.length = xs.length)
    (hfits : ∀ f ∈ ids, Fits f) : (chainBinding xs ids).Assigns xs Value.IsFrame := by
  obtain ⟨hkeys, hvalues⟩ := (Binding.eq_ofList_zip_iff hxs (by simp [hlen])).mp
    (rfl : chainBinding xs ids = _)
  have hget : ∀ x ∈ xs, ∃ f ∈ ids, (chainBinding xs ids).get? x = some (.ofNat f.toNat) := by
    intro x hx
    have hmem := hvalues ▸ List.mem_map_of_mem hx
    simpa [eq_comm] using hmem
  constructor
  · refine fun x => ⟨hkeys x, fun hx => ?_⟩
    obtain ⟨f, -, hf⟩ := hget x hx
    exact Binding.mem_keys_iff.mpr ⟨_, hf⟩
  · intro v hv
    obtain ⟨x, hx⟩ := Binding.mem_values_iff.mp hv
    obtain ⟨f, hf, hfx⟩ := hget x (hkeys x (Binding.mem_keys_iff.mpr ⟨v, hx⟩))
    obtain rfl := Option.some.inj (hx.symm.trans hfx)
    exact Value.isFrame_iff.mpr ⟨f, hfits f hf, rfl⟩

/-- Frames satisfy the chain as the values of its variables when they are a walk between its ends. -/
theorem satisfies_chainConditions_iff (hfacts : facts.CallsFrames) (ha : Fits a) (hb : Fits b)
    (hxs : xs.Nodup) (hlen : ids.length = xs.length) (hfits : ∀ f ∈ ids, Fits f) :
    Satisfies facts (chainConditions a xs b) (chainBinding xs ids) ↔
      IsWalk facts.callGraph.Calls a b (a :: (ids ++ [b])) := by
  have hends : ∀ f ∈ a :: (ids ++ [b]), Fits f := by simpa [or_imp, forall_and, ha, hb] using hfits
  rw [chainConditions, satisfies_positive_iff, forall_mem_chainGoals_iff]
  calc (chainTerms a xs b).IsChain (fun s t =>
        ((Goal.mk .calls [s, t]).substitute (chainBinding xs ids)).answers facts ≠ [])
      ↔ ((chainTerms a xs b).map (·.substitute (chainBinding xs ids))).IsChain
          fun s t => (Goal.mk .calls [s, t]).answers facts ≠ [] := by
        rw [List.isChain_map]
        rfl
    _ ↔ (a :: (ids ++ [b])).IsChain
          fun u v => (Goal.mk .calls [u.term, v.term]).answers facts ≠ [] := by
        rw [map_substitute_chainTerms hxs hlen, List.isChain_map]
    _ ↔ (a :: (ids ++ [b])).IsChain facts.callGraph.Calls :=
        List.IsChain.iff_of_mem_imp fun u v hu hv =>
          answers_calls_ne_nil_iff hfacts (hends u hu) (hends v hv)
    _ ↔ IsWalk facts.callGraph.Calls a b (a :: (ids ++ [b])) :=
        ⟨fun h => ⟨rfl, List.getLast?_concat (l := a :: ids), h⟩, IsWalk.steps⟩

/-- Whatever a call leads to is kept as an integer. -/
theorem fits_of_isWalk {w : List FrameId} (ha : Fits a)
    (hw : IsWalk facts.callGraph.Calls a b w) : ∀ f ∈ w, Fits f := by
  obtain ⟨v, rfl⟩ := List.head?_eq_some_iff.mp hw.head
  have hrest := hw.steps.cons_induction Fits v (fun _ _ hcall _ => hcall.fits.2) ha
  exact List.forall_mem_cons.mpr ⟨ha, hrest⟩

theorem exact_chainQuestion (hframes : ∀ f ∈ facts.toList, ∀ v ∈ f.values, v.IsFrame) :
    Exact facts Value.IsFrame (chainConditions a xs b) ((chainQuestion a xs b).answers facts) := by
  have hU : AgreementOn Value.IsFrame := .of_floatFree fun _ => Value.isFloat_of_isFrame
  cases xs with
  | nil => exact exact_answers hU hframes ⟨⟨.calls, [a.term, b.term]⟩, false⟩
  | cons x xs => exact (exact_answers hU hframes _).foldl_extend hU hframes _

theorem answers_chainQuestion_only :
    (chainQuestion a xs b).answers (facts.only .calls) = (chainQuestion a xs b).answers facts := by
  refine Question.answers_congr fun p hp => ?_
  rw [eq_calls_of_mem_predicates hp, FactBase.facts_only]

theorem FactBase.callGraph_only : (facts.only .calls).callGraph = facts.callGraph := by
  rw [callGraph, facts_only, ← callGraph]

/-- The answers to a chain query are the walks between its ends that have one frame for each of its
variables. -/
theorem mem_answers_chainQuestion_iff (hfacts : facts.CallsFrames) (ha : Fits a) (hb : Fits b)
    (hxs : xs.Nodup) {m : Binding} : m ∈ (chainQuestion a xs b).answers facts ↔
      ∃ ids, ids.length = xs.length ∧ IsWalk facts.callGraph.Calls a b (a :: (ids ++ [b])) ∧
        m = chainBinding xs ids := by
  -- other facts may hold anything, so the exact answers are those over the calls alone
  have hcalls : (facts.only .calls).CallsFrames := by rwa [FactBase.CallsFrames, FactBase.facts_only]
  have hvars : ∀ x, x ∈ positiveVars (chainConditions a xs b) ↔ x ∈ xs := fun x =>
    mem_positiveVars_chainConditions
  have hexact : Exact (facts.only .calls) Value.IsFrame (chainConditions a xs b)
      ((chainQuestion a xs b).answers (facts.only .calls)) := exact_chainQuestion hfacts
  rw [← answers_chainQuestion_only, hexact.mem_iff fun _ => Value.isFloat_of_isFrame]
  constructor
  · rintro ⟨hm, hsat⟩
    obtain ⟨ids, hlen, hfits, rfl⟩ :=
      exists_chainBinding_of_assigns hxs ⟨fun x => (hm.vars x).trans (hvars x), hm.values⟩
    rw [satisfies_chainConditions_iff hcalls ha hb hxs hlen hfits, FactBase.callGraph_only] at hsat
    exact ⟨ids, hlen, hsat, rfl⟩
  · rintro ⟨ids, hlen, hw, rfl⟩
    have hfits : ∀ f ∈ ids, Fits f := fun f hf => fits_of_isWalk ha hw f (by simp [hf])
    have hm := assigns_chainBinding hxs hlen hfits
    rw [satisfies_chainConditions_iff hcalls ha hb hxs hlen hfits, FactBase.callGraph_only]
    exact ⟨⟨fun x => (hm.vars x).trans (hvars x).symm, hm.values⟩, hw⟩

theorem answers_chainQuestion_ne_nil_iff (hfacts : facts.CallsFrames) (ha : Fits a) (hb : Fits b)
    (hxs : xs.Nodup) : (chainQuestion a xs b).answers facts ≠ [] ↔
      ∃ w, IsWalk facts.callGraph.Calls a b w ∧ w.length = xs.length + 2 := by
  have hmem := fun m => mem_answers_chainQuestion_iff hfacts ha hb hxs (m := m)
  constructor
  · intro hne
    obtain ⟨m, hm⟩ := List.exists_mem_of_ne_nil _ hne
    obtain ⟨ids, hlen, hw, -⟩ := (hmem m).mp hm
    exact ⟨_, hw, by simp [hlen]⟩
  · rintro ⟨w, hw, hlen⟩
    obtain ⟨ids, rfl⟩ := hw.eq_cons_concat (by omega)
    exact List.ne_nil_of_mem ((hmem _).mpr ⟨ids, by simpa using hlen, hw, rfl⟩)

end

/-! ## Chains and paths -/

theorem exists_nodup_names (n : Nat) : ∃ xs : List String, xs.Nodup ∧ xs.length = n := by
  refine ⟨(List.range n).map fun i => String.ofList (List.replicate i 'X'), ?_, by simp⟩
  refine List.Nodup.map (fun i j hij => ?_) List.nodup_range
  have hlist := String.ofList_injective hij
  simpa using congrArg List.length hlist

section

variable {facts : FactBase} {a b : FrameId} (hfacts : facts.CallsFrames) (ha : Fits a)
  (hb : Fits b) (hab : a ≠ b)

include hfacts ha hb

/-- No chain with an answer is shorter than a path. -/
theorem length_path?_le {p : List FrameId} {ys : List String}
    (hp : facts.callGraph.path? a b = some p) (hys : ys.Nodup)
    (hne : (chainQuestion a ys b).answers facts ≠ []) : p.length ≤ ys.length + 2 := by
  obtain ⟨w, hw, hlen⟩ := (answers_chainQuestion_ne_nil_iff hfacts ha hb hys).mp hne
  obtain ⟨q, hq, hle⟩ := CallGraph.exists_path?_of_isWalk hw
  obtain rfl : p = q := Option.some.inj (hp.symm.trans hq)
  omega

include hab

/-- The frames between the ends of a path answer the chain that has a variable for each of them. -/
theorem exists_chain_of_path? {p : List FrameId} (hp : facts.callGraph.path? a b = some p) :
    ∃ ids, p = a :: (ids ++ [b]) ∧ ∀ xs : List String, xs.Nodup → xs.length = ids.length →
      chainBinding xs ids ∈ (chainQuestion a xs b).answers facts := by
  have hw := CallGraph.isWalk_of_path? hp
  obtain ⟨ids, rfl⟩ := hw.eq_cons_concat (hw.two_le_length hab)
  refine ⟨ids, rfl, fun xs hxs hlen => ?_⟩
  exact (mem_answers_chainQuestion_iff hfacts ha hb hxs).mpr ⟨ids, hlen.symm, hw, rfl⟩

theorem exists_path?_length_iff {xs : List String} (hxs : xs.Nodup) :
    (∃ p, facts.callGraph.path? a b = some p ∧ p.length = xs.length + 2) ↔
      (chainQuestion a xs b).answers facts ≠ [] ∧ ∀ ys : List String, ys.Nodup →
        (chainQuestion a ys b).answers facts ≠ [] → xs.length ≤ ys.length := by
  have hwalk := answers_chainQuestion_ne_nil_iff hfacts ha hb hxs
  constructor
  · rintro ⟨p, hp, hlen⟩
    refine ⟨hwalk.mpr ⟨p, CallGraph.isWalk_of_path? hp, hlen⟩, fun ys hys hne => ?_⟩
    have := length_path?_le hfacts ha hb hp hys hne
    omega
  · rintro ⟨hne, hleast⟩
    obtain ⟨w, hw, -⟩ := hwalk.mp hne
    obtain ⟨p, hp, -⟩ := CallGraph.exists_path?_of_isWalk hw
    obtain ⟨ids, rfl, hids⟩ := exists_chain_of_path? hfacts ha hb hab hp
    have hpath : (a :: (ids ++ [b])).length = ids.length + 2 := by simp
    have hle := length_path?_le hfacts ha hb hp hxs hne
    -- the path is no longer than the chain, so the first few of the variables are enough for it
    have htake : (xs.take ids.length).length = ids.length := by
      rw [List.length_take]
      omega
    have hnodup : (xs.take ids.length).Nodup := hxs.sublist (List.take_sublist _ _)
    have := hleast _ hnodup (List.ne_nil_of_mem (hids _ hnodup htake))
    exact ⟨_, hp, by omega⟩

theorem path?_eq_none_iff : facts.callGraph.path? a b = none ↔
    ∀ xs : List String, xs.Nodup → (chainQuestion a xs b).answers facts = [] := by
  constructor
  · intro hnone xs hxs
    by_contra hne
    obtain ⟨w, hw, -⟩ := (answers_chainQuestion_ne_nil_iff hfacts ha hb hxs).mp hne
    obtain ⟨p, hp, -⟩ := CallGraph.exists_path?_of_isWalk hw
    rw [hnone] at hp
    cases hp
  · intro hnil
    refine Option.eq_none_iff_forall_ne_some.mpr fun p hp => ?_
    obtain ⟨ids, -, hids⟩ := exists_chain_of_path? hfacts ha hb hab hp
    obtain ⟨xs, hxs, hlen⟩ := exists_nodup_names ids.length
    exact List.ne_nil_of_mem (hids xs hxs hlen) (hnil xs hxs)

end

/-- Chain queries and the search agree about the ways from one frame to another. A chain of `n`
variables has `n + 1` calls. -/
structure FactBase.ChainsAgree (facts : FactBase) (a b : FrameId) : Prop where
  call : (chainQuestion a [] b).answers facts ≠ [] ↔ facts.callGraph.Calls a b
  walk : ∀ {xs : List String}, xs.Nodup → ((chainQuestion a xs b).answers facts ≠ [] ↔
    ∃ w, IsWalk facts.callGraph.Calls a b w ∧ w.length = xs.length + 2)
  shortest : ∀ {xs : List String}, xs.Nodup →
    ((∃ p, facts.callGraph.path? a b = some p ∧ p.length = xs.length + 2) ↔
      (chainQuestion a xs b).answers facts ≠ [] ∧ ∀ ys : List String, ys.Nodup →
        (chainQuestion a ys b).answers facts ≠ [] → xs.length ≤ ys.length)
  path : ∀ {p}, facts.callGraph.path? a b = some p → ∃ ids, p = a :: (ids ++ [b]) ∧
    ∀ xs : List String, xs.Nodup → xs.length = ids.length →
      chainBinding xs ids ∈ (chainQuestion a xs b).answers facts
  noPath : facts.callGraph.path? a b = none ↔
    ∀ xs : List String, xs.Nodup → (chainQuestion a xs b).answers facts = []

/-- Over calls between frames, a chain query has an answer exactly when there is a walk of its length,
and the search finds a path exactly when some chain has an answer; the path is then as long as the
shortest such chain, of which it is an answer. -/
theorem FactBase.chainsAgree_of_callsFrames {facts : FactBase} (hfacts : facts.CallsFrames)
    {a b : FrameId} (ha : Fits a) (hb : Fits b) (hab : a ≠ b) : facts.ChainsAgree a b where
  call := answers_calls_ne_nil_iff hfacts ha hb
  walk := answers_chainQuestion_ne_nil_iff hfacts ha hb
  shortest := exists_path?_length_iff hfacts ha hb hab
  path := exists_chain_of_path? hfacts ha hb hab
  noPath := path?_eq_none_iff hfacts ha hb hab

/-- Frame 1 called frame 2, frames 2 and 3 called each other, and frame 3 called frame 4. A parameter
holds a value that is no number. -/
def recursiveTrace : FactBase where
  toList :=
    [⟨.calls, [.int 1, .int 2]⟩, ⟨.calls, [.int 2, .int 3]⟩, ⟨.calls, [.int 3, .int 2]⟩,
      ⟨.calls, [.int 3, .int 4]⟩, ⟨.param, [.int 1, .atom "delay", .float ⟨0x7ff8000000000000⟩]⟩]
  wellFormed := by decide

theorem chainsAgree_of_callsFrames_recursiveTrace :
    recursiveTrace.CallsFrames ∧ Fits 1 ∧ Fits 4 ∧ (1 : FrameId) ≠ 4 ∧
    recursiveTrace.callGraph.path? 1 4 = some [1, 2, 3, 4] ∧
    chainBinding ["X", "Y"] [2, 3] ∈ (chainQuestion 1 ["X", "Y"] 4).answers recursiveTrace ∧
    ∃ w, IsWalk recursiveTrace.callGraph.Calls 1 4 w ∧ w.length = 6 := by
  have hfacts : recursiveTrace.CallsFrames := by decide
  have hagree : recursiveTrace.ChainsAgree 1 4 :=
    FactBase.chainsAgree_of_callsFrames hfacts (by decide) (by decide) (by decide)
  have hpath : recursiveTrace.callGraph.path? 1 4 = some [1, 2, 3, 4] := by
    decide +kernel
  refine ⟨hfacts, by decide, by decide, by decide, hpath, ?_, ?_⟩
  · obtain ⟨ids, hids, hanswer⟩ := hagree.path hpath
    obtain rfl : [2, 3] = ids := List.append_cancel_right (List.cons.inj hids).2
    exact hanswer ["X", "Y"] (by decide) rfl
  · exact (hagree.walk (by decide)).mp
      (show (chainQuestion 1 ["V", "W", "X", "Y"] 4).answers recursiveTrace ≠ [] by decide)

end FrameLog
