import FrameLog.Proofs.Join.Extension

/-!
# The answers to a conjunction are exact

A conjunction is answered by the assignments under which every positive condition has a match and
every negated one, read with what stands bound before it, has none. The join finds exactly these,
each once up to agreement.
-/

namespace FrameLog

/-! ## What a conjunction asks for -/

/-- The binding gives a value among `U` to each of the variables and to no other. -/
structure Binding.Assigns (b : Binding) (names : List String) (U : Value → Prop) : Prop where
  vars : ∀ x, x ∈ b.keys ↔ x ∈ names
  values : ∀ v ∈ b.values, U v

/-- Every positive condition has a match under the binding; every negated condition has none under
the part of the binding that the positive conditions before it determine. -/
def Satisfies (facts : FactBase) (cs : List Condition) (b : Binding) : Prop :=
  (∀ c ∈ cs, c.negated = false → (c.goal.substitute b).answers facts ≠ []) ∧
  ∀ i (c : Condition), cs[i]? = some c → c.negated = true →
    (c.goal.substitute (b.restrict (positiveVars (cs.take i)))).answers facts = []

/-- The values that occur in the facts or as constants of the conjunction. -/
def Conjunction.universe (c : Conjunction) (facts : FactBase) : List Value :=
  facts.toList.flatMap Fact.values ++
    c.conditions.flatMap fun d => d.goal.args.filterMap Term.value?

/-- The list holds exactly the answers to the conditions, up to agreement. -/
structure Exact (facts : FactBase) (U : Value → Prop) (cs : List Condition)
    (answers : List Binding) : Prop where
  assigns : ∀ m ∈ answers, m.Assigns (positiveVars cs) U
  sound : ∀ m ∈ answers, Satisfies facts cs m
  complete : ∀ b : Binding, b.Assigns (positiveVars cs) U → Satisfies facts cs b →
    ∃ m ∈ answers, m.agrees b = true

/-! ## Restrictions of assignments -/

section

variable {a b m : Binding} {names : List String} {U : Value → Prop}

theorem Binding.restrict_of_subset (h : ∀ x ∈ b.keys, x ∈ names) : b.restrict names = b :=
  ext_get? fun x => by
    rw [get?_restrict]
    split
    · rfl
    · rename_i hx
      exact (get?_eq_none_iff.mpr fun hkey => hx (h x hkey)).symm

theorem Binding.restrict_restrict {inner : List String} (h : ∀ x ∈ inner, x ∈ names) :
    (b.restrict names).restrict inner = b.restrict inner :=
  ext_get? fun x => by
    simp only [get?_restrict]
    by_cases hx : x ∈ inner
    · simp [hx, h x hx]
    · simp [hx]

theorem Binding.agrees_restrict (h : a.agrees b = true) (names : List String) :
    (a.restrict names).agrees (b.restrict names) = true := by
  rw [agrees_iff] at h ⊢
  intro x
  rw [get?_restrict, get?_restrict]
  split
  · exact h x
  · exact .none

theorem Binding.values_restrict {v : Value} (h : v ∈ (b.restrict names).values) :
    v ∈ b.values := by
  rw [mem_values_iff] at h ⊢
  obtain ⟨x, hx⟩ := h
  rw [get?_restrict] at hx
  split at hx
  · exact ⟨x, hx⟩
  · cases hx

theorem Binding.Assigns.restrict {names' : List String} (h : b.Assigns (names ++ names') U) :
    (b.restrict names).Assigns names U where
  vars x := by
    have hx := h.vars x
    rw [List.mem_append, mem_keys_iff] at hx
    rw [mem_keys_iff, get?_restrict]
    by_cases hmem : x ∈ names
    · simpa [hmem] using hx
    · simp [hmem]
  values v hv := h.values v (values_restrict hv)

end

/-! ## Satisfaction -/

section

variable {facts : FactBase} {U : Value → Prop} {cs : List Condition} {c : Condition}
variable {a b m e : Binding}

theorem positiveVars_take_subset {i : Nat} {x : String}
    (h : x ∈ positiveVars (cs.take i)) : x ∈ positiveVars cs := by
  rw [mem_positiveVars_iff] at h ⊢
  obtain ⟨d, hd, hx⟩ := h
  exact ⟨d, List.mem_of_mem_take hd, hx⟩

/-- A condition at the end leaves the others as they are, on their own variables. -/
theorem satisfies_append_iff : Satisfies facts (cs ++ [c]) b ↔
    Satisfies facts cs (b.restrict (positiveVars cs)) ∧
    (c.negated = false → (c.goal.substitute b).answers facts ≠ []) ∧
    (c.negated = true →
      (c.goal.substitute (b.restrict (positiveVars cs))).answers facts = []) := by
  have hpositive : ∀ d ∈ cs, d.negated = false →
      d.goal.substitute (b.restrict (positiveVars cs)) = d.goal.substitute b := by
    intro d hd hneg
    refine Goal.substitute_congr fun x hx => ?_
    rw [Binding.get?_restrict, if_pos (mem_positiveVars_iff.mpr ⟨d, hd, hneg, hx⟩)]
  have hnegated : ∀ i, (b.restrict (positiveVars cs)).restrict (positiveVars (cs.take i)) =
      b.restrict (positiveVars (cs.take i)) :=
    fun i => Binding.restrict_restrict fun x => positiveVars_take_subset
  have htake : ∀ i d, cs[i]? = some d → (cs ++ [c]).take i = cs.take i := by
    intro i d hi
    exact List.take_append_of_le_length (Nat.le_of_lt (List.getElem?_eq_some_iff.mp hi).1)
  constructor
  · rintro ⟨hpos, hneg⟩
    refine ⟨⟨fun d hd hdneg => ?_, fun i d hi hdneg => ?_⟩, hpos c (by simp), fun hc => ?_⟩
    · rw [hpositive d hd hdneg]
      exact hpos d (List.mem_append_left _ hd) hdneg
    · have hi' : (cs ++ [c])[i]? = some d := by
        rw [List.getElem?_append_left (List.getElem?_eq_some_iff.mp hi).1, hi]
      rw [hnegated, ← htake i d hi]
      exact hneg i d hi' hdneg
    · have hlast := hneg cs.length c (by simp) hc
      rwa [List.take_left] at hlast
  · rintro ⟨⟨hpos, hneg⟩, hcpos, hcneg⟩
    refine ⟨fun d hd hdneg => ?_, fun i d hi hdneg => ?_⟩
    · rcases List.mem_append.mp hd with hd | hd
      · rw [← hpositive d hd hdneg]
        exact hpos d hd hdneg
      · obtain rfl := List.mem_singleton.mp hd
        exact hcpos hdneg
    · by_cases hlt : i < cs.length
      · rw [List.getElem?_append_left hlt] at hi
        rw [htake i d hi, ← hnegated]
        exact hneg i d hi hdneg
      · have hlen := (List.getElem?_eq_some_iff.mp hi).1
        obtain rfl : i = cs.length := by simp at hlen; omega
        obtain rfl : c = d := by simpa using hi
        rw [List.take_left]
        exact hcneg hdneg

theorem Binding.Assigns.extension (hfacts : ∀ f ∈ facts.toList, ∀ v ∈ f.values, U v)
    (hm : m.Assigns (positiveVars cs) U) (hc : c.negated = false)
    (he : e ∈ c.extensions facts m) : e.Assigns (positiveVars cs ++ positiveVars [c]) U := by
  constructor
  · intro x
    rw [Condition.mem_keys_extension hc he, hm.vars x, List.mem_append]
    simp [mem_positiveVars_iff, hc]
  · intro v hv
    rcases Condition.mem_values_extension he hv with hv | ⟨f, hf, hv⟩
    · exact hm.values v hv
    · exact hfacts f (List.mem_filter.mp hf).1 v hv

theorem satisfies_nil : Satisfies facts [] b := ⟨by simp, by simp⟩

/-- Conditions none of which is negated are satisfied one by one. -/
theorem satisfies_positive_iff {gs : List Goal} :
    Satisfies facts (gs.map fun g => ⟨g, false⟩) b ↔
      ∀ g ∈ gs, (g.substitute b).answers facts ≠ [] := by
  constructor
  · intro h g hg
    exact h.1 ⟨g, false⟩ (List.mem_map_of_mem hg) rfl
  · refine fun h => ⟨fun c hc _ => ?_, fun i c hi hneg => ?_⟩
    · obtain ⟨g, hg, rfl⟩ := List.mem_map.mp hc
      exact h g hg
    · obtain ⟨g, -, rfl⟩ := List.mem_map.mp (List.mem_of_getElem? hi)
      cases hneg

variable (hU : AgreementOn U) (hfacts : ∀ f ∈ facts.toList, ∀ v ∈ f.values, U v)

include hU hfacts

theorem Satisfies.congr (h : Satisfies facts cs a) (ha : ∀ v ∈ a.values, U v)
    (hb : ∀ v ∈ b.values, U v) (hab : a.agrees b = true) : Satisfies facts cs b := by
  have hba := Binding.agrees_symm hU ha hb hab
  refine ⟨fun d hd hneg => ?_, fun i d hi hneg => ?_⟩
  · exact Goal.answers_substitute_congr hU hfacts ha hb hab (h.1 d hd hneg)
  · by_contra hne
    refine Goal.answers_substitute_congr hU hfacts (fun v hv => hb v (Binding.values_restrict hv))
      (fun v hv => ha v (Binding.values_restrict hv)) (Binding.agrees_restrict hba _) hne ?_
    exact h.2 i d hi hneg

/-! ## One condition more -/

/-- The fact that was matched is one that the goal is under the extended binding. -/
theorem holdsUnder_extension (hc : c.negated = false) (he : e ∈ c.extensions facts m) :
    c.goal.HoldsUnder facts e.get? := by
  obtain ⟨f, hf, d, hd, hmd⟩ := (Condition.mem_extensions_positive hc).mp he
  have hvalues := hfacts f (List.mem_filter.mp hf).1
  have hfits := Fact.fits_of_match? (fun v hv => hU.refl v (hvalues v hv)) hd
  have hsub : (c.goal.substitute m).HoldsUnder facts d.get? := ⟨f, hf, hfits⟩
  have hget : e.get? = fun x => (m.get? x).or (d.get? x) :=
    funext fun x => Binding.get?_merge? hmd x
  rwa [Goal.holdsUnder_substitute, ← hget] at hsub

theorem sound_extension (hm : m.Assigns (positiveVars cs) U) (hsat : Satisfies facts cs m)
    (he : e ∈ c.extensions facts m) :
    e.Assigns (positiveVars (cs ++ [c])) U ∧ Satisfies facts (cs ++ [c]) e := by
  rw [satisfies_append_iff, positiveVars_append]
  cases hc : c.negated with
  | true =>
      obtain ⟨rfl, hfails⟩ := (Condition.mem_extensions_negated hc).mp he
      have hself : e.restrict (positiveVars cs) = e :=
        Binding.restrict_of_subset fun x hx => (hm.vars x).mp hx
      have hvars : positiveVars [c] = [] := by simp [positiveVars, hc]
      rw [hself, hvars, List.append_nil]
      exact ⟨hm, hsat, by simp, fun _ => hfails⟩
  | false =>
      obtain ⟨f, hf, d, hd, hmd⟩ := (Condition.mem_extensions_positive hc).mp he
      have hbound : ∀ x, Term.var x ∈ c.goal.args → x ∈ e.keys := fun x hx =>
        (Condition.mem_keys_extension hc he).mpr (.inr hx)
      rw [Binding.restrict_of_merge? hmd hm.vars]
      refine ⟨hm.extension hfacts hc he, hsat, fun _ => ?_, by simp⟩
      exact (Goal.answers_substitute_ne_nil_iff_of_bound hU hfacts hbound).mpr
        (holdsUnder_extension hU hfacts hc he)

/-- The carried values may take the place of those that they agree with. -/
theorem Goal.HoldsUnder.substitute_carried {g : Goal} (h : g.HoldsUnder facts b.get?)
    (hb : ∀ v ∈ b.values, U v) (hm : ∀ v ∈ m.values, U v)
    (hcarried : ∀ x v, m.get? x = some v → ∃ w, b.get? x = some w ∧ v.agrees w = true) :
    (g.substitute m).HoldsUnder facts b.get? := by
  rw [Goal.holdsUnder_substitute]
  refine h.mono fun x _ f hf v hv w hw hwv => ?_
  cases hmx : m.get? x with
  | none => exact ⟨w, by simpa using hw, hwv⟩
  | some u =>
      obtain ⟨w', hw', huw⟩ := hcarried x u hmx
      obtain rfl : w' = w := Option.some.inj (hw'.symm.trans hw)
      have hu := hm u (Binding.mem_values_iff.mpr ⟨x, hmx⟩)
      have hw'' := hb w' (Binding.mem_values_iff.mpr ⟨x, hw'⟩)
      exact ⟨u, rfl, (hU.left hu hw'' (hfacts f hf v hv) huw).mpr hwv⟩

theorem complete_extension (hb : b.Assigns (positiveVars (cs ++ [c])) U)
    (hsat : Satisfies facts (cs ++ [c]) b) (hm : m.Assigns (positiveVars cs) U)
    (hmb : m.agrees (b.restrict (positiveVars cs)) = true) :
    ∃ e ∈ c.extensions facts m, e.agrees b = true := by
  rw [positiveVars_append] at hb
  obtain ⟨-, hpos, hneg⟩ := satisfies_append_iff.mp hsat
  cases hc : c.negated with
  | true =>
      have hvars : positiveVars [c] = [] := by simp [positiveVars, hc]
      rw [hvars, List.append_nil] at hb
      have hself : b.restrict (positiveVars cs) = b :=
        Binding.restrict_of_subset fun x hx => (hb.vars x).mp hx
      rw [hself] at hmb
      refine ⟨m, (Condition.mem_extensions_negated hc).mpr ⟨rfl, ?_⟩, hmb⟩
      by_contra hne
      refine Goal.answers_substitute_congr hU hfacts hm.values hb.values hmb hne ?_
      rw [← hself]
      exact hneg hc
  | false =>
      have hbound : ∀ x, Term.var x ∈ c.goal.args → x ∈ b.keys := by
        intro x hx
        refine (hb.vars x).mpr (List.mem_append_right _ ?_)
        exact mem_positiveVars_iff.mpr ⟨c, List.mem_singleton_self c, hc, hx⟩
      have hholds := (Goal.answers_substitute_ne_nil_iff_of_bound hU hfacts hbound).mp (hpos hc)
      have hcarried : ∀ x v, m.get? x = some v → ∃ w, b.get? x = some w ∧ v.agrees w = true :=
        fun x v hv => Binding.exists_get?_of_agrees_restrict hmb hv
      obtain ⟨f, hf, hfits⟩ := hholds.substitute_carried hU hfacts hb.values hm.values hcarried
      have hvalues := hfacts f (List.mem_filter.mp hf).1
      have hbvalues : ∀ x v, b.get? x = some v → U v := fun x v hv =>
        hb.values v (Binding.mem_values_iff.mpr ⟨x, hv⟩)
      obtain ⟨d, hd, hdb⟩ := Fact.exists_match? hU hvalues hbvalues hfits
      obtain ⟨e, he⟩ := Condition.exists_merge?_of_match? hd
      have hext := (Condition.mem_extensions_positive hc).mpr ⟨f, hf, d, hd, he⟩
      refine ⟨e, hext, Binding.agrees_of_merge? he hcarried (fun x v hv => ?_) fun x hx => ?_⟩
      · obtain ⟨w, hw, hwv⟩ := hdb x v hv
        have hUv := hvalues v (Fact.get?_match?_mem hd hv)
        exact ⟨w, hw, hU.symm w v (hbvalues x w hw) hUv hwv⟩
      · exact ((hm.extension hfacts hc hext).vars x).mpr ((hb.vars x).mp hx)

/-! ## All conditions -/

theorem Exact.step {answers next : List Binding} (h : Exact facts U cs answers)
    (hnext : ∀ e ∈ next, ∃ m ∈ answers, e ∈ c.extensions facts m)
    (hall : ∀ m ∈ answers, ∀ e ∈ c.extensions facts m, ∃ e' ∈ next, e'.agrees e = true) :
    Exact facts U (cs ++ [c]) next := by
  have hsound : ∀ m ∈ answers, ∀ e ∈ c.extensions facts m,
      e.Assigns (positiveVars (cs ++ [c])) U ∧ Satisfies facts (cs ++ [c]) e :=
    fun m hm e he => sound_extension hU hfacts (h.assigns m hm) (h.sound m hm) he
  constructor
  · intro e he
    obtain ⟨m, hm, hem⟩ := hnext e he
    exact (hsound m hm e hem).1
  · intro e he
    obtain ⟨m, hm, hem⟩ := hnext e he
    exact (hsound m hm e hem).2
  · intro b hb hsat
    have hinit : (b.restrict (positiveVars cs)).Assigns (positiveVars cs) U := by
      rw [positiveVars_append] at hb
      exact hb.restrict
    obtain ⟨m, hm, hmb⟩ := h.complete _ hinit (satisfies_append_iff.mp hsat).1
    obtain ⟨e, he, heb⟩ := complete_extension hU hfacts hb hsat (h.assigns m hm) hmb
    obtain ⟨e', he', hee⟩ := hall m hm e he
    obtain ⟨m', hm', hem'⟩ := hnext e' he'
    refine ⟨e', he', Binding.agrees_trans hU ?_ ?_ hb.values hee heb⟩
    · exact (hsound m' hm' e' hem').1.values
    · exact (hsound m hm e he).1.values

theorem exact_answers (c : Condition) : Exact facts U [c] (c.answers facts) := by
  have hempty : Exact facts U [] [.empty] := by
    refine ⟨?_, fun m _ => satisfies_nil, fun b hb _ => ⟨.empty, List.mem_singleton_self _, ?_⟩⟩
    · intro m hm
      obtain rfl := List.mem_singleton.mp hm
      exact ⟨by simp [Binding.keys, Binding.empty, positiveVars], by simp [Binding.values, Binding.empty]⟩
    · refine Binding.agrees_iff.mpr fun x => ?_
      have hx : x ∉ b.keys := fun hx => by simpa [positiveVars] using (hb.vars x).mp hx
      rw [Binding.get?_eq_none_iff.mpr hx]
      exact .none
  refine hempty.step hU hfacts ?_ ?_
  · intro e he
    exact ⟨.empty, List.mem_singleton_self _, c.answers_eq_extensions facts ▸ he⟩
  · intro m hm e he
    obtain rfl := List.mem_singleton.mp hm
    have hvalues := (sound_extension hU hfacts (hempty.assigns _ hm) satisfies_nil he).1.values
    exact ⟨e, c.answers_eq_extensions facts ▸ he, Binding.agrees_self hU hvalues⟩

theorem Exact.extend {answers : List Binding} (h : Exact facts U cs answers) :
    Exact facts U (cs ++ [c]) (c.extend facts answers) := by
  refine h.step hU hfacts ?_ ?_
  · intro e he
    exact Condition.exists_of_mem_extend he
  · intro m hm e he
    have hvalues := (sound_extension hU hfacts (h.assigns m hm) (h.sound m hm) he).1.values
    rw [Condition.extend_eq]
    exact exists_agrees_foldl_insertNew (List.mem_flatMap.mpr ⟨m, hm, he⟩)
      (Binding.agrees_self hU hvalues)

theorem Exact.foldl_extend {answers : List Binding} (h : Exact facts U cs answers)
    (ds : List Condition) :
    Exact facts U (cs ++ ds) (ds.foldl (fun answers d => d.extend facts answers) answers) := by
  induction ds generalizing cs answers with
  | nil => simpa using h
  | cons d ds ih =>
      have hnext := ih (h.extend hU hfacts (c := d))
      rwa [List.append_assoc] at hnext

end

/-- Among values without floats the answers are the assignments themselves, not only up to
agreement. -/
theorem Exact.mem_iff {facts : FactBase} {U : Value → Prop} {cs : List Condition}
    {answers : List Binding} (h : Exact facts U cs answers)
    (hfloat : ∀ v, U v → v.isFloat = false) {m : Binding} :
    m ∈ answers ↔ m.Assigns (positiveVars cs) U ∧ Satisfies facts cs m := by
  have hfree : ∀ {b : Binding}, b.Assigns (positiveVars cs) U → b.FloatFree :=
    fun hb v hv => hfloat v (hb.values v hv)
  constructor
  · intro hm
    exact ⟨h.assigns m hm, h.sound m hm⟩
  · rintro ⟨hassigns, hsat⟩
    obtain ⟨e, he, hem⟩ := h.complete m hassigns hsat
    obtain rfl := ((hfree (h.assigns e he)).agrees_iff_eq (hfree hassigns)).mp hem
    exact he

theorem Condition.pairwise_extend (c : Condition) (facts : FactBase) (answers : List Binding) :
    (c.extend facts answers).Pairwise fun a b => a.agrees b = false := by
  rw [extend_eq]
  exact pairwise_foldl_insertNew .nil

theorem pairwise_foldl_extend {facts : FactBase} {answers : List Binding} (ds : List Condition)
    (h : answers.Pairwise fun a b => a.agrees b = false) :
    (ds.foldl (fun answers d => d.extend facts answers) answers).Pairwise
      fun a b => a.agrees b = false := by
  induction ds generalizing answers with
  | nil => exact h
  | cons d ds ih => exact ih (d.pairwise_extend facts answers)

/-- From the second condition on there are no repetitions. -/
theorem Conjunction.pairwise_answers {c : Conjunction} (facts : FactBase) (h : 2 ≤ c.size) :
    (c.answers facts).Pairwise fun a b => a.agrees b = false := by
  unfold answers
  match hc : c.conditions with
  | [] => exact .nil
  | [_] => simp [size, hc] at h
  | first :: second :: rest =>
      exact pairwise_foldl_extend rest (second.pairwise_extend facts (first.answers facts))

/-- A conjunction of two conditions or more is answered exactly: no two answers agree, each assigns
values to the variables of the positive conditions, and an assignment is among them, up to
agreement, if and only if it satisfies the conditions. -/
theorem Conjunction.answers_exact (c : Conjunction) (facts : FactBase) (hsize : 2 ≤ c.size) :
    ((∀ v ∈ c.universe facts, v.isFloat = false) → AgreementOn (· ∈ c.universe facts)) ∧
    (AgreementOn (· ∈ c.universe facts) →
      (c.answers facts).Pairwise (fun a b => a.agrees b = false ∧ b.agrees a = false) ∧
      (∀ m ∈ c.answers facts,
        m.Assigns (positiveVars c.conditions) (· ∈ c.universe facts)) ∧
      ∀ b : Binding, b.Assigns (positiveVars c.conditions) (· ∈ c.universe facts) →
        ((∃ m ∈ c.answers facts, m.agrees b = true) ↔ Satisfies facts c.conditions b)) := by
  refine ⟨AgreementOn.of_floatFree, fun hU => ?_⟩
  have hfacts : ∀ f ∈ facts.toList, ∀ v ∈ f.values, v ∈ c.universe facts := fun f hf v hv =>
    List.mem_append_left _ (List.mem_flatMap.mpr ⟨f, hf, hv⟩)
  have hexact : Exact facts (· ∈ c.universe facts) c.conditions (c.answers facts) := by
    cases hc : c.conditions with
    | nil => simp [size, hc] at hsize
    | cons first rest =>
        simp only [answers, hc]
        exact (exact_answers hU hfacts first).foldl_extend hU hfacts rest
  refine ⟨?_, hexact.assigns, fun b hb => ⟨?_, hexact.complete b hb⟩⟩
  · refine (pairwise_answers facts hsize).imp_of_mem fun {a b} ha hb hab => ⟨hab, ?_⟩
    have hnot : ¬ b.agrees a = true := fun hba => by
      have := Binding.agrees_symm hU (hexact.assigns b hb).values (hexact.assigns a ha).values hba
      simp [hab] at this
    simpa using hnot
  · rintro ⟨m, hm, hmb⟩
    exact (hexact.sound m hm).congr hU hfacts (hexact.assigns m hm).values hb.values hmb

/-- Frame 1 called frame 2, which called frame 3 and failed. -/
def failedTrace : FactBase where
  toList :=
    [⟨.calls, [.int 1, .int 2]⟩, ⟨.calls, [.int 2, .int 3]⟩, ⟨.status, [.int 2, .atom "error"]⟩]
  wellFormed := by decide

/-- Nothing is active, and `X` called a frame `Y` that called none. -/
def lastCall : Conjunction where
  conditions :=
    [⟨⟨.status, [.anonymous, .const (.atom "active")]⟩, true⟩,
      ⟨⟨.calls, [.var "X", .var "Y"]⟩, false⟩, ⟨⟨.calls, [.var "Y", .var "Z"]⟩, true⟩]

theorem answers_exact_lastCall :
    2 ≤ lastCall.size ∧ AgreementOn (· ∈ lastCall.universe failedTrace) ∧
    (Binding.ofList [("X", .int 2), ("Y", .int 3)]).Assigns (positiveVars lastCall.conditions)
      (· ∈ lastCall.universe failedTrace) ∧
    (∃ m ∈ lastCall.answers failedTrace,
      m.agrees (Binding.ofList [("X", .int 2), ("Y", .int 3)]) = true) ∧
    Satisfies failedTrace lastCall.conditions
      (Binding.ofList [("X", .int 2), ("Y", .int 3)]) := by
  have hsize : 2 ≤ lastCall.size := by decide
  obtain ⟨hfloat, hexact⟩ := Conjunction.answers_exact lastCall failedTrace hsize
  have hU : AgreementOn (· ∈ lastCall.universe failedTrace) := hfloat (by decide)
  have hassigns : (Binding.ofList [("X", .int 2), ("Y", .int 3)]).Assigns
      (positiveVars lastCall.conditions) (· ∈ lastCall.universe failedTrace) := by
    have hkeys : (Binding.ofList [("X", .int 2), ("Y", .int 3)]).keys =
        positiveVars lastCall.conditions := by decide
    exact ⟨fun x => by rw [hkeys], by decide⟩
  have hfound : ∃ m ∈ lastCall.answers failedTrace,
      m.agrees (Binding.ofList [("X", .int 2), ("Y", .int 3)]) = true := by decide
  exact ⟨hsize, hU, hassigns, hfound, ((hexact hU).2.2 _ hassigns).mp hfound⟩

end FrameLog
