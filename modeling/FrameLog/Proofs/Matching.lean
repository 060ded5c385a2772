import FrameLog.Match
import FrameLog.Proofs.Binding

/-!
# Matching against an assignment

What it means that a goal holds under an assignment of values to variables, and that matching finds
such assignments: the binding of a match gives to every variable the value at its first position.
-/

namespace FrameLog

/-! ## Substitution -/

/-- Substitution looks only at the variables of the goal. -/
theorem Goal.substitute_congr {g : Goal} {a b : Binding}
    (h : ∀ x, Term.var x ∈ g.args → a.get? x = b.get? x) : g.substitute a = g.substitute b := by
  have hargs : g.args.map (·.substitute a) = g.args.map (·.substitute b) := by
    refine List.map_congr_left fun t ht => ?_
    cases t with
    | const w => rfl
    | anonymous => rfl
    | var x => simp only [Term.substitute, h x ht]
  simp only [substitute, hargs]

theorem Goal.substitute_empty (g : Goal) : g.substitute .empty = g := by
  have hargs : g.args.map (·.substitute .empty) = g.args := by
    refine (List.map_congr_left fun t _ => ?_).trans (List.map_id _)
    cases t with
    | const w => rfl
    | anonymous => rfl
    | var x => simp [Term.substitute]
  simp only [substitute, hargs]

theorem Goal.var_mem_substitute_iff {g : Goal} {b : Binding} {x : String} :
    Term.var x ∈ g.args.map (·.substitute b) ↔ Term.var x ∈ g.args ∧ b.get? x = none := by
  rw [List.mem_map]
  constructor
  · rintro ⟨t, ht, hx⟩
    cases t with
    | const w => cases hx
    | anonymous => cases hx
    | var y => cases hy : b.get? y <;> simp_all [Term.substitute]
  · rintro ⟨hx, hnone⟩
    exact ⟨.var x, hx, by simp [Term.substitute, hnone]⟩

/-! ## Holding under an assignment -/

/-- Under the assignment the argument agrees with the value. -/
def Term.Fits (c : String → Option Value) : Term → Value → Prop
  | anonymous, _ => True
  | var x, v => ∃ w, c x = some w ∧ w.agrees v = true
  | const w, v => w.agrees v = true

/-- Under the assignment the goal is one of the facts. -/
def Goal.HoldsUnder (g : Goal) (facts : FactBase) (c : String → Option Value) : Prop :=
  ∃ f ∈ facts.facts g.predicate, List.Forall₂ (Term.Fits c) g.args f.values

theorem Term.fits_substitute (b : Binding) (c : String → Option Value) (t : Term) (v : Value) :
    (t.substitute b).Fits c v ↔ t.Fits (fun x => (b.get? x).or (c x)) v := by
  cases t with
  | const w => simp [substitute, Fits]
  | anonymous => simp [substitute, Fits]
  | var x => cases hx : b.get? x <;> simp [substitute, Fits, hx]

theorem Goal.holdsUnder_substitute (g : Goal) (facts : FactBase) (b : Binding)
    (c : String → Option Value) :
    (g.substitute b).HoldsUnder facts c ↔ g.HoldsUnder facts fun x => (b.get? x).or (c x) := by
  simp [HoldsUnder, Goal.substitute, List.forall₂_map_left_iff, Term.fits_substitute]

/-- An assignment may be replaced by one that agrees with it wherever the goal looks. -/
theorem Goal.HoldsUnder.mono {g : Goal} {facts : FactBase} {c d : String → Option Value}
    (h : g.HoldsUnder facts c)
    (hcd : ∀ x, Term.var x ∈ g.args → ∀ f ∈ facts.toList, ∀ v ∈ f.values, ∀ w, c x = some w →
      w.agrees v = true → ∃ u, d x = some u ∧ u.agrees v = true) :
    g.HoldsUnder facts d := by
  obtain ⟨f, hf, hfits⟩ := h
  have hmem : f ∈ facts.toList := (List.mem_filter.mp hf).1
  refine ⟨f, hf, List.forall₂_iff_zip.mpr ⟨hfits.length_eq, fun {t v} hzip => ?_⟩⟩
  have hfit := (List.forall₂_iff_zip.mp hfits).2 hzip
  obtain ⟨ht, hv⟩ := List.of_mem_zip hzip
  cases t with
  | const w => exact hfit
  | anonymous => exact hfit
  | var x =>
      obtain ⟨w, hw, hwv⟩ := hfit
      exact hcd x ht f hmem v hv w hw hwv

/-! ## What a match binds -/

theorem Term.get?_matchValue? {b m : Binding} {t : Term} {v : Value}
    (h : t.matchValue? b v = some m) (x : String) :
    m.get? x = (b.get? x).or (if t = var x then some v else none) := by
  cases t with
  | const w =>
      simp only [matchValue?] at h
      split at h
      · cases h
        simp
      · cases h
  | anonymous =>
      cases h
      simp
  | var y =>
      rw [Binding.get?_bind? h]
      simp [eq_comm]

/-- Matching the first argument and looking at the others comes to looking at all of them. -/
theorem Term.or_lookup_of_matchValue? {b m : Binding} {t : Term} {v : Value} {x : String}
    {rest : List (Term × Value)} (h : t.matchValue? b v = some m) :
    (m.get? x).or (rest.lookup (var x)) = (b.get? x).or (((t, v) :: rest).lookup (var x)) := by
  rw [get?_matchValue? h, List.lookup_cons]
  by_cases ht : t = var x
  · cases b.get? x <;> simp [ht]
  · simp [ht, beq_false_of_ne (Ne.symm ht)]

/-- A match keeps what was bound and binds every other variable to the value at its first
position. -/
theorem get?_matchFrom? {b m : Binding} {args : List Term} {values : List Value}
    (h : matchFrom? b args values = some m) (x : String) :
    m.get? x = (b.get? x).or ((args.zip values).lookup (.var x)) := by
  induction args generalizing b values with
  | nil =>
      cases values with
      | nil =>
          cases h
          simp
      | cons v vs => cases h
  | cons t ts ih =>
      cases values with
      | nil => cases h
      | cons v vs =>
          obtain ⟨c, hc, hrest⟩ := Option.bind_eq_some_iff.mp h
          rw [ih hrest, List.zip_cons_cons, Term.or_lookup_of_matchValue? hc]

theorem length_eq_of_matchFrom? {b m : Binding} {args : List Term} {values : List Value}
    (h : matchFrom? b args values = some m) : args.length = values.length := by
  induction args generalizing b values with
  | nil =>
      cases values with
      | nil => rfl
      | cons v vs => cases h
  | cons t ts ih =>
      cases values with
      | nil => cases h
      | cons v vs =>
          obtain ⟨c, -, hrest⟩ := Option.bind_eq_some_iff.mp h
          simp [ih hrest]

theorem Term.matchValue?_isSome_iff {b : Binding} {c : String → Option Value} {t : Term} {v : Value}
    (hv : v.agrees v = true) (hc : ∀ x, t = var x → c x = (b.get? x).or (some v)) :
    (t.matchValue? b v).isSome ↔ t.Fits c v := by
  cases t with
  | const w => by_cases hw : w.agrees v = true <;> simp [matchValue?, Fits, hw]
  | anonymous => simp [matchValue?, Fits]
  | var x =>
      simp only [matchValue?, Fits, hc x rfl]
      cases hx : b.get? x with
      | none => simp [Binding.bind?, hx, hv]
      | some w => by_cases hw : w.agrees v = true <;> simp [Binding.bind?, hx, hw]

/-- Matching succeeds when the arguments fit the values under what it would bind. -/
theorem matchFrom?_isSome_iff {b : Binding} {args : List Term} {values : List Value}
    (hrefl : ∀ v ∈ values, v.agrees v = true) :
    (matchFrom? b args values).isSome ↔ List.Forall₂
      (Term.Fits fun x => (b.get? x).or ((args.zip values).lookup (.var x))) args values := by
  induction args generalizing b values with
  | nil => cases values <;> simp [matchFrom?]
  | cons t ts ih =>
      cases values with
      | nil => simp [matchFrom?]
      | cons v vs =>
          have hhead := Term.matchValue?_isSome_iff (b := b) (t := t)
            (c := fun x => (b.get? x).or (((t :: ts).zip (v :: vs)).lookup (.var x)))
            (hrefl v List.mem_cons_self) (by rintro x rfl; simp)
          rw [List.forall₂_cons, ← hhead]
          cases hm : t.matchValue? b v with
          | none => simp [matchFrom?, hm]
          | some m =>
              have hsame : (fun x => (m.get? x).or ((ts.zip vs).lookup (.var x))) =
                  fun x => (b.get? x).or (((t :: ts).zip (v :: vs)).lookup (.var x)) := by
                funext x
                exact Term.or_lookup_of_matchValue? hm
              have htail := ih (b := m) fun w hw => hrefl w (List.mem_cons_of_mem _ hw)
              rw [hsame] at htail
              simpa [matchFrom?, hm] using htail

/-- What the assignment gives to a variable agrees with the values at all its positions. -/
theorem exists_of_lookup_zip {c : String → Option Value} {args : List Term} {values : List Value}
    (h : List.Forall₂ (Term.Fits c) args values) {x : String} {v : Value}
    (hv : (args.zip values).lookup (.var x) = some v) :
    ∃ w, c x = some w ∧ w.agrees v = true := by
  obtain ⟨l₁, l₂, hl, -⟩ := List.lookup_eq_some_iff.mp hv
  have hmem : (Term.var x, v) ∈ args.zip values := by simp [hl]
  exact (List.forall₂_iff_zip.mp h).2 hmem

theorem lookup_zip_isSome_iff {args : List Term} {values : List Value}
    (h : args.length = values.length) {x : String} :
    ((args.zip values).lookup (.var x)).isSome ↔ .var x ∈ args := by
  have hfst : (args.zip values).map Prod.fst = args := List.map_fst_zip (Nat.le_of_eq h)
  have hmem : .var x ∈ args ↔ ∃ p ∈ args.zip values, Term.var x = p.1 := by
    conv_lhs => rw [← hfst]
    simp [eq_comm]
  simp [hmem, List.lookup_isSome_iff]

/-! ## Matches of a fact -/

section

variable {U : Value → Prop} {facts : FactBase} {f : Fact} {args : List Term} {d : Binding}

theorem Fact.get?_match? (h : f.match? args = some d) (x : String) :
    d.get? x = (args.zip f.values).lookup (.var x) := by
  rw [get?_matchFrom? h, Binding.get?_empty, Option.none_or]

theorem Fact.mem_keys_match? (h : f.match? args = some d) {x : String} :
    x ∈ d.keys ↔ Term.var x ∈ args := by
  rw [Binding.mem_keys_iff, get?_match? h, ← Option.isSome_iff_exists,
    lookup_zip_isSome_iff (length_eq_of_matchFrom? h)]

theorem Fact.get?_match?_mem (h : f.match? args = some d) {x : String} {v : Value}
    (hv : d.get? x = some v) : v ∈ f.values := by
  rw [get?_match? h] at hv
  obtain ⟨l₁, l₂, hl, -⟩ := List.lookup_eq_some_iff.mp hv
  have hmem : (Term.var x, v) ∈ args.zip f.values := by simp [hl]
  exact (List.of_mem_zip hmem).2

theorem Fact.match?_isSome_iff (hrefl : ∀ v ∈ f.values, v.agrees v = true) :
    (f.match? args).isSome ↔
      List.Forall₂ (Term.Fits fun x => (args.zip f.values).lookup (.var x)) args f.values := by
  simp [match?, matchFrom?_isSome_iff hrefl]

theorem Fact.fits_of_match? (hrefl : ∀ v ∈ f.values, v.agrees v = true)
    (h : f.match? args = some d) : List.Forall₂ (Term.Fits d.get?) args f.values := by
  have hsome : (f.match? args).isSome := by simp [h]
  have hget : d.get? = fun x => (args.zip f.values).lookup (.var x) := funext fun x => get?_match? h x
  rw [hget]
  exact (match?_isSome_iff hrefl).mp hsome

/-- Whatever fits a fact is found by matching, up to agreement. -/
theorem Fact.exists_match? (hU : AgreementOn U) (hf : ∀ v ∈ f.values, U v)
    {c : String → Option Value} (hc : ∀ x v, c x = some v → U v)
    (h : List.Forall₂ (Term.Fits c) args f.values) :
    ∃ d, f.match? args = some d ∧
      ∀ x v, d.get? x = some v → ∃ w, c x = some w ∧ w.agrees v = true := by
  have hsome : (f.match? args).isSome := by
    rw [match?_isSome_iff fun v hv => hU.refl v (hf v hv)]
    refine List.forall₂_iff_zip.mpr ⟨h.length_eq, fun {t v} hzip => ?_⟩
    have hfit := (List.forall₂_iff_zip.mp h).2 hzip
    obtain ⟨ht, hv⟩ := List.of_mem_zip hzip
    cases t with
    | const w => exact hfit
    | anonymous => exact hfit
    | var x =>
        -- both the first value and this one agree with what the assignment gives
        obtain ⟨w, hw, hwv⟩ := hfit
        obtain ⟨u, hu⟩ :=
          Option.isSome_iff_exists.mp ((lookup_zip_isSome_iff h.length_eq).mpr ht)
        obtain ⟨w', hw', hwu⟩ := exists_of_lookup_zip h hu
        obtain rfl : w = w' := Option.some.inj (hw.symm.trans hw')
        obtain ⟨l₁, l₂, hl, -⟩ := List.lookup_eq_some_iff.mp hu
        have hmem : (Term.var x, u) ∈ args.zip f.values := by simp [hl]
        have hUu : U u := hf u (List.of_mem_zip hmem).2
        exact ⟨u, hu, (hU.left (hc x w hw) hUu (hf v hv) hwu).mp hwv⟩
  obtain ⟨d, hd⟩ := Option.isSome_iff_exists.mp hsome
  refine ⟨d, hd, fun x v hv => ?_⟩
  rw [get?_match? hd] at hv
  exact exists_of_lookup_zip h hv

/-! ## Answers to a goal -/

variable (hU : AgreementOn U) (hfacts : ∀ f ∈ facts.toList, ∀ v ∈ f.values, U v)

include hU hfacts

/-- A goal has answers when it holds under some assignment. -/
theorem Goal.answers_ne_nil_iff {g : Goal} : g.answers facts ≠ [] ↔
    ∃ c : String → Option Value, (∀ x v, c x = some v → U v) ∧ g.HoldsUnder facts c := by
  constructor
  · intro h
    obtain ⟨d, hd⟩ := List.exists_mem_of_ne_nil _ h
    obtain ⟨f, hf, hfd⟩ := List.mem_filterMap.mp hd
    have hvalues := hfacts f (List.mem_filter.mp hf).1
    refine ⟨d.get?, fun x v hv => hvalues v (Fact.get?_match?_mem hfd hv), f, hf, ?_⟩
    exact Fact.fits_of_match? (fun v hv => hU.refl v (hvalues v hv)) hfd
  · rintro ⟨c, hc, f, hf, hfits⟩
    obtain ⟨d, hd, -⟩ :=
      Fact.exists_match? hU (hfacts f (List.mem_filter.mp hf).1) hc hfits
    exact List.ne_nil_of_mem (List.mem_filterMap.mpr ⟨f, hf, hd⟩)

theorem Goal.answers_substitute_ne_nil_iff {g : Goal} {b : Binding} :
    (g.substitute b).answers facts ≠ [] ↔ ∃ c : String → Option Value,
      (∀ x v, c x = some v → U v) ∧ g.HoldsUnder facts fun x => (b.get? x).or (c x) := by
  rw [answers_ne_nil_iff hU hfacts]
  simp only [holdsUnder_substitute]

/-- When all its variables are bound, a goal has answers if it holds under the binding. -/
theorem Goal.answers_substitute_ne_nil_iff_of_bound {g : Goal} {b : Binding}
    (hb : ∀ x, Term.var x ∈ g.args → x ∈ b.keys) :
    (g.substitute b).answers facts ≠ [] ↔ g.HoldsUnder facts b.get? := by
  rw [answers_substitute_ne_nil_iff hU hfacts]
  constructor
  · rintro ⟨c, -, hholds⟩
    refine hholds.mono fun x hx f _ v _ w hw hwv => ?_
    obtain ⟨u, hu⟩ := Binding.mem_keys_iff.mp (hb x hx)
    rw [hu, Option.some_or] at hw
    exact ⟨w, hu.trans hw, hwv⟩
  · intro h
    exact ⟨fun _ => none, by simp, by simpa using h⟩

/-- Bindings that agree leave a goal with answers or without them alike. -/
theorem Goal.answers_substitute_congr {g : Goal} {a b : Binding} (ha : ∀ v ∈ a.values, U v)
    (hb : ∀ v ∈ b.values, U v) (hab : a.agrees b = true)
    (h : (g.substitute a).answers facts ≠ []) : (g.substitute b).answers facts ≠ [] := by
  rw [answers_substitute_ne_nil_iff hU hfacts] at h ⊢
  obtain ⟨c, hc, hholds⟩ := h
  refine ⟨c, hc, hholds.mono fun x _ f hf v hv w hw hwv => ?_⟩
  rcases Binding.get?_cases_of_agrees hab x with ⟨hx, hy⟩ | ⟨u, u', hx, hy, huu⟩
  · rw [hx] at hw
    rw [hy]
    exact ⟨w, hw, hwv⟩
  · rw [hx, Option.some_or] at hw
    obtain rfl : u = w := Option.some.inj hw
    have hu := ha u (Binding.mem_values_iff.mpr ⟨x, hx⟩)
    have hu' := hb u' (Binding.mem_values_iff.mpr ⟨x, hy⟩)
    rw [hy]
    exact ⟨u', rfl, (hU.left hu hu' (hfacts f hf v hv) huu).mp hwv⟩

end

end FrameLog
