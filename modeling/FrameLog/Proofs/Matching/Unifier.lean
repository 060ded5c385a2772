import FrameLog.Proofs.Matching

/-!
# Matching as unification

Matching a goal with a fact is unification in which only the goal has variables. A match exists just
when the two can be unified, and up to agreement its binding is the only one that makes the goal the
fact.
-/

namespace FrameLog

/-! ## When arguments and values can be unified -/

/-- The arguments can be made the values: there are as many of them, constants agree with what stands
in their place, and a variable that comes again finds a value that agrees with its first one. -/
structure Unifiable (args : List Term) (values : List Value) : Prop where
  length_eq : args.length = values.length
  constants : ∀ (i : Nat) (w v : Value), args[i]? = some (.const w) → values[i]? = some v →
    w.agrees v = true
  repetitions : ∀ (x : String) (i : Nat) (first later : Value),
    values[args.idxOf (.var x)]? = some first → args.idxOf (.var x) < i →
    args[i]? = some (.var x) → values[i]? = some later → later.agrees first = true

theorem forall₂_iff_getElem? {α β : Type} {R : α → β → Prop} {as : List α} {bs : List β} :
    List.Forall₂ R as bs ↔ as.length = bs.length ∧
      ∀ (i : Nat) (a : α) (b : β), as[i]? = some a → bs[i]? = some b → R a b := by
  rw [List.forall₂_iff_get]
  refine and_congr_right fun _ => ⟨fun h i a b ha hb => ?_, fun h i hi hj => ?_⟩
  · obtain ⟨hi, rfl⟩ := List.getElem?_eq_some_iff.mp ha
    obtain ⟨hj, rfl⟩ := List.getElem?_eq_some_iff.mp hb
    exact h i hi hj
  · exact h i _ _ (List.getElem?_eq_getElem hi) (List.getElem?_eq_getElem hj)

/-- What is found beside a term is what stands at its first position. -/
theorem lookup_zip_eq_getElem? {args : List Term} {values : List Value}
    (h : args.length = values.length) (t : Term) :
    (args.zip values).lookup t = values[args.idxOf t]? := by
  induction args generalizing values with
  | nil =>
      obtain rfl := List.length_eq_zero_iff.mp h.symm
      rfl
  | cons a args ih =>
      cases values with
      | nil => cases h
      | cons v values =>
          rw [List.zip_cons_cons, List.lookup_cons, List.idxOf_cons]
          by_cases ht : a = t
          · simp [ht]
          · simp [beq_false_of_ne ht, beq_false_of_ne (Ne.symm ht), ih (Nat.succ.inj h)]

/-- A term does not occur before its first position. -/
theorem idxOf_le_of_getElem? {args : List Term} {t : Term} {i : Nat} (h : args[i]? = some t) :
    args.idxOf t ≤ i := by
  obtain ⟨hi, ht⟩ := List.getElem?_eq_some_iff.mp h
  refine Nat.le_of_not_lt fun hlt => ?_
  have hne := List.not_of_lt_findIdx hlt
  simp [ht] at hne

theorem unifiable_iff {args : List Term} {values : List Value}
    (hrefl : ∀ v ∈ values, v.agrees v = true) : Unifiable args values ↔
      List.Forall₂ (Term.Fits fun x => (args.zip values).lookup (.var x)) args values := by
  rw [forall₂_iff_getElem?]
  constructor
  · rintro ⟨hlen, hconst, hrep⟩
    refine ⟨hlen, fun i t v ht hv => ?_⟩
    cases t with
    | const w => exact hconst i w v ht hv
    | anonymous => trivial
    | var x =>
        have hle := idxOf_le_of_getElem? ht
        obtain ⟨first, hfirst⟩ : ∃ first, values[args.idxOf (.var x)]? = some first :=
          ⟨_, List.getElem?_eq_getElem
            (Nat.lt_of_le_of_lt hle (List.getElem?_eq_some_iff.mp hv).1)⟩
        refine ⟨first, (lookup_zip_eq_getElem? hlen _).trans hfirst, ?_⟩
        rcases Nat.eq_or_lt_of_le hle with heq | hlt
        · rw [heq, hv] at hfirst
          rw [← Option.some.inj hfirst]
          exact hrefl v (List.mem_of_getElem? hv)
        · rw [Value.agrees_comm]
          exact hrep x i first v hfirst hlt ht hv
  · rintro ⟨hlen, hfits⟩
    refine ⟨hlen, fun i w v ht hv => hfits i _ v ht hv, fun x i first later hfirst _ ht hv => ?_⟩
    obtain ⟨w, hw, hagree⟩ := hfits i _ later ht hv
    have hlookup := (lookup_zip_eq_getElem? hlen (.var x)).trans hfirst
    rw [Value.agrees_comm, Option.some.inj (hlookup.symm.trans hw)]
    exact hagree

namespace Fact

variable {f : Fact} {g : Goal} {b c : Binding}

/-! ## Matching what a binding makes of the goal -/

/-- A goal of which all variables are bound matches the facts that it fits under the binding. -/
theorem match?_substitute_isSome_iff (hrefl : ∀ v ∈ f.values, v.agrees v = true)
    (hc : ∀ x, Term.var x ∈ g.args → x ∈ c.keys) :
    (f.match? (g.substitute c).args).isSome ↔ List.Forall₂ (Term.Fits c.get?) g.args f.values := by
  rw [match?_isSome_iff hrefl, Goal.substitute, List.forall₂_map_left_iff, forall₂_iff_getElem?,
    forall₂_iff_getElem?]
  refine and_congr_right fun _ => forall_congr' fun i => forall_congr' fun t => forall_congr' fun v =>
    imp_congr_right fun ht => imp_congr_right fun _ => ?_
  rw [Term.fits_substitute]
  cases t with
  | const w => rfl
  | anonymous => rfl
  | var x =>
      obtain ⟨w, hw⟩ := Binding.mem_keys_iff.mp (hc x (List.mem_of_getElem? ht))
      simp only [Term.Fits, hw, Option.some_or]

/-- When no variable is left to bind, a match binds nothing. -/
theorem match?_substitute_eq_empty (hc : ∀ x, Term.var x ∈ g.args → x ∈ c.keys)
    (h : f.match? (g.substitute c).args = some b) : b = .empty := by
  refine Binding.ext_get? fun x => ?_
  rw [Binding.get?_empty, Binding.get?_eq_none_iff, mem_keys_match? h]
  intro hx
  obtain ⟨hmem, hnone⟩ := Goal.var_mem_substitute_iff.mp hx
  exact Binding.get?_eq_none_iff.mp hnone (hc x hmem)

theorem match?_substitute_self (hrefl : ∀ v ∈ f.values, v.agrees v = true)
    (h : f.match? g.args = some b) : f.match? (g.substitute b).args = some .empty := by
  have hbound : ∀ x, Term.var x ∈ g.args → x ∈ b.keys := fun x => (mem_keys_match? h).mpr
  have hsome := (match?_substitute_isSome_iff hrefl hbound).mpr (fits_of_match? hrefl h)
  obtain ⟨d, hd⟩ := Option.isSome_iff_exists.mp hsome
  rw [hd, match?_substitute_eq_empty hbound hd]

/-! ## The most general unifier -/

/-- The binding gives values, taken from among the given ones, to exactly the variables of the goal
and so makes it match the fact. -/
structure IsInstance (U : Value → Prop) (f : Fact) (g : Goal) (c : Binding) : Prop where
  keys : ∀ x, x ∈ c.keys ↔ Term.var x ∈ g.args
  values : ∀ v ∈ c.values, U v
  matches_fact : (f.match? (g.substitute c).args).isSome

theorem isInstance_of_match? {U : Value → Prop} (hU : AgreementOn U) (hf : ∀ v ∈ f.values, U v)
    (h : f.match? g.args = some b) : IsInstance U f g b where
  keys x := mem_keys_match? h
  values v hv := by
    obtain ⟨x, hx⟩ := Binding.mem_values_iff.mp hv
    exact hf v (get?_match?_mem h hx)
  matches_fact := by
    rw [match?_substitute_self (fun v hv => hU.refl v (hf v hv)) h]
    rfl

theorem IsInstance.exists_agrees {U : Value → Prop} (hU : AgreementOn U)
    (hf : ∀ v ∈ f.values, U v) (h : IsInstance U f g c) :
    ∃ b, f.match? g.args = some b ∧ c.agrees b = true := by
  have hfits := (match?_substitute_isSome_iff (fun v hv => hU.refl v (hf v hv))
    fun x => (h.keys x).mpr).mp h.matches_fact
  have hvalues : ∀ x v, c.get? x = some v → U v := fun x v hv =>
    h.values v (Binding.mem_values_iff.mpr ⟨x, hv⟩)
  obtain ⟨b, hb, hagree⟩ := exists_match? hU hf hvalues hfits
  refine ⟨b, hb, Binding.agrees_iff.mpr fun x => ?_⟩
  cases hx : b.get? x with
  | none =>
      have hnone : c.get? x = none := Binding.get?_eq_none_iff.mpr fun hkey =>
        Binding.get?_eq_none_iff.mp hx ((mem_keys_match? hb).mpr ((h.keys x).mp hkey))
      rw [hnone]
      exact .none
  | some v =>
      obtain ⟨w, hw, hwv⟩ := hagree x v hx
      rw [hw]
      exact .some hwv

/-- A goal matches a fact exactly when the two can be unified. The match binds the variables of the
goal to the values at their first positions and leaves nothing else to bind. Where agreement is an
equivalence, there is a match as soon as any binding of the variables makes the goal match, and that
binding then agrees with the match. -/
theorem match?_mostGeneral (f : Fact) (g : Goal) (hrefl : ∀ v ∈ f.values, v.agrees v = true) :
    ((f.match? g.args).isSome ↔ Unifiable g.args f.values) ∧
    (∀ b, f.match? g.args = some b →
      (∀ x, x ∈ b.keys ↔ Term.var x ∈ g.args) ∧
      (∀ x, b.get? x = f.values[g.args.idxOf (.var x)]?) ∧
      f.match? (g.substitute b).args = some .empty) ∧
    ∀ U, AgreementOn U → (∀ v ∈ f.values, U v) →
      ((f.match? g.args).isSome ↔ ∃ c, IsInstance U f g c) ∧
      ∀ b c, f.match? g.args = some b → IsInstance U f g c → c.agrees b = true := by
  refine ⟨?_, fun b hb => ⟨fun x => mem_keys_match? hb, fun x => ?_, ?_⟩, fun U hU hf => ⟨?_, ?_⟩⟩
  · rw [match?_isSome_iff hrefl, unifiable_iff hrefl]
  · rw [get?_match? hb, lookup_zip_eq_getElem? (length_eq_of_matchFrom? hb)]
  · exact match?_substitute_self hrefl hb
  · constructor
    · intro h
      obtain ⟨b, hb⟩ := Option.isSome_iff_exists.mp h
      exact ⟨b, isInstance_of_match? hU hf hb⟩
    · rintro ⟨c, hc⟩
      obtain ⟨b, hb, -⟩ := hc.exists_agrees hU hf
      rw [hb]
      rfl
  · intro b c hb hc
    obtain ⟨d, hd, hagree⟩ := hc.exists_agrees hU hf
    rw [hb] at hd
    exact Option.some.inj hd ▸ hagree

/-- A parameter with an integer for its name and the same number as a float for its value. -/
def mixedNumbers : Fact := ⟨.param, [.int 7, .int 4, .float ⟨0x4010000000000000⟩]⟩

/-- Which parameters hold their own name? -/
def ownNames : Goal := ⟨.param, [.const (.int 7), .var "X", .var "X"]⟩

theorem agreementOn_mixedNumbers : AgreementOn (· ∈ mixedNumbers.values) where
  refl := by decide +kernel
  symm v w _ _ h := Value.agrees_comm v w ▸ h
  trans u v w hu hv hw huv hvw :=
    (by decide +kernel : ∀ u ∈ mixedNumbers.values, ∀ v ∈ mixedNumbers.values,
      ∀ w ∈ mixedNumbers.values, u.agrees v = true → v.agrees w = true → u.agrees w = true)
      u hu v hv w hw huv hvw

theorem match?_mostGeneral_mixedNumbers :
    (∀ v ∈ mixedNumbers.values, v.agrees v = true) ∧
    AgreementOn (· ∈ mixedNumbers.values) ∧
    mixedNumbers.match? ownNames.args = some (.ofList [("X", .int 4)]) ∧
    IsInstance (· ∈ mixedNumbers.values) mixedNumbers ownNames
      (.ofList [("X", .float ⟨0x4010000000000000⟩)]) ∧
    Unifiable ownNames.args mixedNumbers.values ∧
    mixedNumbers.match? [.const (.int 7), .const (.int 4), .const (.int 4)] = some .empty ∧
    (Binding.ofList [("X", .float ⟨0x4010000000000000⟩)]).agrees (.ofList [("X", .int 4)]) = true := by
  have hrefl := agreementOn_mixedNumbers.refl
  have hmatch : mixedNumbers.match? ownNames.args = some (.ofList [("X", .int 4)]) := by
    decide +kernel
  have hinstance : IsInstance (· ∈ mixedNumbers.values) mixedNumbers ownNames
      (.ofList [("X", .float ⟨0x4010000000000000⟩)]) :=
    ⟨fun x => by simp [Binding.ofList, Binding.mem_keys_iff, Binding.get?_insert, ownNames],
      by decide +kernel, by decide +kernel⟩
  obtain ⟨hiff, hbinding, hgeneral⟩ := match?_mostGeneral mixedNumbers ownNames hrefl
  obtain ⟨-, hagree⟩ := hgeneral _ agreementOn_mixedNumbers fun _ hv => hv
  exact ⟨hrefl, agreementOn_mixedNumbers, hmatch, hinstance, hiff.mp (by rw [hmatch]; rfl),
    (hbinding _ hmatch).2.2, hagree _ _ hmatch hinstance⟩

end Fact

end FrameLog
