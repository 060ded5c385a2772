import FrameLog.Proofs.Matching

/-!
# Merging as a partial operation

Among bindings without floats, merging is the operation of a partial commutative monoid: a merge is
missing only where bindings contradict each other, and then it is missing in every order and
grouping. Bindings act on goals, and there a merge does what its two parts do one after the other.
-/

namespace FrameLog

/-- Where it is defined on the given elements, the operation is that of a commutative monoid. Of the
two groupings of three elements either both are defined and equal, or neither is. -/
structure PartialCommMonoidOn {α : Type} (S : α → Prop) (op : α → α → Option α) (unit : α) :
    Prop where
  unit_mem : S unit
  op_mem : ∀ a b m, S a → S b → op a b = some m → S m
  op_unit : ∀ a, S a → op a unit = some a
  op_comm : ∀ a b, S a → S b → op a b = op b a
  op_assoc : ∀ a b c, S a → S b → S c →
    ((op a b).bind fun m => op m c) = (op b c).bind fun m => op a m

namespace Binding

variable {a b c m : Binding}

/-! ## Unions -/

/-- The bindings give the same values to the variables that they share. -/
def Compatible (a b : Binding) : Prop :=
  ∀ x v w, a.get? x = some v → b.get? x = some w → v = w

/-- The entries of the binding are those of both others. -/
def IsUnion (a b m : Binding) : Prop :=
  ∀ x v, m.get? x = some v ↔ a.get? x = some v ∨ b.get? x = some v

theorem IsUnion.symm (h : IsUnion a b m) : IsUnion b a m :=
  fun x v => (h x v).trans or_comm

/-- Two bindings have one union at most. -/
theorem IsUnion.unique {m' : Binding} (h : IsUnion a b m) (h' : IsUnion a b m') : m = m' :=
  ext_get? fun x => Option.ext fun v => (h x v).trans (h' x v).symm

/-- Parts of one binding do not contradict each other. -/
theorem compatible_of_parts (ha : ∀ x v, a.get? x = some v → m.get? x = some v)
    (hb : ∀ x v, b.get? x = some v → m.get? x = some v) : a.Compatible b := by
  intro x v w hv hw
  exact Option.some.inj ((ha x v hv).symm.trans (hb x w hw))

theorem IsUnion.compatible (h : IsUnion a b m) : a.Compatible b :=
  compatible_of_parts (fun x v hv => (h x v).mpr (.inl hv)) fun x v hv => (h x v).mpr (.inr hv)

theorem IsUnion.mem_keys_iff (h : IsUnion a b m) {x : String} :
    x ∈ m.keys ↔ x ∈ a.keys ∨ x ∈ b.keys := by
  simp only [Binding.mem_keys_iff, h x, exists_or]

/-- Bindings that do not contradict each other merge into their union, floats or not. -/
theorem isUnion_of_merge? (hab : a.Compatible b) (h : a.merge? b = some m) : IsUnion a b m := by
  intro x v
  rw [get?_merge? h]
  cases ha : a.get? x with
  | none => simp
  | some w =>
      rw [Option.some_or]
      constructor
      · exact .inl
      · rintro (hv | hv)
        · exact hv
        · rw [hab x w v ha hv]

/-- Bindings without a common variable merge into their union, in either order. -/
theorem exists_merge?_of_disjoint (h : ∀ x ∈ a.keys, x ∉ b.keys) :
    ∃ m, a.merge? b = some m ∧ b.merge? a = some m ∧ IsUnion a b m := by
  have hnever {x : String} {v w : Value} (hv : a.get? x = some v) (hw : b.get? x = some w) : False :=
    h x (Binding.mem_keys_iff.mpr ⟨v, hv⟩) (Binding.mem_keys_iff.mpr ⟨w, hw⟩)
  have hab : a.Compatible b := fun x v w hv hw => (hnever hv hw).elim
  have hba : b.Compatible a := fun x v w hv hw => (hnever hw hv).elim
  have hleft : (a.merge? b).isSome := merge?_isSome_iff.mpr fun x v w hv hw => (hnever hv hw).elim
  have hright : (b.merge? a).isSome := merge?_isSome_iff.mpr fun x v w hv hw => (hnever hw hv).elim
  obtain ⟨m, hm⟩ := Option.isSome_iff_exists.mp hleft
  obtain ⟨m', hm'⟩ := Option.isSome_iff_exists.mp hright
  have hunion := isUnion_of_merge? hab hm
  have heq : m = m' := hunion.unique (isUnion_of_merge? hba hm').symm
  exact ⟨m, hm, heq ▸ hm', hunion⟩

/-! ## Merging without floats -/

theorem FloatFree.get? (ha : a.FloatFree) {x : String} {v : Value} (hv : a.get? x = some v) :
    v.isFloat = false :=
  ha v (mem_values_iff.mpr ⟨x, hv⟩)

theorem FloatFree.merge?_isSome_iff (ha : a.FloatFree) (hb : b.FloatFree) :
    (a.merge? b).isSome ↔ a.Compatible b := by
  rw [Binding.merge?_isSome_iff]
  constructor
  · intro h x v w hv hw
    exact (Value.agrees_iff_eq (ha.get? hv) (hb.get? hw)).mp (h x v w hv hw)
  · intro h x v w hv hw
    exact (Value.agrees_iff_eq (ha.get? hv) (hb.get? hw)).mpr (h x v w hv hw)

/-- To merge is to find the union. -/
theorem FloatFree.merge?_eq_some_iff (ha : a.FloatFree) (hb : b.FloatFree) :
    a.merge? b = some m ↔ IsUnion a b m := by
  constructor
  · intro h
    exact isUnion_of_merge? ((ha.merge?_isSome_iff hb).mp (by rw [h, Option.isSome_some])) h
  · intro h
    obtain ⟨d, hd⟩ := Option.isSome_iff_exists.mp ((ha.merge?_isSome_iff hb).mpr h.compatible)
    rw [hd, h.unique (isUnion_of_merge? h.compatible hd)]

theorem FloatFree.merge? (ha : a.FloatFree) (hb : b.FloatFree) (h : a.merge? b = some m) :
    m.FloatFree := by
  intro v hv
  obtain ⟨x, hx⟩ := mem_values_iff.mp hv
  rcases ((ha.merge?_eq_some_iff hb).mp h x v).mp hx with hx | hx
  · exact ha.get? hx
  · exact hb.get? hx

theorem FloatFree.merge?_comm (ha : a.FloatFree) (hb : b.FloatFree) :
    a.merge? b = b.merge? a := by
  refine Option.ext fun m => ?_
  rw [ha.merge?_eq_some_iff hb, hb.merge?_eq_some_iff ha]
  exact ⟨IsUnion.symm, IsUnion.symm⟩

theorem FloatFree.merge?_self (ha : a.FloatFree) : a.merge? a = some a :=
  (ha.merge?_eq_some_iff ha).mpr fun _ _ => or_self_iff.symm

/-- Two merges one after the other find the union of all three. -/
theorem FloatFree.merge?_merge?_eq_some_iff (ha : a.FloatFree) (hb : b.FloatFree)
    (hc : c.FloatFree) : ((a.merge? b).bind fun d => d.merge? c) = some m ↔
      ∀ x v, m.get? x = some v ↔ a.get? x = some v ∨ b.get? x = some v ∨ c.get? x = some v := by
  rw [Option.bind_eq_some_iff]
  constructor
  · rintro ⟨d, hd, hm⟩ x v
    have hab := (ha.merge?_eq_some_iff hb).mp hd
    have hdc := ((ha.merge? hb hd).merge?_eq_some_iff hc).mp hm
    rw [hdc x v, hab x v, or_assoc]
  · intro h
    have hab : a.Compatible b :=
      compatible_of_parts (fun x v hv => (h x v).mpr (.inl hv))
        fun x v hv => (h x v).mpr (.inr (.inl hv))
    obtain ⟨d, hd⟩ := Option.isSome_iff_exists.mp ((ha.merge?_isSome_iff hb).mpr hab)
    refine ⟨d, hd, ((ha.merge? hb hd).merge?_eq_some_iff hc).mpr fun x v => ?_⟩
    rw [h x v, isUnion_of_merge? hab hd x v, or_assoc]

theorem FloatFree.merge?_assoc (ha : a.FloatFree) (hb : b.FloatFree) (hc : c.FloatFree) :
    ((a.merge? b).bind fun m => m.merge? c) = (b.merge? c).bind fun m => a.merge? m := by
  -- the grouping to the right is one to the left of the same bindings in another order
  have hright : ((b.merge? c).bind fun m => a.merge? m) = (b.merge? c).bind fun m => m.merge? a :=
    Option.bind_congr fun m hm => ha.merge?_comm (hb.merge? hc hm)
  rw [hright]
  refine Option.ext fun m => ?_
  rw [ha.merge?_merge?_eq_some_iff hb hc, hb.merge?_merge?_eq_some_iff hc ha]
  exact forall₂_congr fun x v => iff_congr Iff.rfl or_rotate

theorem partialCommMonoidOn_floatFree : PartialCommMonoidOn FloatFree Binding.merge? .empty where
  unit_mem := floatFree_empty
  op_mem _ _ _ ha hb h := ha.merge? hb h
  op_unit _ _ := rfl
  op_comm _ _ ha hb := ha.merge?_comm hb
  op_assoc _ _ _ ha hb hc := ha.merge?_assoc hb hc

end Binding

/-! ## The action on goals -/

section

variable {a b m : Binding}

theorem Term.substitute_substitute (h : a.merge? b = some m) (t : Term) :
    (t.substitute a).substitute b = t.substitute m := by
  cases t with
  | const w => rfl
  | anonymous => rfl
  | var x =>
      simp only [substitute, Binding.get?_merge? h]
      cases a.get? x with
      | none => rfl
      | some v => rfl

/-- Putting in two bindings one after the other is putting in what they merge into. -/
theorem Goal.substitute_substitute (h : a.merge? b = some m) (g : Goal) :
    (g.substitute a).substitute b = g.substitute m := by
  simp only [substitute, List.map_map, Function.comp_def, Term.substitute_substitute h]

end

namespace Binding

/-- Bindings without floats are a partial commutative monoid under merging, and each merges with
itself. Two of them merge when they agree on the variables that they share, and then into their union.
Whatever values bindings hold, what they merge into does to a goal what they do one after the other. -/
theorem merge?_laws :
    PartialCommMonoidOn FloatFree Binding.merge? .empty ∧
    (∀ a : Binding, a.FloatFree → a.merge? a = some a) ∧
    (∀ a b : Binding, a.FloatFree → b.FloatFree →
      ((a.merge? b).isSome ↔ a.Compatible b) ∧
      ∀ m, a.merge? b = some m →
        IsUnion a b m ∧ ∀ x, x ∈ m.keys ↔ x ∈ a.keys ∨ x ∈ b.keys) ∧
    ∀ (a b m : Binding) (g : Goal), a.merge? b = some m →
      (g.substitute a).substitute b = g.substitute m := by
  refine ⟨partialCommMonoidOn_floatFree, fun a ha => ha.merge?_self, fun a b ha hb => ⟨?_, ?_⟩, ?_⟩
  · exact ha.merge?_isSome_iff hb
  · intro m h
    have hunion := (ha.merge?_eq_some_iff hb).mp h
    exact ⟨hunion, fun x => hunion.mem_keys_iff⟩
  · intro a b m g h
    exact g.substitute_substitute h

/-- Frame 1 called frame 2. -/
def calledTwo : Binding := .ofList [("X", .int 1), ("Y", .int 2)]

/-- Frame 2 failed. -/
def failedTwo : Binding := .ofList [("S", .atom "error"), ("Y", .int 2)]

/-- The frame `Y`, a number of the other kind, is active. -/
def activeTwo : Binding := .ofList [("S", .atom "active"), ("Y", .float ⟨0x4000000000000000⟩)]

/-- The status of a frame. -/
def statusOf : Goal := ⟨.status, [.var "Y", .var "S"]⟩

theorem merge?_laws_calledTwo :
    calledTwo.FloatFree ∧ failedTwo.FloatFree ∧
    ¬ failedTwo.Compatible (.ofList [("S", .atom "active")]) ∧
    ((calledTwo.merge? failedTwo).bind fun m => m.merge? (.ofList [("S", .atom "active")])) = none ∧
    calledTwo.merge? activeTwo =
      some (.ofList [("S", .atom "active"), ("X", .int 1), ("Y", .int 2)]) ∧
    (statusOf.substitute calledTwo).substitute activeTwo =
      ⟨.status, [.const (.int 2), .const (.atom "active")]⟩ := by
  obtain ⟨hmonoid, -, hmerge, haction⟩ := merge?_laws
  have hcalled : calledTwo.FloatFree := by decide
  have hfailed : failedTwo.FloatFree := by decide
  have hactive : (ofList [("S", .atom "active")]).FloatFree := by decide
  have hnone : failedTwo.merge? (.ofList [("S", .atom "active")]) = none := by decide
  have hmixed : calledTwo.merge? activeTwo =
      some (.ofList [("S", .atom "active"), ("X", .int 1), ("Y", .int 2)]) := by decide +kernel
  refine ⟨hcalled, hfailed, ?_, ?_, hmixed, ?_⟩
  · rw [← (hmerge _ _ hfailed hactive).1, hnone]
    decide
  · rw [hmonoid.op_assoc _ _ _ hcalled hfailed hactive, hnone]
    rfl
  · rw [haction _ _ _ statusOf hmixed]
    decide

end Binding

end FrameLog
