import FrameLog.Value

/-!
# Values on which agreement is an equality

Agreement of values is no equivalence as a whole: NaN does not agree with itself, and two integers
may agree with one float. What is proved about matching therefore names the values among which
agreement behaves as an equality. Values without floats are such.
-/

namespace FrameLog

/-- Among these values agreement is an equivalence. -/
structure AgreementOn (U : Value → Prop) : Prop where
  refl : ∀ v, U v → v.agrees v = true
  symm : ∀ v w, U v → U w → v.agrees w = true → w.agrees v = true
  trans : ∀ u v w, U u → U v → U w → u.agrees v = true → v.agrees w = true → u.agrees w = true

theorem Binary64.agrees_comm (x y : Binary64) : x.agrees y = y.agrees x := by
  rw [agrees, agrees, BEq.comm (a := x.units), Bool.and_comm (!x.isNaN)]

namespace Value

/-- The value is a floating-point number. -/
def isFloat : Value → Bool
  | float _ => true
  | _ => false

/-- Without floats, agreement is identity. -/
theorem agrees_iff_eq {v w : Value} (hv : v.isFloat = false) (hw : w.isFloat = false) :
    v.agrees w = true ↔ v = w := by
  -- values of different kinds neither agree nor are equal
  have hkinds : ∀ {p : Prop}, ¬ p → (false = true ↔ p) := fun hp =>
    ⟨fun h => absurd h Bool.false_ne_true, fun h => absurd h hp⟩
  cases v with
  | float x => cases hv
  | int m =>
      cases w with
      | float y => cases hw
      | int n =>
          rw [int.injEq]
          exact beq_iff_eq
      | atom t => exact hkinds (by simp)
      | null => exact hkinds (by simp)
  | atom s =>
      cases w with
      | float y => cases hw
      | int n => exact hkinds (by simp)
      | atom t =>
          rw [atom.injEq]
          exact beq_iff_eq
      | null => exact hkinds (by simp)
  | null =>
      cases w with
      | float y => cases hw
      | int n => exact hkinds (by simp)
      | atom t => exact hkinds (by simp)
      | null => exact ⟨fun _ => rfl, fun _ => rfl⟩

/-- An integer is compared with a float in the same way from either side. -/
theorem agrees_comm (v w : Value) : v.agrees w = w.agrees v := by
  cases v with
  | int m =>
      cases w with
      | int n => exact BEq.comm
      | _ => rfl
  | float x =>
      cases w with
      | float y => exact Binary64.agrees_comm x y
      | _ => rfl
  | atom s =>
      cases w with
      | atom t => exact BEq.comm
      | _ => rfl
  | null => cases w <;> rfl

end Value

theorem AgreementOn.of_floatFree {U : Value → Prop} (h : ∀ v, U v → v.isFloat = false) :
    AgreementOn U where
  refl v hv := (Value.agrees_iff_eq (h v hv) (h v hv)).mpr rfl
  symm v w hv hw hvw := by
    obtain rfl := (Value.agrees_iff_eq (h v hv) (h w hw)).mp hvw
    exact hvw
  trans u v w hu hv hw huv hvw := by
    obtain rfl := (Value.agrees_iff_eq (h u hu) (h v hv)).mp huv
    exact hvw

/-- Agreement may be read from a third value on either side. -/
theorem AgreementOn.left {U : Value → Prop} (h : AgreementOn U) {u v w : Value} (hu : U u)
    (hv : U v) (hw : U w) (huv : u.agrees v = true) : u.agrees w = true ↔ v.agrees w = true :=
  ⟨h.trans v u w hv hu hw (h.symm u v hu hv huv), h.trans u v w hu hv hw huv⟩

end FrameLog
