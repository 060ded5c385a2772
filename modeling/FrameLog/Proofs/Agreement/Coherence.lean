import FrameLog.Match
import FrameLog.Proofs.Agreement
import FrameLog.Proofs.Number.Rounding

/-!
# Where agreement is an equality

Only NaN does not agree with itself, and agreement is symmetric. It is transitive but for chains
from an integer over a float to another integer: the float agrees with every integer that it is
nearest to, and beyond `2 ^ 53` these are several.
-/

namespace FrameLog

namespace Binary64

variable {x y z : Binary64}

theorem agrees_self : x.agrees x = true ↔ x.isNaN = false := by
  rw [agrees_iff]
  exact ⟨fun h => h.1, fun h => ⟨h, h, rfl⟩⟩

theorem agrees_trans (hxy : x.agrees y = true) (hyz : y.agrees z = true) : x.agrees z = true := by
  obtain ⟨hx, -, hxy⟩ := agrees_iff.mp hxy
  obtain ⟨-, hz, hyz⟩ := agrees_iff.mp hyz
  exact agrees_iff.mpr ⟨hx, hz, hxy.trans hyz⟩

end Binary64

namespace Value

variable {u v w : Value} {m n : Int64} {x : Binary64}

/-- The value is a float that stands for no number. -/
def isNaN : Value → Bool
  | float x => x.isNaN
  | _ => false

theorem int_agrees_int : (int m).agrees (int n) = true ↔ m = n := beq_iff_eq

theorem natAbs_toInt_le (n : Int64) : n.toInt.natAbs ≤ 2 ^ 63 := by
  have hlow := n.le_toInt
  have hhigh := n.toInt_lt
  omega

/-- An integer agrees with the float that is nearest to it. -/
theorem int_agrees_float : (int n).agrees (float x) = true ↔ x.Nearest n.toInt :=
  Binary64.ofInt_agrees_iff (natAbs_toInt_le n)

theorem agrees_self : v.agrees v = true ↔ v.isNaN = false := by
  cases v with
  | int n => exact ⟨fun _ => rfl, fun _ => int_agrees_int.mpr rfl⟩
  | float x => exact Binary64.agrees_self
  | atom s => exact ⟨fun _ => rfl, fun _ => beq_self_eq_true s⟩
  | null => exact ⟨fun _ => rfl, fun _ => rfl⟩

/-! ## Chains -/

/-- Values that agree are the same or numbers that agree as floats. -/
theorem eq_or_toBinary64?_of_agrees (h : v.agrees w = true) :
    v = w ∨ ∃ x y, v.toBinary64? = some x ∧ w.toBinary64? = some y ∧ x.agrees y = true := by
  cases v with
  | int m =>
      cases w with
      | int n => exact .inl (congrArg int (int_agrees_int.mp h))
      | float y => exact .inr ⟨_, _, rfl, rfl, h⟩
      | _ => cases h
  | float x =>
      cases w with
      | int n => exact .inr ⟨_, _, rfl, rfl, (Binary64.agrees_comm ..).trans h⟩
      | float y => exact .inr ⟨_, _, rfl, rfl, h⟩
      | _ => cases h
  | atom s =>
      cases w with
      | atom t => exact .inl (congrArg atom (beq_iff_eq.mp h))
      | _ => cases h
  | null =>
      cases w with
      | null => exact .inl rfl
      | _ => cases h

/-- Numbers that agree as floats agree, unless both are integers and so not compared as floats. -/
theorem agrees_or_int_of_toBinary64? {x y : Binary64} (hv : v.toBinary64? = some x)
    (hw : w.toBinary64? = some y) (h : x.agrees y = true) :
    v.agrees w = true ∨ ∃ m n, v = int m ∧ w = int n := by
  cases v with
  | int m =>
      cases w with
      | int n => exact .inr ⟨m, n, rfl, rfl⟩
      | float y =>
          cases hv
          cases hw
          exact .inl h
      | _ => cases hw
  | float x =>
      cases hv
      cases w with
      | int n =>
          cases hw
          exact .inl ((Binary64.agrees_comm ..).trans h)
      | float y =>
          cases hw
          exact .inl h
      | _ => cases hw
  | _ => cases hv

/-- A chain of two agreements closes, unless it leads from an integer over a float to another
integer. -/
theorem agrees_trans_or (huv : u.agrees v = true) (hvw : v.agrees w = true) :
    u.agrees w = true ∨ ∃ m n x, u = int m ∧ v = float x ∧ w = int n ∧ m ≠ n := by
  rcases eq_or_toBinary64?_of_agrees huv with rfl | ⟨x, y, hu, hv, hxy⟩
  · exact .inl hvw
  rcases eq_or_toBinary64?_of_agrees hvw with rfl | ⟨y', z, hv', hw, hyz⟩
  · exact .inl huv
  obtain rfl : y = y' := Option.some.inj (hv.symm.trans hv')
  rcases agrees_or_int_of_toBinary64? hu hw (Binary64.agrees_trans hxy hyz) with
    huw | ⟨m, n, rfl, rfl⟩
  · exact .inl huw
  by_cases hmn : m = n
  · exact .inl (int_agrees_int.mpr hmn)
  · cases v with
    | int k => exact absurd ((int_agrees_int.mp huv).trans (int_agrees_int.mp hvw)) hmn
    | float x => exact .inr ⟨m, n, x, rfl, rfl, rfl, hmn⟩
    | atom s => cases hv
    | null => cases hv

theorem agrees_trans_eq_false_iff (huv : u.agrees v = true) (hvw : v.agrees w = true) :
    u.agrees w = false ↔ ∃ m n x, u = int m ∧ v = float x ∧ w = int n ∧ m ≠ n := by
  constructor
  · intro h
    exact (agrees_trans_or huv hvw).resolve_left (Bool.not_eq_true _ ▸ h)
  · rintro ⟨m, n, x, rfl, rfl, rfl, hmn⟩
    exact beq_false_of_ne hmn

end Value

/-! ## Sets of values -/

/-- No two different integers of the values are nearest to one float of the values. -/
def IntegersApart (U : Value → Prop) : Prop :=
  ∀ m n x, U (.int m) → U (.int n) → U (.float x) → x.Nearest m.toInt → x.Nearest n.toInt → m = n

theorem agreementOn_iff {U : Value → Prop} :
    AgreementOn U ↔ (∀ v, U v → v.isNaN = false) ∧ IntegersApart U := by
  constructor
  · intro h
    refine ⟨fun v hv => Value.agrees_self.mp (h.refl v hv), fun m n x hm hn hx hxm hxn => ?_⟩
    have hmx := Value.int_agrees_float.mpr hxm
    have hxn := (Value.agrees_comm ..).trans (Value.int_agrees_float.mpr hxn)
    exact Value.int_agrees_int.mp (h.trans _ _ _ hm hx hn hmx hxn)
  · rintro ⟨hnumbers, hapart⟩
    refine ⟨fun v hv => Value.agrees_self.mpr (hnumbers v hv),
      fun v w _ _ h => (Value.agrees_comm ..).trans h, fun u v w hu hv hw huv hvw => ?_⟩
    rcases Value.agrees_trans_or huv hvw with huw | ⟨m, n, x, rfl, rfl, rfl, hmn⟩
    · exact huw
    · have hxm := Value.int_agrees_float.mp huv
      have hxn := Value.int_agrees_float.mp ((Value.agrees_comm ..).trans hvw)
      exact absurd (hapart m n x hu hw hv hxm hxn) hmn

/-- The value is no integer, or one that a float holds exactly with all smaller ones. -/
def Value.IsExact (v : Value) : Prop := ∀ n, v = .int n → n.toInt.natAbs ≤ 2 ^ 53

theorem integersApart_isExact {U : Value → Prop} (h : ∀ v, U v → v.IsExact) : IntegersApart U := by
  intro m n x hm hn _ hxm hxn
  exact Int64.toInt_inj.mp (Binary64.Nearest.inj (h _ hm m rfl) (h _ hn n rfl) hxm hxn)

/-- Among given values agreement is an equality if and only if none is NaN and no two integers are
nearest to one float, as none are up to `2 ^ 53`. The other laws hold of all values: NaN alone does
not agree with itself, and a chain of two agreements is open only between two integers that a float
stands between. -/
theorem Value.agrees_coherent (U : Value → Prop) :
    (AgreementOn U ↔ (∀ v, U v → v.isNaN = false) ∧ IntegersApart U) ∧
    ((∀ v, U v → v.IsExact) → IntegersApart U) ∧
    (∀ v : Value, v.agrees v = true ↔ v.isNaN = false) ∧
    (∀ v w : Value, v.agrees w = w.agrees v) ∧
    (∀ u v w : Value, u.agrees v = true → v.agrees w = true →
      (u.agrees w = false ↔ ∃ m n x, u = int m ∧ v = float x ∧ w = int n ∧ m ≠ n)) ∧
    ∀ n x, (int n).agrees (float x) = true ↔ x.Nearest n.toInt :=
  ⟨agreementOn_iff, integersApart_isExact, fun _ => agrees_self, agrees_comm,
    fun _ _ _ => agrees_trans_eq_false_iff, fun _ _ => int_agrees_float⟩

/-! ## Offsets beyond the exact integers -/

/-- `2 ^ 53 + 1`, which no float holds. -/
def oddOffset : Value := .int 9007199254740993

/-- `2 ^ 53`. -/
def evenOffset : Value := .int 9007199254740992

/-- `2 ^ 53` as a float. -/
def roundedOffset : Value := .float ⟨0x4340000000000000⟩

theorem Value.agrees_coherent_offsets :
    (oddOffset.agrees roundedOffset = true ∧ roundedOffset.agrees evenOffset = true) ∧
    oddOffset.agrees evenOffset = false ∧ ¬ AgreementOn (fun v => v.isNaN = false) ∧
    (∀ v ∈ [roundedOffset, evenOffset], v.IsExact) ∧
    AgreementOn (· ∈ [roundedOffset, evenOffset]) := by
  have hodd : oddOffset.agrees roundedOffset = true := by decide +kernel
  have heven : roundedOffset.agrees evenOffset = true := by decide +kernel
  have hne : (9007199254740993 : Int64) ≠ 9007199254740992 := by decide
  have hnumber : ∀ v ∈ [roundedOffset, evenOffset], v.isNaN = false := by decide +kernel
  have hexact : ∀ v ∈ [roundedOffset, evenOffset], v.IsExact := by
    simp only [List.forall_mem_cons]
    refine ⟨fun n hn => ?_, fun n hn => ?_, fun v hv => absurd hv List.not_mem_nil⟩
    · cases hn
    · cases hn
      decide
  obtain ⟨hall, -, -, hcomm, hchain, hnearest⟩ := agrees_coherent (fun v => v.isNaN = false)
  obtain ⟨hsome, hapart, -⟩ := agrees_coherent (· ∈ [roundedOffset, evenOffset])
  have hopen : oddOffset.agrees evenOffset = false :=
    (hchain _ _ _ hodd heven).mpr ⟨_, _, _, rfl, rfl, rfl, hne⟩
  refine ⟨⟨hodd, heven⟩, hopen, fun h => ?_, hexact, hsome.mpr ⟨hnumber, hapart hexact⟩⟩
  have hoddNearest := (hnearest _ _).mp hodd
  have hevenNearest := (hnearest _ _).mp ((hcomm _ _).trans heven)
  exact hne ((hall.mp h).2 _ _ _ rfl rfl (by decide +kernel) hoddNearest hevenNearest)

/-- Three frames were handed an offset. -/
def seekTrace : FactBase where
  toList :=
    [⟨.param, [.int 1, .atom "offset", oddOffset]⟩,
      ⟨.param, [.int 2, .atom "offset", roundedOffset]⟩,
      ⟨.param, [.int 3, .atom "offset", evenOffset]⟩]
  wellFormed := by decide

/-- The frame was handed an offset `X`. -/
def offsetOf (frame : Int64) : Condition :=
  ⟨⟨.param, [.const (.int frame), .const (.atom "offset"), .var "X"]⟩, false⟩

/-- Agreement is not transitive, and whether three frames were handed one offset depends on which of
them is named first. -/
theorem Value.agrees_not_transitive :
    (oddOffset.isNaN = false ∧ roundedOffset.isNaN = false ∧ evenOffset.isNaN = false) ∧
    oddOffset.agrees roundedOffset = true ∧ roundedOffset.agrees evenOffset = true ∧
    oddOffset.agrees evenOffset = false ∧
    (Conjunction.mk [offsetOf 1, offsetOf 2, offsetOf 3]).answers seekTrace = [] ∧
    (Conjunction.mk [offsetOf 2, offsetOf 1, offsetOf 3]).answers seekTrace =
      [.ofList [("X", roundedOffset)]] := by
  decide +kernel

end FrameLog
