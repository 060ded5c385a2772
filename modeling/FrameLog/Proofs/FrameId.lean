import FrameLog.CallGraph
import FrameLog.Proofs.Agreement
import FrameLog.Query
import Mathlib.Algebra.Group.Nat.Defs

/-!
# Unsigned numbers as values

Identifiers, times and sizes are unsigned words. Those below `2 ^ 63` are kept as integers and can be
told apart and read back; larger ones turn into floats, which identify no frame.
-/

namespace FrameLog

/-- The word is among the numbers that are kept as integers. -/
def Fits (n : UInt64) : Prop := n.toNat < 2 ^ 63

instance (n : UInt64) : Decidable (Fits n) := inferInstanceAs (Decidable (_ < _))

namespace Value

/-- The value is an integer that is not negative. -/
def IsFrame : Value → Prop
  | int n => 0 ≤ n.toInt
  | _ => False

instance : DecidablePred IsFrame
  | int n => inferInstanceAs (Decidable (0 ≤ n.toInt))
  | float _ | atom _ | null => inferInstanceAs (Decidable False)

/-- The integer constant for a natural number. -/
def ofNat (n : Nat) : Value := int (Int64.ofInt n)

variable {m n : UInt64} {v : Value}

theorem toInt_ofInt_toNat (hn : Fits n) : (Int64.ofInt n.toNat).toInt = n.toNat := by
  unfold Fits at hn
  exact Int64.toInt_ofInt_of_le (by omega) (by omega)

theorem ofUInt64_of_fits (hn : Fits n) : ofUInt64 n = ofNat n.toNat := if_pos hn

theorem int_agrees_ofUInt64_iff {i : Int64} (hn : Fits n) :
    (int i).agrees (ofUInt64 n) = true ↔ i.toInt = n.toNat := by
  rw [ofUInt64_of_fits hn, ← toInt_ofInt_toNat hn, Int64.toInt_inj]
  exact beq_iff_eq

theorem ofNat_agrees_ofUInt64_iff (hm : Fits m) (hn : Fits n) :
    (ofNat m.toNat).agrees (ofUInt64 n) = true ↔ m = n := by
  rw [ofNat, int_agrees_ofUInt64_iff hn, toInt_ofInt_toNat hm, Int.natCast_inj, UInt64.toNat_inj]

theorem toFrameId?_eq_some_iff : v.toFrameId? = some n ↔ Fits n ∧ v = ofNat n.toNat := by
  constructor
  · intro h
    cases v with
    | int i =>
        simp only [toFrameId?, Option.ite_none_right_eq_some, Option.some.injEq] at h
        obtain ⟨hi, rfl⟩ := h
        have hlt : i.toInt.toNat < 2 ^ 63 := by
          have := i.toInt_lt
          omega
        have hn : (UInt64.ofNat i.toInt.toNat).toNat = i.toInt.toNat :=
          UInt64.toNat_ofNat_of_lt' (Nat.lt_trans hlt (by decide))
        constructor
        · rwa [Fits, hn]
        · rw [ofNat, hn, Int.toNat_of_nonneg hi, Int64.ofInt_toInt]
    | float x => cases h
    | atom s => cases h
    | null => cases h
  · rintro ⟨hn, rfl⟩
    simp [ofNat, toFrameId?, toInt_ofInt_toNat hn]

theorem isFrame_iff : v.IsFrame ↔ ∃ id, Fits id ∧ v = ofNat id.toNat := by
  have hread : v.IsFrame ↔ ∃ id, v.toFrameId? = some id := by
    cases v with
    | int n => by_cases hn : 0 ≤ n.toInt <;> simp [IsFrame, toFrameId?, hn]
    | float x => simp [IsFrame, toFrameId?]
    | atom s => simp [IsFrame, toFrameId?]
    | null => simp [IsFrame, toFrameId?]
  rw [hread]
  exact exists_congr fun id => toFrameId?_eq_some_iff

theorem isFloat_of_isFrame (h : v.IsFrame) : v.isFloat = false := by
  obtain ⟨id, -, rfl⟩ := isFrame_iff.mp h
  rfl

theorem toFrameId?_eq_some_iff_agrees (hn : Fits n) (hv : v.IsFrame) :
    v.toFrameId? = some n ↔ (ofNat n.toNat).agrees v = true := by
  rw [toFrameId?_eq_some_iff, agrees_iff_eq rfl (isFloat_of_isFrame hv), and_iff_right hn, eq_comm]

theorem toFrameId?_ofUInt64 (n : UInt64) :
    (ofUInt64 n).toFrameId? = if Fits n then some n else none := by
  split
  · rename_i hn
    exact toFrameId?_eq_some_iff.mpr ⟨hn, ofUInt64_of_fits hn⟩
  · rename_i hn
    have hfloat : ofUInt64 n = float (Binary64.ofNat n.toNat) := if_neg hn
    rw [hfloat]
    rfl

end Value

/-- The argument that names a frame. -/
def FrameId.term (id : FrameId) : Term := .const (.ofNat id.toNat)

end FrameLog
