/-!
# Binary64 numbers

A double-precision number is held as its 64 bits and read exactly: every finite one is a whole
number of units of `2 ^ -1074`, so order, equality and rounding are arithmetic on integers.
-/

namespace FrameLog

/-- A double-precision number, given by its encoding. -/
structure Binary64 where
  /-- Sign, eleven bits of exponent and fifty-two bits of fraction. -/
  bits : UInt64
deriving DecidableEq

namespace Binary64

/-! ## Reading the encoding -/

/-- The fraction field. -/
def fraction (x : Binary64) : Nat := x.bits.toNat % Nat.pow 2 52

/-- The exponent field. -/
def exponent (x : Binary64) : Nat := x.bits.toNat / Nat.pow 2 52 % Nat.pow 2 11

/-- The sign bit is set. -/
def isNegative (x : Binary64) : Bool := Nat.pow 2 63 ≤ x.bits.toNat

/-- The encoding stands for no number. -/
def isNaN (x : Binary64) : Bool := x.exponent == 2047 && x.fraction != 0

/-- The encoding stands for a real number. -/
def isFinite (x : Binary64) : Bool := x.exponent != 2047

/-- The fraction with its leading bit, which subnormal numbers lack. -/
def significand (x : Binary64) : Nat :=
  if x.exponent = 0 then x.fraction else Nat.pow 2 52 + x.fraction

/-- The gap between neighbours is `2 ^ scale` units. -/
def scale (x : Binary64) : Nat := x.exponent - 1

/-- The absolute value in units; an infinity counts as the power of two after the largest number. -/
def magnitude (x : Binary64) : Nat := x.significand * Nat.pow 2 x.scale

/-- The value in units of `2 ^ -1074`. -/
def units (x : Binary64) : Int := if x.isNegative then -x.magnitude else x.magnitude

/-! ## Order -/

/-- Numeric equality: the two zeros agree, and NaN agrees with nothing. -/
def agrees (x y : Binary64) : Bool := !x.isNaN && !y.isNaN && x.units == y.units

/-- Numeric order; NaN is neither below nor above anything. -/
def lessThan (x y : Binary64) : Bool := !x.isNaN && !y.isNaN && x.units < y.units

/-! ## Rounding -/

/-- The whole number nearest to `n / d`; a half goes to the even neighbour. -/
def roundHalfEven (n d : Nat) : Nat :=
  let q := n / d
  let r := n % d
  if 2 * r < d ∨ (2 * r = d ∧ q % 2 = 0) then q else q + 1

/-- The encoding of positive infinity. -/
def infinityBits : Nat := 2047 * Nat.pow 2 52

/-- The encoding of the number nearest to `n / d`, ties to even. A significand that rounds up to the
next power of two carries into the exponent field, and past the last exponent lies infinity. -/
def nearestBits (n d : Nat) : Nat :=
  let scale := (n * Nat.pow 2 1074 / d).log2 - 52
  min (scale * Nat.pow 2 52 + roundHalfEven (n * Nat.pow 2 1074) (d * Nat.pow 2 scale)) infinityBits

/-- The number nearest to `n / d`, with the given sign. -/
def ofRatio (negative : Bool) (n d : Nat) : Binary64 :=
  ⟨UInt64.ofNat ((if negative then Nat.pow 2 63 else 0) + nearestBits n d)⟩

/-- The number nearest to a natural number. -/
def ofNat (n : Nat) : Binary64 := ofRatio false n 1

/-- The number nearest to an integer. -/
def ofInt (n : Int) : Binary64 := ofRatio (n < 0) n.natAbs 1

/-- Zero, with the given sign. -/
def zero (negative : Bool) : Binary64 := ofRatio negative 0 1

/-- Infinity, with the given sign. -/
def infinity (negative : Bool) : Binary64 :=
  ⟨UInt64.ofNat ((if negative then Nat.pow 2 63 else 0) + infinityBits)⟩

/-- The product of two finite non-negative numbers, rounded. -/
def mul (x y : Binary64) : Binary64 := ofRatio false (x.magnitude * y.magnitude) (Nat.pow 2 2148)

/-- The quotient of two finite positive numbers, rounded. -/
def div (x y : Binary64) : Binary64 := ofRatio false x.magnitude y.magnitude

end Binary64

end FrameLog
