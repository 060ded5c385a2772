/-!
# Random numbers

What the making of a trace asks of a supply of random numbers: whole numbers within bounds and the
toss of a coin. The bounds are part of the type, so whatever is made keeps to them with every supply.
-/

namespace FrameLog

/-- The size of the random words that a number is drawn from. -/
inductive WordSize where
  | word32
  | word64
deriving DecidableEq

/-- The number of bits of a word. -/
def WordSize.bits : WordSize → Nat
  | word32 => 32
  | word64 => 64

/-- The whole numbers from `low` to `high`. -/
abbrev Between (low high : Nat) := { n : Nat // low ≤ n ∧ n ≤ high }

/-- A supply of random numbers with states of a type. -/
class RandomSource (σ : Type) where
  /-- A number within bounds, and the supply after it. -/
  between : WordSize → (low high : Nat) → low ≤ high → σ → Between low high × σ
  /-- The toss of a coin, and the supply after it. -/
  coin : σ → Bool × σ

/-- A supply of random numbers that can begin from a seed. -/
class SeededSource (σ : Type) extends RandomSource σ where
  /-- The beginning of the supply that a seed stands for. -/
  ofSeed : UInt64 → σ

namespace RandomSource

variable {σ : Type} [RandomSource σ]

/-- Draws a number within bounds. -/
def draw (size : WordSize) (low high : Nat) (h : low ≤ high := by decide) :
    StateM σ (Between low high) :=
  fun s => between size low high h s

/-- Tosses a coin. -/
def toss : StateM σ Bool := fun s => coin s

end RandomSource

end FrameLog
