import FrameLog.Number.Binary64

/-!
# Decimal numbers

Decimal numerals with a fraction and an exponent, the binary64 number nearest to one, and the
shortest decimal that reads back as a given binary64 number.
-/

namespace FrameLog

/-- The number `coefficient * 10 ^ exponent`. -/
structure Decimal where
  coefficient : Nat
  exponent : Int
deriving DecidableEq

namespace Decimal

/-- The decimal digits of a natural number. -/
def digits (n : Nat) : List Char := Nat.toDigits 10 n

/-- The natural number that a list of decimal digits stands for. -/
def ofDigits (cs : List Char) : Nat := Nat.ofDigitChars 10 cs 0

/-! ## Reading -/

/-- An exponent mark with its digits, or nothing at all. -/
def readExponent? : List Char → Option Int
  | [] => some 0
  | mark :: rest =>
    let (negative, ds) := match rest with
      | '-' :: ds => (true, ds)
      | '+' :: ds => (false, ds)
      | ds => (false, ds)
    if (mark = 'e' ∨ mark = 'E') ∧ !ds.isEmpty ∧ ds.all Char.isDigit then
      some (if negative then -(ofDigits ds : Int) else ofDigits ds)
    else none

/-- Reads digits, an optional point with optional digits after it, and an optional exponent. -/
def read? (cs : List Char) : Option Decimal :=
  let (whole, rest) := cs.span Char.isDigit
  let (places, rest) := match rest with
    | '.' :: rest => rest.span Char.isDigit
    | _ => ([], rest)
  if whole.isEmpty then none
  else (readExponent? rest).map fun e => ⟨ofDigits (whole ++ places), e - places.length⟩

/-! ## To binary -/

/-- The exact value, as a quotient of natural numbers. -/
def ratio (d : Decimal) : Nat × Nat :=
  (d.coefficient * Nat.pow 10 d.exponent.toNat, Nat.pow 10 (-d.exponent).toNat)

/-- The nearest binary64 number. Decimals beyond `10 ^ 310` or below `10 ^ -330` are far outside the
range of the format and are settled by the place of their leading digit alone. -/
def toBinary64 (d : Decimal) : Binary64 :=
  let lead := d.exponent + (digits d.coefficient).length
  if d.coefficient = 0 ∨ lead < -330 then Binary64.zero false
  else if 310 < lead then Binary64.infinity false
  else Binary64.ofRatio false d.ratio.1 d.ratio.2

/-! ## The shortest decimal -/

/-- The decimal lies among the reals that round to the number: from halfway to the neighbour below
to halfway to the neighbour above, the ends included when the significand is even. -/
def readsBackAs (d : Decimal) (x : Binary64) : Bool :=
  let gap := Nat.pow 2 x.scale
  let low := 4 * x.magnitude - (if x.fraction = 0 ∧ 1 < x.exponent then gap else 2 * gap)
  let high := 4 * x.magnitude + 2 * gap
  let (n, den) := d.ratio
  let n := n * Nat.pow 2 1076
  if x.significand % 2 = 0 then low * den ≤ n && n ≤ high * den
  else low * den < n && n < high * den

/-- The multiple of `10 ^ e` that reads back as the number, if one does: the nearer of its two
neighbours on that grid, and the upper one when both are equally near. -/
def onGrid? (x : Binary64) (e : Int) : Option Decimal :=
  let n := x.magnitude * Nat.pow 10 (-e).toNat
  let d := Nat.pow 2 1074 * Nat.pow 10 e.toNat
  let below : Decimal := ⟨n / d, e⟩
  let above : Decimal := ⟨n / d + 1, e⟩
  match below.readsBackAs x, above.readsBackAs x with
  | true, true => if 2 * (n % d) < d then some below else some above
  | true, false => some below
  | false, true => some above
  | false, false => none

/-- The least `k` with the positive number below `10 ^ k`. -/
def leadingPlace (x : Binary64) : Int :=
  ((digits (x.magnitude * Nat.pow 10 340 / Nat.pow 2 1074)).length : Int) - 340

/-- The same number without trailing zeros in the coefficient. -/
def strip (d : Decimal) : Decimal :=
  let zeros := ((digits d.coefficient).reverse.takeWhile (· == '0')).length
  ⟨d.coefficient / Nat.pow 10 zeros, d.exponent + zeros⟩

/-- The shortest decimal that reads back as a finite positive number: the coarsest grid with a hit
wins. Seventeen digits always suffice; the exact value stands behind them. -/
def shortest (x : Binary64) : Decimal :=
  let grids := (List.range 17).map fun (n : Nat) => leadingPlace x - n - 1
  ((grids.findSome? (onGrid? x)).getD ⟨x.magnitude * Nat.pow 5 1074, -1074⟩).strip

/-! ## Writing -/

/-- Positional digits: never an exponent, and no point without a digit after it. -/
def plain (d : Decimal) : List Char :=
  let ds := digits d.coefficient
  if 0 ≤ d.exponent then ds ++ List.replicate d.exponent.toNat '0'
  else
    let places := (-d.exponent).toNat
    let padded := List.replicate (places + 1 - ds.length) '0' ++ ds
    let whole := padded.length - places
    padded.take whole ++ '.' :: padded.drop whole

end Decimal

/-- The number in positional notation with the fewest digits that read back. -/
def Binary64.text (x : Binary64) : String :=
  if x.isNaN then "NaN"
  else
    let sign := if x.isNegative then "-" else ""
    if !x.isFinite then sign ++ "inf"
    else if x.magnitude = 0 then sign ++ "0"
    else sign ++ String.ofList (Decimal.shortest x).plain

end FrameLog
