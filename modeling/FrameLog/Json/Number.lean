import FrameLog.Number.Decimal

/-!
# Number literals

A number literal keeps its digits; what it stands for depends on the kind of number that is asked
for. An integer is asked for exactly. A floating-point number is read in two roundings: the digits
are gathered into a 64-bit significand as far as they fit, and that is scaled once by a power of ten.
-/

namespace FrameLog.Json

/-- A number literal, by its parts. -/
structure Number where
  negative : Bool
  /-- The digits before the point. -/
  whole : List Char
  /-- The digits after the point; there are none without a point. -/
  places : List Char
  /-- The sign and the digits of the exponent. -/
  exponent : Option (Bool × List Char)
deriving DecidableEq

namespace Number

/-! ## Integers -/

/-- The literal of a natural number. -/
def ofNat (n : Nat) : Number := ⟨false, Decimal.digits n, [], none⟩

/-- The literal of an integer. -/
def ofInt (n : Int) : Number := ⟨n < 0, Decimal.digits n.natAbs, [], none⟩

/-- The integer written without point and exponent. Negative zero is no integer. -/
def toInt? (n : Number) : Option Int :=
  if n.places.isEmpty ∧ n.exponent.isNone then
    let magnitude := Decimal.ofDigits n.whole
    if !n.negative then some magnitude
    else if magnitude = 0 then none
    else some (-magnitude)
  else none

/-- An integer that fits an unsigned word. -/
def toUInt64? (n : Number) : Option UInt64 :=
  n.toInt?.bind fun i => if 0 ≤ i ∧ i < Int.pow 2 64 then some (UInt64.ofNat i.toNat) else none

/-- An integer that fits a signed word. -/
def toInt64? (n : Number) : Option Int64 :=
  n.toInt?.bind fun i =>
    if -Int.pow 2 63 ≤ i ∧ i < Int.pow 2 63 then some (Int64.ofInt i) else none

/-! ## Floating-point numbers -/

/-- Appends digits to a significand while it fits 64 bits; also the number of digits taken. -/
def gather (significand : Nat) : List Char → Nat × Nat
  | [] => (significand, 0)
  | c :: cs =>
    let next := 10 * significand + (c.toNat - '0'.toNat)
    if next < Nat.pow 2 64 then
      let (s, taken) := gather next cs
      (s, taken + 1)
    else (significand, 0)

/-- The power of ten nearest to `10 ^ n`. -/
def tenTo (n : Nat) : Binary64 := Binary64.ofNat (Nat.pow 10 n)

/-- Divides by a power of ten, at most `10 ^ 308` at a time. -/
def divideByTens (x : Binary64) (n : Nat) : Binary64 :=
  if n ≤ 308 then x.div (tenTo n)
  else if x.magnitude = 0 then x
  else divideByTens (x.div (tenTo 308)) (n - 308)
termination_by n

/-- Scales a significand by a power of ten; refuses what is beyond the range. -/
def scale (significand : Nat) (exponent : Int) : Option Binary64 :=
  let x := Binary64.ofNat significand
  if exponent < 0 then some (divideByTens x exponent.natAbs)
  else if exponent ≤ 308 then
    let y := x.mul (tenTo exponent.natAbs)
    if y.isFinite then some y else none
  else if significand = 0 then some x
  else none

/-- The value of the digits alone. An exponent that does not fit 32 bits makes the number zero or
puts it out of range. -/
def absolute? (n : Number) : Option Binary64 :=
  let (head, wholeTaken) := gather 0 n.whole
  let (significand, placesTaken) := gather head n.places
  let start : Int := (n.whole.length - wholeTaken : Nat) - (placesTaken : Int)
  match n.exponent with
  | none => scale significand start
  | some (negative, ds) =>
    let e := Decimal.ofDigits ds
    if e < Nat.pow 2 31 then scale significand (if negative then start - e else start + e)
    else if significand ≠ 0 ∧ !negative then none
    else some (Binary64.zero false)

/-- The floating-point number of a literal. -/
def toBinary64? (n : Number) : Option Binary64 :=
  n.absolute?.map fun x => if n.negative then ⟨x.bits ||| 0x8000000000000000⟩ else x

/-- The literal of a finite number: positional with at least one place when the point stands within
sixteen digits or at most four zeros after it, else with an exponent. -/
def ofBinary64 (x : Binary64) : Number :=
  if x.magnitude = 0 then ⟨x.isNegative, ['0'], ['0'], none⟩
  else
    let d := Decimal.shortest x
    let ds := Decimal.digits d.coefficient
    let point := ds.length + d.exponent
    if 0 ≤ d.exponent ∧ point ≤ 16 then
      ⟨x.isNegative, ds ++ List.replicate d.exponent.toNat '0', ['0'], none⟩
    else if 0 < point ∧ point ≤ 16 then
      ⟨x.isNegative, ds.take point.toNat, ds.drop point.toNat, none⟩
    else if -5 < point ∧ point ≤ 0 then
      ⟨x.isNegative, ['0'], List.replicate (-point).toNat '0' ++ ds, none⟩
    else
      ⟨x.isNegative, ds.take 1, ds.drop 1, some (point - 1 < 0, Decimal.digits (point - 1).natAbs)⟩

/-! ## Reading and writing -/

/-- One digit or more. -/
def readDigits? (cs : List Char) : Option (List Char × List Char) :=
  let (ds, rest) := cs.span Char.isDigit
  if ds.isEmpty then none else some (ds, rest)

/-- A point with digits after it, or nothing. -/
def readPlaces? : List Char → Option (List Char × List Char)
  | '.' :: rest => readDigits? rest
  | rest => some ([], rest)

/-- An exponent, or nothing. -/
def readExponent? : List Char → Option (Option (Bool × List Char) × List Char)
  | c :: rest =>
    if c = 'e' ∨ c = 'E' then
      let (negative, rest) := match rest with
        | '-' :: rest => (true, rest)
        | '+' :: rest => (false, rest)
        | rest => (false, rest)
      (readDigits? rest).map fun (ds, rest) => (some (negative, ds), rest)
    else some (none, c :: rest)
  | [] => some (none, [])

/-- The number literal at the beginning of a text. A literal that begins with zero has no further
digit before the point. -/
def read? (cs : List Char) : Option (Number × List Char) := do
  let (negative, cs) := match cs with
    | '-' :: cs => (true, cs)
    | cs => (false, cs)
  let (whole, cs) ← match cs with
    | '0' :: cs => some (['0'], cs)
    | cs => readDigits? cs
  let (places, cs) ← readPlaces? cs
  let (exponent, cs) ← readExponent? cs
  return (⟨negative, whole, places, exponent⟩, cs)

/-- The text of a literal. -/
def write (n : Number) : List Char :=
  (if n.negative then ['-'] else []) ++ n.whole ++
  (if n.places.isEmpty then [] else '.' :: n.places) ++
  match n.exponent with
  | none => []
  | some (negative, ds) => 'e' :: ((if negative then ['-'] else []) ++ ds)

end Number

end FrameLog.Json
