import FrameLog.Number.Decimal

/-!
# Values

What a fact holds and a query may name: integers, floating-point numbers, atoms and the null mark.
`Value.agrees` is the equality that matching uses; it compares numbers across the two kinds, unlike
the structural `=`.
-/

namespace FrameLog

/-- A single value. -/
inductive Value where
  | int (n : Int64)
  | float (x : Binary64)
  | atom (text : String)
  /-- The mark of a missing value. -/
  | null
deriving DecidableEq

namespace Value

/-! ## Views -/

/-- A number as binary64; integers are rounded to the nearest. -/
def toBinary64? : Value → Option Binary64
  | int n => some (Binary64.ofInt n.toInt)
  | float x => some x
  | _ => none

def toInt? : Value → Option Int64
  | int n => some n
  | _ => none

def toAtom? : Value → Option String
  | atom s => some s
  | _ => none

def isNull : Value → Bool
  | null => true
  | _ => false

/-! ## Agreement -/

/-- The values agree: integers and floats by number, an integer being rounded before it meets a
float, all else by identity. -/
def agrees : Value → Value → Bool
  | int m, int n => m == n
  | float x, float y => x.agrees y
  | int n, float x => (Binary64.ofInt n.toInt).agrees x
  | float x, int n => (Binary64.ofInt n.toInt).agrees x
  | atom s, atom t => s == t
  | null, null => true
  | _, _ => false

/-! ## Building and printing -/

/-- An unsigned word: an integer when it fits, otherwise the nearest float. -/
def ofUInt64 (n : UInt64) : Value :=
  if n.toNat < Nat.pow 2 63 then int (Int64.ofInt n.toNat) else float (Binary64.ofNat n.toNat)

/-- The written form. Atoms are written as they are. -/
def text : Value → String
  | int n => toString n.toInt
  | float x => x.text
  | atom s => s
  | null => "null"

/-- The number that a token beginning with a digit stands for: an integer if it is one and fits,
else a decimal rounded to a float. -/
def readNumber? (token : List Char) : Option Value :=
  if token.all Char.isDigit ∧ Decimal.ofDigits token < Nat.pow 2 63 then
    some (int (Int64.ofInt (Decimal.ofDigits token)))
  else (Decimal.read? token).map fun d => float d.toBinary64

/-- The value of a constant token. Only a token that begins with a digit can be a number, and what
is neither a number nor `null` is an atom. -/
def ofToken (token : List Char) : Value :=
  let word := if String.ofList token = "null" then null else atom (String.ofList token)
  match token with
  | c :: _ => if c.isDigit then (readNumber? token).getD word else word
  | [] => word

end Value

end FrameLog
