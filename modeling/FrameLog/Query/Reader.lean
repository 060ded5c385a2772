import FrameLog.Error
import FrameLog.Query
import FrameLog.Text

/-!
# Reading queries

`Query.read` turns a text into a query over a vocabulary or says what is wrong with it. The rules are
checked in a fixed order, so a text with several faults is reported for the first.
-/

namespace FrameLog

open Text

/-! ## Segments

A query body is cut into conditions at the commas outside all parentheses. The depth is a signed
count: after more closing than opening parentheses a comma is not outside. -/

namespace Query

/-- Puts a character in front of the first segment. -/
def pushChar (c : Char) : List (List Char) → List (List Char)
  | [] => [[c]]
  | s :: rest => (c :: s) :: rest

/-- The change of depth at a character. -/
def depthStep (c : Char) : Int :=
  if c = '(' then 1 else if c = ')' then -1 else 0

/-- The segments of a text that begins at the given depth. -/
def segmentsFrom (depth : Int) : List Char → List (List Char)
  | [] => [[]]
  | c :: cs =>
    if c = ',' ∧ depth = 0 then [] :: segmentsFrom depth cs
    else pushChar c (segmentsFrom (depth + depthStep c) cs)

/-- The text cut at every comma at depth zero; empty segments are kept. -/
def segments (body : List Char) : List (List Char) := segmentsFrom 0 body

end Query

/-! ## Tokens -/

/-- Letters, digits and the underscore, all ASCII. -/
def isWordChar (c : Char) : Bool := c.isAlphanum || c == '_'

/-- A small letter followed by word characters. -/
def isAtomToken : List Char → Bool
  | c :: cs => c.isLower && cs.all isWordChar
  | [] => false

/-- A capital or an underscore followed by word characters. -/
def isVariableToken : List Char → Bool
  | c :: cs => (c.isUpper || c == '_') && cs.all isWordChar
  | [] => false

/-- One digit or more. -/
def isNumeralToken (cs : List Char) : Bool := !cs.isEmpty && cs.all Char.isDigit

/-- The text is a legal argument. -/
def isArgumentToken (cs : List Char) : Bool :=
  isVariableToken cs || isNumeralToken cs || isAtomToken cs

/-! ## Goals, conditions and queries -/

namespace Goal

/-- Reads one argument. -/
def readArgument (token : List Char) : Except QueryError Term :=
  if token.isEmpty then throw .blankArgument
  else if isArgumentToken token then return Term.ofToken token
  else throw (.malformedArgument (String.ofList token))

/-- Reads the name before the parentheses. -/
def readPredicate (v : Vocabulary) (name : List Char) : Except QueryError Predicate :=
  let text := String.ofList name
  if name.isEmpty then throw .noPredicate
  else if !isAtomToken name then
    if name.head?.any isUppercase then throw (.uppercasePredicate text)
    else throw (.malformedPredicate text)
  else match v.resolve? text with
    | some p => return p
    | none => throw (.unknownPredicate text v.names)

/-- Reads the arguments between the parentheses. -/
def readArguments (name interior : List Char) : Except QueryError (List Term) :=
  if interior.isEmpty then throw (.noArguments (String.ofList name))
  else (interior.splitOnP (· == ',')).mapM fun token => readArgument (trim token)

/-- Reads a goal such as `frame(1, X, Y, Z)`. The predicate is examined before the parentheses are
counted, and these before the arguments. -/
def read (v : Vocabulary) (body : List Char) : Except QueryError Goal := do
  let (before, rest) := body.span (· != '(')
  match rest with
  | [] => throw .noParentheses
  | _ :: inside =>
    if !body.contains ')' then throw .noParentheses
    let name := trim before
    let predicate ← readPredicate v name
    if body.count '(' ≠ 1 ∨ body.count ')' ≠ 1 ∨ before.contains ')' then
      throw .unbalancedParentheses
    let (interior, after) := inside.span (· != ')')
    let trailing := trim (after.drop 1)
    if !trailing.isEmpty then throw (.trailing (String.ofList trailing))
    let args ← readArguments name (trim interior)
    return ⟨predicate, args⟩

end Goal

/-- The text after a negation sign, without blanks around it. -/
def negatedPart? : List Char → Option (List Char)
  | '\\' :: '+' :: rest => some (trim rest)
  | _ => none

/-- Reads a goal or, after a negation sign, a negated goal. -/
def Condition.read (v : Vocabulary) (segment : List Char) : Except QueryError Condition :=
  if segment.isEmpty then throw .blankCondition
  else match negatedPart? segment with
    | none => return ⟨← Goal.read v segment, false⟩
    | some [] => throw .bareNegation
    | some goal => return ⟨← Goal.read v goal, true⟩

/-- Reads the conditions of a body; a fault is reported with the position of its condition. -/
def Conjunction.read (v : Vocabulary) (segments : List (List Char)) :
    Except QueryError Conjunction := do
  let conditions ← (segments.zipIdx 1).mapM fun (segment, position) =>
    (Condition.read v (trim segment)).mapError (.inCondition position)
  return ⟨conditions⟩

/-- Reads what stands between the query mark and the period. A negation sign at the beginning
negates the whole body, commas included. -/
def Question.read (v : Vocabulary) (body : List Char) : Except QueryError Question :=
  if body.isEmpty then throw .noBody
  else match negatedPart? body with
    | some [] => throw .bareNegation
    | some goal => return .negated (← (Goal.read v goal).mapError .inNegation)
    | none => match Query.segments body with
      | [_] => return .simple (← Goal.read v body)
      | segments => return .compound (← Conjunction.read v segments)

/-- Reads a query; blanks around it do not belong to its source. -/
def Query.read (v : Vocabulary) (input : String) : Except QueryError Query := do
  let source := trim input.toList
  if source.isEmpty then throw .blank
  match source with
  | '?' :: '-' :: rest =>
    if source.getLast? ≠ some '.' then throw .noPeriod
    let question ← Question.read v (trim rest.dropLast)
    return ⟨String.ofList source, question⟩
  | _ => throw .noQueryMark

end FrameLog
