import FrameLog.Predicate

/-!
# What can be wrong

The causes for which an input is refused, and what is said about each. The causes for which a text is
no query stand apart: they come with advice, and one may stand inside another.
-/

namespace FrameLog

/-! ## Queries -/

/-- A cause for which a text is no query. -/
inductive QueryError where
  /-- The text is blank. -/
  | blank
  /-- The text does not begin with `?-`. -/
  | noQueryMark
  /-- The text does not end with a period. -/
  | noPeriod
  /-- Nothing stands between the mark and the period. -/
  | noBody
  /-- Nothing follows a negation sign. -/
  | bareNegation
  /-- The goal of a negated query is faulty. -/
  | inNegation (cause : QueryError)
  /-- Nothing stands between two commas, or beside the outer one. -/
  | blankCondition
  /-- The condition at a position, counted from one, is faulty. -/
  | inCondition (position : Nat) (cause : QueryError)
  /-- A goal lacks an opening or a closing parenthesis. -/
  | noParentheses
  /-- Nothing stands before the opening parenthesis. -/
  | noPredicate
  /-- The predicate begins with a capital. -/
  | uppercasePredicate (name : String)
  /-- The predicate is no identifier. -/
  | malformedPredicate (name : String)
  /-- The predicate is not in the vocabulary, whose names are listed. -/
  | unknownPredicate (name : String) (known : List String)
  /-- The parentheses are not one pair in order. -/
  | unbalancedParentheses
  /-- Something follows the closing parenthesis. -/
  | trailing (text : String)
  /-- The parentheses are empty. -/
  | noArguments (predicate : String)
  /-- Nothing stands between two commas of an argument list, or beside the outer one. -/
  | blankArgument
  /-- An argument is no variable, number or atom. -/
  | malformedArgument (text : String)
deriving DecidableEq

namespace QueryError

/-- What is wrong. -/
def message : QueryError → String
  | blank => "Empty input - please enter a query."
  | noQueryMark => "Missing query prefix '?-'."
  | noPeriod => "Missing period at the end."
  | noBody => "Empty query body."
  | bareNegation => "Empty negation query."
  | inNegation cause => "Error in negated query: " ++ cause.message
  | blankCondition => "Empty condition in compound query."
  | inCondition position cause =>
    "Error in condition " ++ toString position ++ ": " ++ cause.message
  | noParentheses => "Missing parentheses around arguments."
  | noPredicate => "Missing predicate name."
  | uppercasePredicate _ => "Predicate names must start with a lowercase letter."
  | malformedPredicate name => "Invalid predicate name '" ++ name ++ "'."
  | unknownPredicate name _ => "Unknown predicate '" ++ name ++ "'."
  | unbalancedParentheses => "Mismatched parentheses."
  | trailing text => "Unexpected input after ')': '" ++ text ++ "'."
  | noArguments _ => "Empty argument list."
  | blankArgument => "Empty argument in query."
  | malformedArgument text => "Invalid argument '" ++ text ++ "'."

/-- How to mend it. -/
def hint : QueryError → String
  | blank => "A query should look like: ?- predicate(argument1, argument2)."
  | noQueryMark => "All queries must start with '?-'. Try: ?- predicate(arguments)."
  | noPeriod => "All queries must end with a period (.)."
  | noBody => "You need to specify what you want to query. Example: ?- frame(1, X, Y, Z)."
  | bareNegation => "Specify what you want to check for absence. Example: ?- \\+ status(1, error)."
  | inNegation cause => cause.hint
  | blankCondition => "Remove the extra comma or add a goal after it: ?- pred1(...), pred2(...)."
  | inCondition _ cause => cause.hint
  | noParentheses => "Queries need parentheses: ?- predicate(argument1, argument2)."
  | noPredicate => "Specify what you want to query. Example: ?- frame(1, X, Y, Z)."
  | uppercasePredicate name => "Try changing '" ++ name ++ "' to start with lowercase."
  | malformedPredicate _ =>
    "Predicate names should contain only letters, numbers, and underscores."
  | unknownPredicate _ known => "Valid predicates are: " ++ ", ".intercalate known ++ "."
  | unbalancedParentheses => "Make sure the goal has exactly one '(' with a matching ')'."
  | trailing _ => "Separate conditions with commas: ?- pred1(...), pred2(...)."
  | noArguments predicate =>
    "The " ++ predicate ++ " predicate requires arguments. Example: ?- " ++ predicate ++
      "(arg1, arg2)."
  | blankArgument => "Check for extra commas or missing arguments."
  | malformedArgument _ =>
    "Arguments should be atoms (lowercase), variables (uppercase), or numbers."

/-- The innermost cause. -/
def root : QueryError → QueryError
  | inNegation cause => cause.root
  | inCondition _ cause => cause.root
  | cause => cause

end QueryError

/-! ## Frames, facts and names -/

/-- A cause for which an input is refused. -/
inductive Fault where
  /-- The text is no query. -/
  | query (cause : QueryError)
  /-- A fact has another number of values than its predicate takes. -/
  | arity (predicate : Predicate) (expected found : Nat)
  /-- Two frames have the same identifier. -/
  | duplicateFrame (id : UInt64)
  /-- The identifier is zero. -/
  | invalidFrame (id : UInt64)
  | unknownDirection (name : String)
  | unknownStatus (name : String)
  | unknownScenario (name : String)
deriving DecidableEq

/-- What is wrong. -/
def Fault.message : Fault → String
  | query cause => "Query parse error: " ++ cause.message
  | arity predicate expected found =>
    "Arity mismatch for " ++ predicate.name ++ ": expected " ++ toString expected ++ ", found " ++
      toString found
  | duplicateFrame id => "Duplicate frame id: " ++ toString id.toNat
  | invalidFrame id => "Invalid frame id: " ++ toString id.toNat
  | unknownDirection name =>
    "Unknown direction '" ++ name ++ "': expected 'callees' or 'callers'"
  | unknownStatus name =>
    "Unknown frame status '" ++ name ++ "': expected 'active', 'completed' or 'error'"
  | unknownScenario name => "Unknown failure scenario: " ++ name

end FrameLog
