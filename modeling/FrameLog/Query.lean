import FrameLog.Predicate
import FrameLog.Value

/-!
# Queries

Terms, goals, conditions and the three shapes of a query, with their written forms.
-/

namespace FrameLog

/-! ## Terms -/

/-- An argument of a goal. -/
inductive Term where
  | const (value : Value)
  | var (name : String)
  /-- `_`, which matches everything and remembers nothing. -/
  | anonymous
deriving DecidableEq

namespace Term

/-- The term that an argument token stands for. A token that begins with a capital or an underscore
is a variable. -/
def ofToken (token : List Char) : Term :=
  match token with
  | ['_'] => anonymous
  | c :: _ =>
    if c.isUpper || c == '_' then var (String.ofList token) else const (Value.ofToken token)
  | [] => const (Value.ofToken token)

/-- The term is a variable, named or not. -/
def isVariable : Term → Bool
  | const _ => false
  | _ => true

def variableName? : Term → Option String
  | var name => some name
  | _ => none

def value? : Term → Option Value
  | const value => some value
  | _ => none

def text : Term → String
  | const value => value.text
  | var name => name
  | anonymous => "_"

end Term

/-- The names in a list, each at its first appearance. -/
def firstAppearances (names : List String) : List String :=
  names.foldl (fun seen name => if seen.contains name then seen else seen ++ [name]) []

/-! ## Goals -/

/-- A predicate applied to terms. The number of terms is not tied to the arity: a goal of the wrong
length matches nothing. -/
structure Goal where
  predicate : Predicate
  args : List Term
deriving DecidableEq

namespace Goal

/-- The named variables of the goal, each at its first appearance. -/
def vars (g : Goal) : List String := firstAppearances (g.args.filterMap Term.variableName?)

/-- Some argument is a variable, named or not. -/
def hasVariables (g : Goal) : Bool := g.args.any Term.isVariable

def text (g : Goal) : String :=
  g.predicate.name ++ "(" ++ ", ".intercalate (g.args.map Term.text) ++ ")"

end Goal

/-! ## Conditions -/

/-- A goal that must hold or, if negated, must fail. -/
structure Condition where
  goal : Goal
  negated : Bool
deriving DecidableEq

def Condition.text (c : Condition) : String :=
  (if c.negated then "\\+ " else "") ++ c.goal.text

/-- Conditions that must hold together, in order of evaluation. -/
structure Conjunction where
  conditions : List Condition
deriving DecidableEq

namespace Conjunction

/-- A conjunction of at least two conditions. -/
def ofList? (cs : List Condition) : Option Conjunction :=
  if cs.length < 2 then none else some ⟨cs⟩

/-- The number of conditions. -/
def size (c : Conjunction) : Nat := c.conditions.length

/-- The named variables of all conditions, each at its first appearance. -/
def vars (c : Conjunction) : List String :=
  firstAppearances (c.conditions.flatMap fun d => d.goal.vars)

def text (c : Conjunction) : String := ", ".intercalate (c.conditions.map Condition.text)

end Conjunction

/-! ## Queries -/

/-- What a query asks. -/
inductive Question where
  /-- Which bindings satisfy the goal? -/
  | simple (goal : Goal)
  /-- Is the goal without a match? -/
  | negated (goal : Goal)
  /-- Which bindings satisfy all the conditions? -/
  | compound (conjunction : Conjunction)
deriving DecidableEq

namespace Question

/-- The predicates used, in the order of the conditions. -/
def predicates : Question → List Predicate
  | simple g => [g.predicate]
  | negated g => [g.predicate]
  | compound c => c.conditions.map (·.goal.predicate)

/-- The named variables, each at its first appearance. -/
def vars : Question → List String
  | simple g => g.vars
  | negated g => g.vars
  | compound c => c.vars

def text : Question → String
  | simple g => "?- " ++ g.text ++ "."
  | negated g => "?- \\+ " ++ g.text ++ "."
  | compound c => "?- " ++ c.text ++ "."

/-- The name of the shape. -/
def tag : Question → String
  | simple _ => "simple"
  | negated _ => "negation"
  | compound _ => "compound"

end Question

/-- A question together with the text in which it was put. -/
structure Query where
  source : String
  question : Question
deriving DecidableEq

end FrameLog
