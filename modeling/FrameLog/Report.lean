import FrameLog.Discovery
import FrameLog.FactBase

/-!
# Reports

How answers are put into words: the list of bindings, the reasons for an empty answer, and the banner
over a discovery.
-/

namespace FrameLog

/-- What the wording depends on: the vocabulary that hints list, and whether banners are coloured. -/
structure Report where
  vocabulary : Vocabulary := .full
  color : Bool := true

namespace Report

/-! ## Bindings -/

/-- Numbered lines, one for each binding. -/
def numbered (bindings : List Binding) : List String :=
  (bindings.zipIdx 1).map fun (b, n) => "  " ++ toString n ++ ". " ++ b.text

/-- The bindings of a successful goal. Without variables there is nothing to list but their
number. -/
def found (bindings : List Binding) : String :=
  if bindings.all Binding.isEmpty then
    "Yes - found " ++ toString bindings.length ++ " matching fact(s)."
  else
    "\n".intercalate
      (("Found " ++ toString bindings.length ++ " result(s):") :: numbered bindings)

/-! ## Nothing found -/

/-- The predicate of the goal has no facts. -/
def noFacts (r : Report) (goal : Goal) : String :=
  "No facts found for predicate '" ++ goal.predicate.name ++ "'.\nAvailable predicates: " ++
    ", ".intercalate r.vocabulary.names

/-- Variables for the arguments of an example. -/
def exampleVariables : List String := ["X", "Y", "Z", "W", "V", "U"]

/-- A goal without matches, with advice on what to try. -/
def nothing (r : Report) (goal : Goal) (facts : FactBase) : String :=
  if !facts.hasFacts goal.predicate then r.noFacts goal
  else if goal.hasVariables then
    "\n".intercalate
      ["No results found matching the pattern.",
       "",
       "Suggestions:",
       "  - Try using different constant values",
       "  - Use more general variables (e.g., all uppercase)",
       "  - Check if your constants match the data types in the facts"]
  else
    let names := ", ".intercalate (exampleVariables.take goal.predicate.arity)
    "\n".intercalate
      ["No exact match found for the specified values.",
       "",
       "Suggestions:",
       "  - Try using variables (uppercase) to see what values exist",
       "  - Example: ?- " ++ goal.predicate.name ++ "(" ++ names ++ ").",
       "  - Check your values for typos or incorrect data types"]

/-! ## Banners -/

/-- The text under a banner that announces a discovery. -/
def highlight (r : Report) (text : String) (discovery : Discovery) : String :=
  let on := if r.color then "\x1b[93m" else ""
  let off := if r.color then "\x1b[0m" else ""
  let rule := String.ofList (List.replicate 60 '=')
  on ++ rule ++ "\n" ++ discovery.headline ++ "\n" ++ rule ++ off ++ "\n\n" ++ text ++ "\n\n" ++
    on ++ "This discovery may be important for the investigation." ++ off

/-! ## Whole answers -/

/-- The answer to a simple question. -/
def simple (r : Report) (goal : Goal) (bindings : List Binding) (facts : FactBase)
    (discovery : Option Discovery) : String :=
  if bindings.isEmpty then r.nothing goal facts
  else match discovery with
    | some discovery => r.highlight (found bindings) discovery
    | none => found bindings

/-- The answer to a negated question. -/
def negated (goal : Goal) (succeeded : Bool) (facts : FactBase) : String :=
  if !facts.hasFacts goal.predicate then
    "Yes - no facts found for '" ++ goal.predicate.name ++ "', so no matching fact exists."
  else if succeeded then "Yes - no matching fact exists for " ++ goal.text ++ "."
  else "No - a matching fact exists for " ++ goal.text ++ "."

/-- The answer to a conjunction. A positive condition whose predicate has no facts explains an empty
answer by itself. -/
def compound (r : Report) (conjunction : Conjunction) (bindings : List Binding)
    (facts : FactBase) : String :=
  if !bindings.isEmpty then found bindings
  else
    let size := toString conjunction.size
    let missing := conjunction.conditions.find? fun c =>
      !c.negated && !facts.hasFacts c.goal.predicate
    match missing with
    | some c => r.noFacts c.goal
    | none =>
      if conjunction.vars.isEmpty then
        "No - no matching fact combination satisfies all " ++ size ++ " conditions."
      else
        "\n".intercalate
          ["No results satisfy all " ++ size ++ " conditions.",
           "",
           "Suggestions:",
           "  - Check that shared variables can take the same value in each condition",
           "  - Try each condition on its own to see which one filters everything out"]

end Report

end FrameLog
