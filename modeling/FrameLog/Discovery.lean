import FrameLog.Binding
import FrameLog.Query

/-!
# Significant discoveries

Rules that look at a goal and its matches and call attention to what is telling about them. The
first rule of a list that applies names the discovery, so the order of the rules is their priority.
-/

namespace FrameLog

/-! ## Kinds -/

/-- What a discovery is about. -/
inductive Discovery where
  /-- A frame that failed. -/
  | error
  /-- Many calls, as a recursion without end makes them. -/
  | recursion
  /-- A very large allocation. -/
  | memoryAnomaly
  /-- A parameter without a value. -/
  | nullParameter
  /-- A frame that waits for a lock. -/
  | deadlock
  /-- Many matches of any sort. -/
  | pattern
deriving DecidableEq

namespace Discovery

def name : Discovery → String
  | error => "error"
  | recursion => "recursion"
  | memoryAnomaly => "memory_anomaly"
  | nullParameter => "null_parameter"
  | deadlock => "deadlock"
  | pattern => "pattern"

/-- The kinds are listed in the order of their priority. -/
instance : Named Discovery where
  all := [error, recursion, memoryAnomaly, nullParameter, deadlock, pattern]
  name := name
  mem_all d := by cases d <;> decide
  name_inj d e h := by cases d <;> cases e <;> first | rfl | exact absurd h (by decide)

/-- The line that announces the discovery. -/
def headline : Discovery → String
  | error => "SIGNIFICANT: Error status detected!"
  | recursion => "SIGNIFICANT: Recursive call pattern detected!"
  | memoryAnomaly => "SIGNIFICANT: High memory allocation detected!"
  | nullParameter => "SIGNIFICANT: Null parameter detected!"
  | deadlock => "SIGNIFICANT: Potential deadlock detected!"
  | pattern => "SIGNIFICANT: Pattern detected in results!"

/-- The name in capitalised words. -/
def title : Discovery → String
  | error => "Error"
  | recursion => "Recursion"
  | memoryAnomaly => "MemoryAnomaly"
  | nullParameter => "NullParameter"
  | deadlock => "Deadlock"
  | pattern => "Pattern"

end Discovery

/-! ## Observations -/

/-- A goal with its matches. -/
structure Observation where
  goal : Goal
  found : List Binding

namespace Observation

/-- The bound values of all matches, then the constants of the goal. -/
def values (o : Observation) : List Value :=
  o.found.flatMap Binding.values ++ o.goal.args.filterMap Term.value?

/-- Some value is the atom. -/
def hasAtom (o : Observation) (text : String) : Bool :=
  o.values.any fun v => v.toAtom? == some text

end Observation

/-! ## Rules -/

/-- A test on observations. -/
inductive Rule where
  | error
  | recursion (threshold : Nat)
  | memoryAnomaly (threshold : Nat)
  | nullParameter
  | deadlock
  | pattern (threshold : Nat)
deriving DecidableEq

namespace Rule

/-- The discovery that the rule reports. -/
def kind : Rule → Discovery
  | error => .error
  | recursion _ => .recursion
  | memoryAnomaly _ => .memoryAnomaly
  | nullParameter => .nullParameter
  | deadlock => .deadlock
  | pattern _ => .pattern

/-- The rule applies. A threshold has to be exceeded; numbers of bytes are compared as binary64. -/
def applies (r : Rule) (o : Observation) : Bool :=
  match r with
  | error => o.goal.predicate == .status && o.hasAtom "error"
  | recursion threshold => o.goal.predicate == .calls && threshold < o.found.length
  | memoryAnomaly threshold =>
    o.goal.predicate == .allocated &&
    (o.values.filterMap Value.toBinary64?).any fun bytes =>
      (Binary64.ofNat threshold).lessThan bytes
  | nullParameter => o.goal.predicate == .param && o.values.any Value.isNull
  | deadlock => o.goal.predicate == .param && o.hasAtom "waiting_for"
  | pattern threshold => threshold < o.found.length

/-- A description for logs. -/
def describe (r : Rule) : String :=
  "SignificanceRule \x7b kind: " ++ r.kind.title ++ ", .. \x7d"

end Rule

/-- The thresholds of the standard rules. -/
structure Thresholds where
  /-- Calls. -/
  recursion : Nat := 10
  /-- Bytes. -/
  memory : Nat := 1000000
  /-- Matches. -/
  pattern : Nat := 5
deriving DecidableEq

/-- The standard rules in the order of their priority. -/
def Thresholds.rules (t : Thresholds) : List Rule :=
  [.error, .recursion t.recursion, .memoryAnomaly t.memory, .nullParameter, .deadlock,
    .pattern t.pattern]

/-- The discovery that a goal and its matches make under the rules. No match is no discovery. -/
def classify (rules : List Rule) (goal : Goal) (found : List Binding) : Option Discovery :=
  if found.isEmpty then none
  else (rules.find? (·.applies ⟨goal, found⟩)).map Rule.kind

end FrameLog
