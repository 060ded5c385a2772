import FrameLog.Binding
import FrameLog.FactBase
import FrameLog.Query

/-!
# Matching and joining

A goal matches a fact when the arguments agree with the values one by one; the match binds the named
variables. Nothing is inferred: there are facts and no rules. The conditions of a conjunction are
joined from left to right: each answer so far is put into the next condition and extended by what that
finds.
-/

namespace FrameLog

/-! ## Matching -/

namespace Term

/-- Matches one argument with one value, given what is bound so far. -/
def matchValue? (b : Binding) : Term → Value → Option Binding
  | anonymous, _ => some b
  | var name, value => b.bind? name value
  | const expected, value => if expected.agrees value then some b else none

/-- Replaces a bound variable by its value. -/
def substitute (b : Binding) : Term → Term
  | var name => match b.get? name with
    | some value => const value
    | none => var name
  | t => t

end Term

/-- Matches arguments with values in order, given what is bound so far. Lists of different lengths
do not match. -/
def matchFrom? (b : Binding) : List Term → List Value → Option Binding
  | [], [] => some b
  | t :: ts, v :: vs => (t.matchValue? b v).bind fun b => matchFrom? b ts vs
  | _, _ => none

/-- The binding under which the arguments are the fact. -/
def Fact.match? (f : Fact) (args : List Term) : Option Binding := matchFrom? .empty args f.values

namespace Goal

/-- Replaces the bound variables by their values. -/
def substitute (g : Goal) (b : Binding) : Goal := { g with args := g.args.map (·.substitute b) }

/-- The bindings under which the goal is a fact, one for each such fact, in its order. -/
def answers (g : Goal) (facts : FactBase) : List Binding :=
  (facts.facts g.predicate).filterMap fun f => f.match? g.args

/-- The goal is no fact under any binding. -/
def fails (g : Goal) (facts : FactBase) : Bool := (g.answers facts).isEmpty

/-- The answer to a negated goal: the empty binding if the goal fails, else nothing. -/
def negatedAnswers (g : Goal) (facts : FactBase) : List Binding :=
  if g.fails facts then [.empty] else []

end Goal

/-! ## Joining -/

/-- Appends a binding unless one in the list agrees with it. -/
def insertNew (bs : List Binding) (b : Binding) : List Binding :=
  if bs.any (·.agrees b) then bs else bs ++ [b]

namespace Condition

/-- The answers to a condition that stands first. -/
def answers (c : Condition) (facts : FactBase) : List Binding :=
  if c.negated then c.goal.negatedAnswers facts else c.goal.answers facts

/-- What a condition makes of one answer: a positive one extends it by each match, a negated one
keeps it if the goal fails. -/
def extensions (c : Condition) (facts : FactBase) (carried : Binding) : List Binding :=
  let goal := c.goal.substitute carried
  if c.negated then (if goal.fails facts then [carried] else [])
  else (goal.answers facts).filterMap carried.merge?

/-- What a condition makes of a list of answers, without repetitions. -/
def extend (c : Condition) (facts : FactBase) (answers : List Binding) : List Binding :=
  answers.foldl (fun next carried => (c.extensions facts carried).foldl insertNew next) []

end Condition

/-- The answers to a conjunction, in the order in which they are first found. A conjunction of no
conditions has none, and the answers of a single condition keep their repetitions. -/
def Conjunction.answers (c : Conjunction) (facts : FactBase) : List Binding :=
  match c.conditions with
  | [] => []
  | first :: rest => rest.foldl (fun answers d => d.extend facts answers) (first.answers facts)

/-- The answers to a question. -/
def Question.answers (q : Question) (facts : FactBase) : List Binding :=
  match q with
  | simple g => g.answers facts
  | negated g => g.negatedAnswers facts
  | compound c => c.answers facts

end FrameLog
