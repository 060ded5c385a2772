import FrameLog.ChainCache
import FrameLog.Match
import FrameLog.Query.Reader
import FrameLog.Report

/-!
# Sessions

A session answers questions about one fact base. Only the chains that it remembers change in its
course, and they change no answer.
-/

namespace FrameLog

/-! ## Settings -/

/-- What a session can be set to. -/
structure Settings where
  /-- The predicates that queries may use. -/
  vocabulary : Vocabulary := .full
  thresholds : Thresholds := {}
  /-- Colour in banners. -/
  color : Bool := true
  /-- Remember call chains. -/
  rememberChains : Bool := true

/-- The wording that the settings ask for. -/
def Settings.report (s : Settings) : Report := ⟨s.vocabulary, s.color⟩

/-! ## Answers -/

/-- The answer to a query. -/
structure Answer where
  bindings : List Binding
  /-- The named variables of the query, each at its first appearance. -/
  vars : List String
  /-- The answer in words. -/
  output : String
  discovery : Option Discovery
  /-- The number of facts under the predicates of the query. -/
  factsScanned : Nat
deriving DecidableEq

namespace Answer

def isSignificant (a : Answer) : Bool := a.discovery.isSome

/-- At least one binding was found. A negated query succeeds with the empty binding. -/
def succeeded (a : Answer) : Bool := !a.bindings.isEmpty

end Answer

/-- What comes of a submitted text. -/
inductive Response where
  /-- The text, without blanks around it, is no query. -/
  | refused (source : String) (cause : QueryError)
  | answered (answer : Answer)
deriving DecidableEq

namespace Response

/-- The text to show. -/
def output : Response → String
  | refused _ cause => "Error: " ++ cause.message ++ "\nHint: " ++ cause.hint
  | answered a => a.output

/-- The text was a query. -/
def isAnswered : Response → Bool
  | refused _ _ => false
  | answered _ => true

end Response

/-! ## Sessions -/

/-- Facts, settings and the chains remembered so far. -/
structure Session where
  facts : FactBase
  settings : Settings := {}
  cache : ChainCache := .empty

namespace Session

/-! ### Queries -/

/-- Reads a query over the vocabulary of the session. -/
def read (s : Session) (input : String) : Except QueryError Query :=
  Query.read s.settings.vocabulary input

/-- Answers a query: finds the bindings, looks for a discovery in those of a simple goal, and puts
the answer into words. -/
def evaluate (s : Session) (q : Query) : Answer :=
  let bindings := q.question.answers s.facts
  let report := s.settings.report
  let discovery := match q.question with
    | .simple goal => classify s.settings.thresholds.rules goal bindings
    | _ => none
  let output := match q.question with
    | .simple goal => report.simple goal bindings s.facts discovery
    | .negated goal => Report.negated goal (!bindings.isEmpty) s.facts
    | .compound conjunction => report.compound conjunction bindings s.facts
  { bindings := bindings
    vars := q.question.vars
    output := output
    discovery := discovery
    factsScanned := q.question.predicates.foldl (fun n p => n + (s.facts.facts p).length) 0 }

/-- Answers a submitted text. -/
def run (s : Session) (input : String) : Response :=
  match s.read input with
  | .error cause => .refused (String.ofList (Text.trim input.toList)) cause
  | .ok q => .answered (s.evaluate q)

/-! ### The call graph -/

/-- The chain of a frame, from memory where the settings allow that. -/
def chain (s : Session) (frame : FrameId) (d : Direction) : List FrameId × Session :=
  if s.settings.rememberChains then
    let (chain, cache) :=
      Id.run (s.cache.getOrCompute (frame, d) fun _ => pure (s.facts.callGraph.chain frame d))
    (chain, { s with cache := cache })
  else (s.facts.callGraph.chain frame d, s)

/-- A shortest path along calls. -/
def path? (s : Session) (source target : FrameId) : Option (List FrameId) :=
  s.facts.callGraph.path? source target

/-- The relationships of a frame; both of its chains are looked up, that of the callers first. -/
def relationship (s : Session) (frame : FrameId) : Relationship × Session :=
  let (callerChain, s) := s.chain frame .callers
  let (calleeChain, s) := s.chain frame .callees
  let graph := s.facts.callGraph
  ({ frame := frame
     directCaller := graph.directCaller? frame
     directCallees := graph.callees frame
     callerChain := callerChain
     calleeChain := calleeChain }, s)

end Session

end FrameLog
