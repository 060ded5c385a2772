import FrameLog.FactBase
import FrameLog.Search

/-!
# The call graph

Who called whom, as the `calls` facts have it. A chain is everything within reach of a frame, nearest
first; a path is a shortest way from a caller to a frame that it called, directly or not. The
relationships of one frame are shown together.
-/

namespace FrameLog

/-! ## Directions -/

/-- The direction in which calls are followed. -/
inductive Direction where
  /-- From a frame to those that it called. -/
  | callees
  /-- From a frame to those that called it. -/
  | callers
deriving DecidableEq

namespace Direction

def name : Direction → String
  | callees => "callees"
  | callers => "callers"

instance : Named Direction where
  all := [callees, callers]
  name := name
  mem_all d := by cases d <;> decide
  name_inj d e h := by cases d <;> cases e <;> first | rfl | exact absurd h (by decide)

/-- The direction with the given name. -/
def ofName (s : String) : Except Fault Direction :=
  match Named.find? s with
  | some direction => return direction
  | none => throw (.unknownDirection s)

end Direction

/-! ## Graphs -/

/-- The pairs of caller and callee, in the order of the facts. -/
structure CallGraph where
  edges : List (FrameId × FrameId)
deriving DecidableEq

namespace CallGraph

/-- The frames that a frame called, one for each call. -/
def callees (g : CallGraph) (f : FrameId) : List FrameId :=
  (g.edges.filter (·.1 == f)).map (·.2)

/-- The frames that called a frame, one for each call. -/
def callers (g : CallGraph) (f : FrameId) : List FrameId :=
  (g.edges.filter (·.2 == f)).map (·.1)

/-- The frames one call away. -/
def neighbours (g : CallGraph) : Direction → FrameId → List FrameId
  | .callees => g.callees
  | .callers => g.callers

/-- The ends of all calls, with repetitions. -/
def nodes (g : CallGraph) : List FrameId := g.edges.flatMap fun (caller, callee) => [caller, callee]

/-- The trails from a frame to all within its reach. -/
def trails (g : CallGraph) (d : Direction) (start : FrameId) : List (Trail FrameId) :=
  FrameLog.trails g.nodes (g.neighbours d) start

/-- Everything within reach of a frame but the frame itself, nearest first. -/
def chain (g : CallGraph) (start : FrameId) (d : Direction) : List FrameId :=
  (g.trails d start).tail.map (·.last)

/-- The pairs of a frame and the one that it was found from, as a search along calls notes them until
it finds its target. -/
def parentsTo? (g : CallGraph) (source target : FrameId) : Option (List (FrameId × FrameId)) :=
  FrameLog.parentsTo? g.nodes g.callees source target

/-- A shortest path along calls, both ends included. -/
def path? (g : CallGraph) (source target : FrameId) : Option (List FrameId) :=
  if source = target then some [source]
  else (g.parentsTo? source target).map fun parents => unwind parents source target []

/-- The first frame that called the frame. -/
def directCaller? (g : CallGraph) (f : FrameId) : Option FrameId := (g.callers f).head?

end CallGraph

/-! ## From facts -/

/-- A value that identifies a frame: an integer that is not negative. -/
def Value.toFrameId? : Value → Option FrameId
  | .int n => if 0 ≤ n.toInt then some (UInt64.ofNat n.toInt.toNat) else none
  | _ => none

/-- The caller and the callee that a row of values begins with. -/
def Fact.callEdge? (f : Fact) : Option (FrameId × FrameId) :=
  match f.values with
  | caller :: callee :: _ => do return (← caller.toFrameId?, ← callee.toFrameId?)
  | _ => none

/-- The graph of the `calls` facts; those that do not hold two frames are passed over. -/
def FactBase.callGraph (b : FactBase) : CallGraph := ⟨(b.facts .calls).filterMap Fact.callEdge?⟩

/-! ## Relationships of a frame -/

/-- The direct and the distant relations of a frame. -/
structure Relationship where
  frame : FrameId
  directCaller : Option FrameId
  directCallees : List FrameId
  /-- Callers, nearest first. -/
  callerChain : List FrameId
  /-- Callees, nearest first. -/
  calleeChain : List FrameId
deriving DecidableEq

/-- The written form of an identifier. -/
def FrameId.text (f : FrameId) : String := toString f.toNat

/-- Identifiers with a separator between them. -/
def FrameId.join (separator : String) (fs : List FrameId) : String :=
  separator.intercalate (fs.map FrameId.text)

namespace Relationship

/-- The description of the frame; the chain of callers is shown with the outermost first. -/
def text (r : Relationship) : String :=
  let frame := FrameId.text r.frame
  let caller := match r.directCaller with
    | some caller => "frame " ++ FrameId.text caller
    | none => "none (root frame)"
  let callees :=
    if r.directCallees.isEmpty then "none (leaf frame)"
    else ", ".intercalate (r.directCallees.map fun callee => "frame " ++ FrameId.text callee)
  let callerChain :=
    if r.callerChain.isEmpty then "(this is a root frame)"
    else FrameId.join " -> " r.callerChain.reverse ++ " -> " ++ frame
  let calleeChain :=
    if r.calleeChain.isEmpty then "(this is a leaf frame)"
    else frame ++ " -> " ++ FrameId.join " -> " r.calleeChain
  "\n".intercalate
    ["Relationship information for frame " ++ frame ++ ":",
     "",
     "  Direct caller: " ++ caller,
     "  Direct callees: " ++ callees,
     "",
     "  Complete caller chain: " ++ callerChain,
     "  Complete callee chain: " ++ calleeChain]

end Relationship

end FrameLog
