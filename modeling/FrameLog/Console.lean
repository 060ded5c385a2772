import FrameLog.Session
import FrameLog.Text

/-!
# The console

The dialogue of a session: each line of input is a query or a command, and each gets one reply.
-/

namespace FrameLog

open Text

/-! ## Commands -/

/-- What can be asked of the console besides queries. -/
inductive Command where
  | chain (frame : FrameId) (direction : Direction)
  | path (source target : FrameId)
  | info (frame : FrameId)
  | facts
  | help
deriving DecidableEq

/-- A cause for which a line is no command. -/
inductive CommandError where
  | missingFrame
  | notAFrame (word : String)
  | direction (fault : Fault)
  | unknown (word : String)
deriving DecidableEq

/-- What is wrong. -/
def CommandError.message : CommandError → String
  | missingFrame => "missing frame id"
  | notAFrame word => "'" ++ word ++ "' is not a frame id"
  | direction fault => fault.message
  | unknown word => "unknown command '" ++ word ++ "' (try :help)"

/-- The unsigned 64-bit word that a numeral stands for; a plus sign may stand before it. -/
def readWord? (cs : List Char) : Option UInt64 :=
  let ds := match cs with
    | '+' :: ds => ds
    | ds => ds
  if !ds.isEmpty ∧ ds.all Char.isDigit ∧ Decimal.ofDigits ds < Nat.pow 2 64 then
    some (UInt64.ofNat (Decimal.ofDigits ds))
  else none

namespace Command

/-- Reads a frame identifier. -/
def readFrame : Option (List Char) → Except CommandError FrameId
  | none => throw .missingFrame
  | some word => match readWord? word with
    | some id => return id
    | none => throw (.notAFrame (String.ofList word))

/-- Reads a command from its words. Words that are left over do not matter. -/
def read (name : List Char) (args : List (List Char)) : Except CommandError Command :=
  match String.ofList name with
  | ":chain" => do
    let frame ← readFrame args[0]?
    match args[1]? with
    | none => return .chain frame .callees
    | some word => match Direction.ofName (String.ofList word) with
      | .ok d => return .chain frame d
      | .error fault => throw (.direction fault)
  | ":path" => do
    let source ← readFrame args[0]?
    let target ← readFrame args[1]?
    return .path source target
  | ":info" => do return .info (← readFrame args[0]?)
  | ":facts" => return .facts
  | ":help" => return .help
  | word => throw (.unknown word)

/-- What the console understands. -/
def helpText : String :=
  "\n".intercalate
    ["Queries:",
     "  ?- status(X, error).                 simple query",
     "  ?- \\+ status(3, error).              negation",
     "  ?- calls(A, B), status(B, error).    conjunction",
     "Commands:",
     "  :chain <id> <callees|callers>        transitive call chain",
     "  :path <from> <to>                    shortest call path",
     "  :info <id>                           relationship information",
     "  :facts                               print every fact",
     "  :help                                this text",
     "  :quit                                exit"]

end Command

/-! ## The dialogue -/

/-- A session with the frames that its facts describe. -/
structure Console where
  session : Session
  frames : List Frame

/-- What a program run leaves behind: the text it has written, and its exit code. -/
structure Outcome where
  output : String
  exit : Nat
deriving DecidableEq

namespace Console

/-- Carries out a command. -/
def perform (c : Console) : Command → String × Console
  | .chain frame d =>
    let (chain, session) := c.session.chain frame d
    let text :=
      if chain.isEmpty then "Frame " ++ FrameId.text frame ++ " has no " ++ d.name ++ "."
      else d.name ++ " of frame " ++ FrameId.text frame ++ ": " ++ FrameId.join ", " chain
    (text, { c with session := session })
  | .path source target =>
    let text := match c.session.path? source target with
      | some path => "Call path: " ++ FrameId.join " -> " path
      | none =>
        "No call path from frame " ++ FrameId.text source ++ " to frame " ++
          FrameId.text target ++ "."
    (text, c)
  | .info frame =>
    let (relationship, session) := c.session.relationship frame
    (relationship.text, { c with session := session })
  | .facts => ("\n".intercalate (c.frames.flatMap Frame.factTexts), c)
  | .help => (Command.helpText, c)

/-- The reply to a line that is not blank: a line that begins with a colon is a command. -/
def reply (c : Console) (line : List Char) : String × Console :=
  if line.head? = some ':' then
    match words line with
    | [] => ("", c)
    | name :: args => match Command.read name args with
      | .ok command => c.perform command
      | .error cause => ("Error: " ++ cause.message, c)
  else ((c.session.run (String.ofList line)).output, c)

/-- The line ends the dialogue. -/
def isFarewell (line : List Char) : Bool :=
  line == ":quit".toList || line == ":q".toList

/-- What is written before each line is read. -/
def prompt : String := "| "

/-- What is written after a line, and the console afterwards; nothing when the line ends the
dialogue. -/
def respond (c : Console) (line : String) : Option (String × Console) :=
  let line := trim line.toList
  if isFarewell line then none
  else if line.isEmpty then some ("", c)
  else
    let (text, c) := c.reply line
    some (text ++ "\n\n", c)

/-- The dialogue over the lines of the input. It ends with them or with a farewell, and it breaks
off at a line that is no text. -/
def converse (c : Console) : List (Option String) → Outcome
  | [] => ⟨prompt, 0⟩
  | none :: _ => ⟨prompt, 1⟩
  | some line :: rest => match c.respond line with
    | none => ⟨prompt, 0⟩
    | some (text, c) =>
      let outcome := c.converse rest
      ⟨prompt ++ text ++ outcome.output, outcome.exit⟩

/-! ## Opening -/

/-- The number of frames that the summary shows. -/
def previewed : Nat := 5

/-- The description of the trace with which a dialogue opens. -/
def summary (c : Console) (scenario : String) : String :=
  let preview := (c.frames.take previewed).map fun f =>
    "  Frame " ++ FrameId.text f.id ++ ": " ++ f.function ++ " [" ++ f.status.name ++ "] - " ++
      toString f.allocated.toNat ++ " bytes"
  let more :=
    if previewed < c.frames.length then
      ["  ... and " ++ toString (c.frames.length - previewed) ++ " more frames"]
    else []
  let counts := c.session.facts.summary.map fun (p, n) =>
    p.name ++ "/" ++ toString p.arity ++ ": " ++ toString n
  "\n".intercalate
    (["STACK TRACE SUMMARY",
      String.ofList (List.replicate 50 '='),
      "Total frames: " ++ toString c.frames.length,
      "Scenario type: " ++ scenario,
      "",
      "Frame overview:"] ++ preview ++ more ++
     ["",
      "Facts: " ++ ", ".intercalate counts,
      "Use queries to investigate the details. Type :help for commands."])

end Console

end FrameLog
