import FrameLog.CallGraph
import FrameLog.Discovery
import FrameLog.Json.Reader
import FrameLog.Trace.Scenario

/-!
# JSON forms

How the data of the library is written in JSON and read back. A record is an object with its fields,
and may be read from an array of just their values; a variant is an object with the name of the
variant over its content, or the bare name if there is none.
-/

namespace FrameLog.Json

/-- A type with a form in JSON. -/
class Form (α : Type) where
  toJson : α → Json
  ofJson? : Json → Option α

export Form (toJson ofJson?)

/-! ## Numbers, texts and lists -/

instance : Form Bool where
  toJson := bool
  ofJson?
    | bool b => some b
    | _ => none

instance : Form UInt64 where
  toJson n := nat n.toNat
  ofJson?
    | number n => n.toUInt64?
    | _ => none

instance : Form Int64 where
  toJson n := number (Number.ofInt n.toInt)
  ofJson?
    | number n => n.toInt64?
    | _ => none

/-- Numbers that JSON cannot write are null. -/
instance : Form Binary64 where
  toJson x := if x.isFinite then number (Number.ofBinary64 x) else null
  ofJson?
    | number n => n.toBinary64?
    | _ => none

instance : Form String where
  toJson := str
  ofJson?
    | string s => s
    | _ => none

variable {α β : Type} [Form α] [Form β]

instance : Form (Option α) where
  toJson
    | some a => toJson a
    | none => null
  ofJson?
    | null => some none
    | j => (ofJson? j).map some

instance : Form (List α) where
  toJson as := array (as.map toJson)
  ofJson?
    | array js => js.mapM ofJson?
    | _ => none

/-- A pair is an array of two. -/
instance : Form (α × β) where
  toJson p := array [toJson p.1, toJson p.2]
  ofJson?
    | array [a, b] => do return (← ofJson? a, ← ofJson? b)
    | _ => none

/-! ## Records -/

/-- The values of the named fields. An object has each at most once, and others may stand beside
them; an array has these and no others. -/
def fields? (names : List String) : Json → Option (List (Option Json))
  | array items => if items.length = names.length then some (items.map some) else none
  | object members =>
    if members.all (·.1.isSome) then
      names.mapM fun name =>
        if members.countP (·.1 == some name) ≤ 1 then some ((object members).member? name) else none
    else none
  | _ => none

/-- A field that has to be there. -/
def required? (field : Option Json) : Option α := field.bind ofJson?

/-- A field that is missing when it has no value. -/
def optional? (field : Option Json) : Option (Option α) :=
  match field with
  | some j => ofJson? j
  | none => some none

/-! ## Variants -/

/-- The name of a variant, with its content. -/
def variant? : Json → Option (String × Option Json)
  | string (some name) => some (name, none)
  | object [(some name, content)] => some (name, some content)
  | _ => none

/-- A variant with content. -/
def variant (name : String) (content : Json) : Json := obj [(name, content)]

/-- The content of a variant that has none, which may be written as null. -/
def isVoid : Option Json → Bool
  | none => true
  | some null => true
  | _ => false

/-- A named thing is written by its name. -/
def named? {α : Type} [Named α] (j : Json) : Option α := do
  let (name, content) ← variant? j
  if isVoid content then Named.find? name else none

instance : Form Predicate := ⟨fun p => str p.name, named?⟩

instance : Form Status := ⟨fun s => str s.name, named?⟩

instance : Form Direction := ⟨fun d => str d.name, named?⟩

instance : Form Discovery := ⟨fun d => str d.name, named?⟩

instance : Form Scenario := ⟨fun s => str s.name, named?⟩

/-! ## Queries -/

instance : Form Value where
  toJson
    | .int n => variant "Int" (toJson n)
    | .float x => variant "Float" (toJson x)
    | .atom s => variant "Atom" (toJson s)
    | .null => str "Null"
  ofJson? j := do
    let (name, content) ← variant? j
    match name with
    | "Int" => return .int (← required? content)
    | "Float" => return .float (← required? content)
    | "Atom" => return .atom (← required? content)
    | "Null" => if isVoid content then some .null else none
    | _ => none

instance : Form Term where
  toJson
    | .const value => variant "Constant" (toJson value)
    | .var name => variant "Variable" (toJson name)
    | .anonymous => str "Anonymous"
  ofJson? j := do
    let (name, content) ← variant? j
    match name with
    | "Constant" => return .const (← required? content)
    | "Variable" => return .var (← required? content)
    | "Anonymous" => if isVoid content then some .anonymous else none
    | _ => none

instance : Form Goal where
  toJson g := obj [("predicate", toJson g.predicate), ("args", toJson g.args)]
  ofJson? j := do
    match ← fields? ["predicate", "args"] j with
    | [predicate, args] => return ⟨← required? predicate, ← required? args⟩
    | _ => none

instance : Form Condition where
  toJson c := obj [("goal", toJson c.goal), ("negated", toJson c.negated)]
  ofJson? j := do
    match ← fields? ["goal", "negated"] j with
    | [goal, negated] => return ⟨← required? goal, ← required? negated⟩
    | _ => none

/-- Any list of conditions is read, even a short one. -/
instance : Form Conjunction where
  toJson c := obj [("conditions", toJson c.conditions)]
  ofJson? j := do
    match ← fields? ["conditions"] j with
    | [conditions] => return ⟨← required? conditions⟩
    | _ => none

instance : Form Question where
  toJson
    | .simple goal => variant "Simple" (toJson goal)
    | .negated goal => variant "Negated" (toJson goal)
    | .compound conjunction => variant "Compound" (toJson conjunction)
  ofJson? j := do
    let (name, content) ← variant? j
    match name with
    | "Simple" => return .simple (← required? content)
    | "Negated" => return .negated (← required? content)
    | "Compound" => return .compound (← required? content)
    | _ => none

instance : Form Query where
  toJson q := obj [("source", toJson q.source), ("kind", toJson q.question)]
  ofJson? j := do
    match ← fields? ["source", "kind"] j with
    | [source, question] => return ⟨← required? source, ← required? question⟩
    | _ => none

/-! ## Traces -/

instance : Form Fact where
  toJson f := obj [("predicate", toJson f.predicate), ("values", toJson f.values)]
  ofJson? j := do
    match ← fields? ["predicate", "values"] j with
    | [predicate, values] => return ⟨← required? predicate, ← required? values⟩
    | _ => none

instance : Form Frame where
  toJson f := obj
    [("id", toJson f.id), ("name", toJson f.function), ("caller", toJson f.caller),
     ("timestamp", toJson f.timestamp), ("allocated", toJson f.allocated),
     ("status", toJson f.status), ("parameters", toJson f.parameters)]
  ofJson? j := do
    match ← fields? ["id", "name", "caller", "timestamp", "allocated", "status", "parameters"] j with
    | [id, function, caller, timestamp, allocated, status, parameters] =>
      return ⟨← required? id, ← required? function, ← optional? caller, ← required? timestamp,
        ← required? allocated, ← required? status, ← required? parameters⟩
    | _ => none

instance : Form Relationship where
  toJson r := obj
    [("frame", toJson r.frame), ("direct_caller", toJson r.directCaller),
     ("direct_callees", toJson r.directCallees), ("caller_chain", toJson r.callerChain),
     ("callee_chain", toJson r.calleeChain)]
  ofJson? j := do
    match ← fields?
      ["frame", "direct_caller", "direct_callees", "caller_chain", "callee_chain"] j with
    | [frame, directCaller, directCallees, callerChain, calleeChain] =>
      return ⟨← required? frame, ← optional? directCaller, ← required? directCallees,
        ← required? callerChain, ← required? calleeChain⟩
    | _ => none

/-! ## Texts -/

/-- Reads a JSON text. -/
def decode? (α : Type) [Form α] (text : String) : Option α := (read? text).bind ofJson?

/-- Writes a JSON text. -/
def encode (a : α) : String := (toJson a).text

end FrameLog.Json
