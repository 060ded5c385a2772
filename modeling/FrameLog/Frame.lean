import FrameLog.Error
import FrameLog.Value

/-!
# Facts and stack frames

A fact is a row of values under a predicate. A frame of the recorded call stack is described by
facts.
-/

namespace FrameLog

/-! ## Facts -/

/-- A row of values under a predicate. -/
structure Fact where
  predicate : Predicate
  values : List Value
deriving DecidableEq

namespace Fact

/-- The row has as many values as its predicate takes. -/
def WellFormed (f : Fact) : Prop := f.values.length = f.predicate.arity

instance (f : Fact) : Decidable f.WellFormed := inferInstanceAs (Decidable (_ = _))

def text (f : Fact) : String :=
  f.predicate.name ++ "(" ++ ", ".intercalate (f.values.map Value.text) ++ ")."

end Fact

/-! ## Frames -/

/-- Identifies a frame; zero identifies none. -/
abbrev FrameId := UInt64

/-- How far a frame has come. -/
inductive Status where
  /-- Still on the stack. -/
  | active
  /-- Returned. -/
  | completed
  /-- Failed. -/
  | error
deriving DecidableEq

namespace Status

def name : Status → String
  | active => "active"
  | completed => "completed"
  | error => "error"

instance : Named Status where
  all := [active, completed, error]
  name := name
  mem_all s := by cases s <;> decide
  name_inj s t h := by cases s <;> cases t <;> first | rfl | exact absurd h (by decide)

/-- The status with the given name. -/
def ofName (s : String) : Except Fault Status :=
  match Named.find? s with
  | some status => return status
  | none => throw (.unknownStatus s)

end Status

/-- A frame of the call stack. -/
structure Frame where
  id : FrameId
  /-- The function that runs in the frame. -/
  function : String
  /-- The frame that called this one. -/
  caller : Option FrameId
  timestamp : UInt64
  /-- The bytes that the frame has allocated. -/
  allocated : UInt64
  status : Status
  /-- Named parameters, in order of declaration. -/
  parameters : List (String × Value)
deriving DecidableEq

namespace Frame

/-- The value of the first parameter with the given name. -/
def parameter? (f : Frame) (name : String) : Option Value :=
  (f.parameters.find? (·.1 == name)).map (·.2)

/-- The facts that describe the frame. -/
def facts (f : Frame) : List Fact :=
  let id := Value.ofUInt64 f.id
  let status := Value.atom f.status.name
  [⟨.frame, [id, .atom f.function, .ofUInt64 f.timestamp, status]⟩] ++
  (f.caller.toList.map fun caller => ⟨.calls, [.ofUInt64 caller, id]⟩) ++
  [⟨.allocated, [id, .ofUInt64 f.allocated]⟩] ++
  (f.parameters.map fun (name, value) => ⟨.param, [id, .atom name, value]⟩) ++
  [⟨.status, [id, status]⟩]

theorem wellFormed_facts (f : Frame) : ∀ fact ∈ f.facts, fact.WellFormed := by
  intro fact h
  simp only [facts, List.mem_append, List.mem_singleton, List.mem_map, or_assoc] at h
  rcases h with rfl | ⟨_, _, rfl⟩ | rfl | ⟨_, _, rfl⟩ | rfl <;> rfl

/-- The written facts of the frame, with every number as it was recorded. -/
def factTexts (f : Frame) : List String :=
  let id := toString f.id.toNat
  ["frame(" ++ id ++ ", " ++ f.function ++ ", " ++ toString f.timestamp.toNat ++ ", " ++
    f.status.name ++ ")."] ++
  (f.caller.toList.map fun caller => "calls(" ++ toString caller.toNat ++ ", " ++ id ++ ").") ++
  ["allocated(" ++ id ++ ", " ++ toString f.allocated.toNat ++ ")."] ++
  (f.parameters.map fun (name, value) =>
    "param(" ++ id ++ ", " ++ name ++ ", " ++ value.text ++ ").") ++
  ["status(" ++ id ++ ", " ++ f.status.name ++ ")."]

end Frame

end FrameLog
