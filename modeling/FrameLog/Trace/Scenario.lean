import FrameLog.Frame

/-!
# Failure scenarios

The failures that can be planted in a trace, and the frames that show each of them.
-/

namespace FrameLog

/-- A failure that a trace can hold. -/
inductive Scenario where
  /-- Buffers that are allocated and never released. -/
  | memoryLeak
  /-- A recursion beyond its limit. -/
  | stackOverflow
  /-- A request without its data. -/
  | nullPointer
  /-- Two frames that wait for each other's lock. -/
  | deadlock
  /-- Several very large allocations. -/
  | resourceExhaustion
deriving DecidableEq

namespace Scenario

def name : Scenario → String
  | memoryLeak => "memory_leak"
  | stackOverflow => "stack_overflow"
  | nullPointer => "null_pointer"
  | deadlock => "deadlock"
  | resourceExhaustion => "resource_exhaustion"

instance : Named Scenario where
  all := [memoryLeak, stackOverflow, nullPointer, deadlock, resourceExhaustion]
  name := name
  mem_all s := by cases s <;> decide
  name_inj s t h := by cases s <;> cases t <;> first | rfl | exact absurd h (by decide)

/-- The scenario with the given name. -/
def ofName (s : String) : Except Fault Scenario :=
  match Named.find? s with
  | some scenario => return scenario
  | none => throw (.unknownScenario s)

end Scenario

/-- A frame before it has a place in a trace. -/
structure Draft where
  function : String
  allocated : UInt64
  status : Status
  /-- The time until the next frame. -/
  advance : UInt64
  parameters : List (String × Value)
deriving DecidableEq

/-- 2 ^ 20 bytes. -/
def mebibyte : UInt64 := 1048576

/-- The frames that show the failure. -/
def Scenario.anomaly : Scenario → List Draft
  | memoryLeak => (List.range 3).map fun i =>
    { function := "allocate_buffer", allocated := mebibyte, status := .active, advance := 50
      parameters := [("buffer_size", .ofUInt64 mebibyte), ("buffer_id", .int (Int64.ofNat i))] }
  | stackOverflow => (List.range 15).map fun depth =>
    { function := "recursive_process", allocated := 4096, status := .active, advance := 5
      parameters := [("depth", .int (Int64.ofNat depth)), ("max_depth", .int 10)] }
  | nullPointer =>
    [{ function := "process_request", allocated := 2048, status := .error, advance := 20
       parameters := [("request_data", .null), ("handler", .null)] }]
  | deadlock => [("lock_a", "lock_b"), ("lock_b", "lock_a")].map fun (held, wanted) =>
    { function := "acquire_lock", allocated := 1024, status := .active, advance := 10
      parameters := [("lock_id", .atom held), ("waiting_for", .atom wanted)] }
  | resourceExhaustion => (List.range 5).map fun i =>
    { function := "load_dataset", allocated := 10 * mebibyte, status := .active, advance := 100
      parameters := [("dataset_id", .int (Int64.ofNat i)), ("size", .atom "large")] }

end FrameLog
