import FrameLog.Trace.Random
import FrameLog.Trace.Scenario

/-!
# Traces

A trace is made of ordinary frames at random, the frames of one failure in their midst, and ordinary
frames again. A generator makes it frame by frame: it counts the identifiers, moves a clock, and lets
every frame but the first be called by the one before it.
-/

namespace FrameLog

/-- The functions that run in ordinary frames. -/
def systemFunctions : Vector String 16 :=
  #v["init_system", "load_config", "start_ai_core", "process_request", "allocate_buffer",
     "parse_input", "validate_data", "execute_query", "format_response", "cleanup_resources",
     "log_event", "check_permissions", "acquire_lock", "release_lock", "read_file", "write_file"]

/-! ## Ordinary frames -/

namespace Draft

variable {σ : Type} [RandomSource σ]

/-- A random value of a parameter: a small integer, an atom, or null. -/
def randomValue : StateM σ Value := do
  let kind ← RandomSource.draw .word32 0 2
  match kind.val with
  | 0 =>
    let n ← RandomSource.draw .word64 0 1000
    return .int (Int64.ofNat n.val)
  | 1 =>
    let n ← RandomSource.draw .word32 1 100
    return .atom ("data_" ++ toString n.val)
  | _ => return .null

/-- Random parameters with the numbers from `first` on in their names. -/
def randomParameters (first : Nat) : Nat → StateM σ (List (String × Value))
  | 0 => return []
  | count + 1 => do
    let value ← randomValue
    let rest ← randomParameters (first + 1) count
    return ("arg" ++ toString first, value) :: rest

/-- A random ordinary frame. -/
def ordinary : StateM σ Draft := do
  let index ← RandomSource.draw .word32 0 15
  let allocated ← RandomSource.draw .word64 1024 8192
  let active ← RandomSource.toss
  let advance ← RandomSource.draw .word64 10 100
  let count ← RandomSource.draw .word32 0 3
  let parameters ← randomParameters 0 count.val
  return {
    function := systemFunctions.get ⟨index.val, Nat.lt_succ_of_le index.property.2⟩
    allocated := UInt64.ofNat allocated.val
    status := if active then .active else .completed
    advance := UInt64.ofNat advance.val
    parameters := parameters }

end Draft

/-! ## Generators -/

/-- Makes one trace after another. Each trace is begun anew, and the supply of random numbers goes
on. -/
structure Generator (σ : Type) where
  scenario : Scenario
  supply : σ
  /-- The frames of the trace that is being made. -/
  frames : Array Frame
  /-- The identifier of the next frame. -/
  nextId : FrameId
  /-- The time at which the next frame begins. -/
  clock : UInt64

/-- The time at which every trace begins. -/
def firstTimestamp : UInt64 := 1000

namespace Generator

variable {σ : Type}

/-- A generator that draws from the supply and has no frames. -/
def ofSupply (scenario : Scenario) (supply : σ) : Generator σ :=
  { scenario := scenario, supply := supply, frames := #[], nextId := 1, clock := firstTimestamp }

/-- A generator that draws from what the seed stands for; without a seed it draws from the given
supply. -/
def ofSeed [SeededSource σ] (scenario : Scenario) (seed : Option UInt64) (entropy : σ) :
    Generator σ :=
  match seed with
  | some seed => ofSupply scenario (SeededSource.ofSeed seed)
  | none => ofSupply scenario entropy

/-- Drops the frames and begins anew; the supply stays where it is. -/
def reset (g : Generator σ) : Generator σ :=
  { g with frames := #[], nextId := 1, clock := firstTimestamp }

/-- Adds a frame that is called by the last one, and moves the clock. -/
def push (g : Generator σ) (d : Draft) : Generator σ :=
  { g with
    frames := g.frames.push
      { id := g.nextId, function := d.function, caller := g.frames.back?.map (·.id)
        timestamp := g.clock, allocated := d.allocated, status := d.status
        parameters := d.parameters }
    nextId := g.nextId + 1
    clock := g.clock + d.advance }

variable [RandomSource σ]

/-- Adds a random ordinary frame. -/
def addOrdinary (g : Generator σ) : Generator σ :=
  let (draft, supply) := Draft.ordinary.run g.supply
  push { g with supply := supply } draft

/-- Adds a number of random ordinary frames. -/
def addOrdinaries : Nat → Generator σ → Generator σ
  | 0, g => g
  | count + 1, g => addOrdinaries count g.addOrdinary

/-- Adds the frames that show the failure of the scenario. -/
def addAnomaly (g : Generator σ) : Generator σ := g.scenario.anomaly.foldl push g

/-- Makes a trace of `size` frames with the failure after the first half of them, and hands it out. A
failure that takes more frames than are left makes the trace longer. -/
def generate (size : Nat) : StateM (Generator σ) (List Frame) := fun g =>
  let g := (g.reset.addOrdinaries (size / 2)).addAnomaly
  let g := g.addOrdinaries (size - g.frames.size)
  (g.frames.toList, { g with frames := #[] })

end Generator

/-- The first trace of a generator that draws from the supply. -/
def Scenario.trace {σ : Type} [RandomSource σ] (scenario : Scenario) (size : Nat) :
    StateM σ (List Frame) := fun supply =>
  let (frames, g) := (Generator.generate size).run (.ofSupply scenario supply)
  (frames, g.supply)

end FrameLog
