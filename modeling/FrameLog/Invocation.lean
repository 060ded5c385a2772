import FrameLog.Console
import FrameLog.Trace
import FrameLog.Trace.Keystream

/-!
# Invocation

The arguments of the program and what a run with them writes.
-/

namespace FrameLog

/-! ## Options -/

/-- The options given so far; one that is missing has not been given. -/
structure Options where
  scenario : Option Scenario := none
  seed : Option UInt64 := none
  frames : Option UInt64 := none
  query : Option String := none
  noColor : Bool := false

/-- What the arguments ask for. -/
inductive Invocation where
  | run (options : Options)
  | version
  | help
  /-- The arguments are not understood. -/
  | misuse

/-- The options that take a value. -/
inductive OptionKey where
  | scenario
  | seed
  | frames
  | query
deriving DecidableEq

/-- Gives a value to an option that has none yet. -/
def Options.set? (o : Options) (key : OptionKey) (value : List Char) : Option Options :=
  match key with
  | .scenario => do
    let scenario ← Named.find? (String.ofList value)
    if o.scenario.isNone then some { o with scenario := some scenario } else none
  | .seed => do
    let seed ← readWord? value
    if o.seed.isNone then some { o with seed := some seed } else none
  | .frames => do
    let frames ← readWord? value
    if o.frames.isNone then some { o with frames := some frames } else none
  | .query =>
    if o.query.isNone then some { o with query := some (String.ofList value) } else none

/-- What an argument is before its value is looked for. -/
inductive Argument where
  /-- An option, with the value attached to it. -/
  | option (key : OptionKey) (attached : Option (List Char))
  | noColor
  | version
  | help
  /-- `--`, after which nothing is an option. -/
  | endOfOptions
  | unknown

namespace Argument

/-- A long option, with the value after an equals sign. Flags take no value. -/
def ofLong (text : List Char) : Argument :=
  let (name, rest) := text.span (· != '=')
  let attached := rest.tail?
  match String.ofList name, attached with
  | "scenario", _ => option .scenario attached
  | "seed", _ => option .seed attached
  | "frames", _ => option .frames attached
  | "query", _ => option .query attached
  | "no-color", none => noColor
  | "version", none => version
  | "help", none => help
  | _, _ => unknown

/-- The value behind a short option; one equals sign before it is dropped. -/
def attachedValue : List Char → Option (List Char)
  | [] => none
  | '=' :: rest => some rest
  | rest => some rest

/-- A short option, with the value behind it. -/
def ofShort (letter : Char) (rest : List Char) : Argument :=
  if letter = 's' then option .scenario (attachedValue rest)
  else if letter = 'f' then option .frames (attachedValue rest)
  else if letter = 'q' then option .query (attachedValue rest)
  else if letter = 'V' then version
  else if letter = 'h' then help
  else unknown

/-- The kind of an argument. -/
def ofText : List Char → Argument
  | ['-', '-'] => endOfOptions
  | '-' :: '-' :: text => ofLong text
  | '-' :: letter :: rest => ofShort letter rest
  | _ => unknown

end Argument

/-- The text can be a value that stands by itself: it does not look like an option. -/
def isValue : List Char → Bool
  | ['-'] => true
  | '-' :: _ => false
  | _ => true

/-- Reads arguments from left to right; the first that settles the matter does so. -/
def Options.read (o : Options) : List String → Invocation
  | [] => .run o
  | arg :: rest => match Argument.ofText arg.toList with
    | .version => .version
    | .help => .help
    | .noColor => if o.noColor then .misuse else Options.read { o with noColor := true } rest
    | .endOfOptions => if rest.isEmpty then .run o else .misuse
    | .unknown => .misuse
    | .option key (some value) => match o.set? key value with
      | some o => Options.read o rest
      | none => .misuse
    | .option key none => match rest with
      | [] => .misuse
      | value :: rest =>
        if isValue value.toList then
          match o.set? key value.toList with
          | some o => Options.read o rest
          | none => .misuse
        else .misuse

/-! ## Running -/

namespace Options

/-- The scenario to plant, a null pointer unless another is asked for. -/
def chosenScenario (o : Options) : Scenario := o.scenario.getD .nullPointer

/-- The trace of the options. Without a seed it is drawn from the given supply of random numbers. -/
def trace {σ : Type} [SeededSource σ] (o : Options) (entropy : σ) : List Frame :=
  let size := (o.frames.getD 10).toNat
  ((Generator.generate size).run (.ofSeed o.chosenScenario o.seed entropy)).1

/-- The console of a trace. -/
def console? (o : Options) (frames : List Frame) : Except Fault Console := do
  let facts ← FactBase.ofFrames frames
  return ⟨{ facts := facts, settings := { color := !o.noColor } }, frames⟩

end Options

namespace Invocation

/-- The name and the version of the program. -/
def versionText : String := "trace-query 0.1.0\n"

/-- How the program is used. -/
def helpText : String :=
  "\n".intercalate
    ["Query a simulated execution trace with Prolog-style goals",
     "",
     "Usage: trace-query [OPTIONS]",
     "",
     "Options:",
     "  -s, --scenario <SCENARIO>  Failure scenario injected into the trace [default: null_pointer]",
     "      --seed <SEED>          Seed for deterministic generation",
     "  -f, --frames <FRAMES>      Number of frames to generate [default: 10]",
     "  -q, --query <QUERY>        Run a single query and exit",
     "      --no-color             Disable ANSI colour in discovery banners",
     "  -h, --help                 Print help",
     "  -V, --version              Print version",
     ""]

/-- What happens before any input is read: the program is done, or a dialogue opens with a text. -/
inductive Opening where
  | done (outcome : Outcome)
  | dialogue (text : String) (console : Console)

/-- Answers a single query, or opens a dialogue with a summary of the trace. -/
def start {σ : Type} [SeededSource σ] (i : Invocation) (entropy : σ) : Opening :=
  match i with
  | version => .done ⟨versionText, 0⟩
  | help => .done ⟨helpText, 0⟩
  | misuse => .done ⟨"", 2⟩
  | run options =>
    match options.console? (options.trace entropy) with
    | .error _ => .done ⟨"", 1⟩
    | .ok console => match options.query with
      | some query => .done ⟨(console.session.run query).output ++ "\n", 0⟩
      | none => .dialogue (console.summary options.chosenScenario.name ++ "\n\n") console

/-- A whole run of the program on the given input. -/
def outcomeFrom {σ : Type} [SeededSource σ] (i : Invocation) (entropy : σ) (input : List UInt8) :
    Outcome :=
  match i.start entropy with
  | .done outcome => outcome
  | .dialogue text console =>
    let outcome := console.converse (Text.inputLines input)
    ⟨text ++ outcome.output, outcome.exit⟩

/-- A run that can be repeated: where no seed is given, this one is taken. -/
def outcome (i : Invocation) (seed : UInt64) (input : List UInt8) : Outcome :=
  i.outcomeFrom (Keystream.ofSeed seed) input

end Invocation

/-- Reads the arguments of the program. -/
def Invocation.ofArguments (args : List String) : Invocation := Options.read {} args

end FrameLog
