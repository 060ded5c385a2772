import FrameLog.Invocation

/-!
# The program

Connects a dialogue to the terminal.
-/

namespace FrameLog.Terminal

/-- The bytes up to the next newline, or nothing at the end of the input. -/
partial def readLine (input : IO.FS.Stream) (bytes : ByteArray) : IO (Option ByteArray) := do
  let chunk ← input.read 1
  if chunk.isEmpty then return if bytes.isEmpty then none else some bytes
  else if chunk.toList == [10] then return some bytes
  else readLine input (bytes ++ chunk)

/-- Holds the dialogue with the terminal. -/
partial def hold (console : Console) : IO UInt32 := do
  let out ← IO.getStdout
  out.putStr Console.prompt
  out.flush
  match ← readLine (← IO.getStdin) .empty with
  | none => return 0
  | some bytes => match Text.decodeLine bytes.toList with
    | none => return 1
    | some line => match console.respond line with
      | none => return 0
      | some (text, console) =>
        out.putStr text
        hold console

/-- The beginning of a stream whose whole key is random. -/
def entropy : IO Keystream := do
  let words ← (List.range 8).mapM fun _ => IO.rand 0 (Nat.pow 2 32 - 1)
  return ⟨Vector.ofFn fun i => UInt32.ofNat (words.getD i 0), 0, []⟩

end FrameLog.Terminal

open FrameLog in
/-- Runs the program. -/
def main (args : List String) : IO UInt32 := do
  let entropy ← Terminal.entropy
  match (Invocation.ofArguments args).start entropy with
  | .done outcome =>
    IO.print outcome.output
    return UInt32.ofNat outcome.exit
  | .dialogue text console =>
    IO.print text
    Terminal.hold console
