import Mixfix.CommandLine

/-!
# The program

Reads the arguments and, for a check without data, the input; writes the output of the command.
-/

set_option autoImplicit false

open Mixfix

/-- Reads a stream to its end. -/
partial def readAll (stream : IO.FS.Stream) (bytes : ByteArray) : IO ByteArray := do
  let chunk ← stream.read 65536
  if chunk.isEmpty then pure bytes else readAll stream (bytes ++ chunk)

/-- The output of a command over what the program is given. -/
def outputOf (command : CommandLine.Command) : IO CommandLine.Output := do
  let stdin ← IO.getStdin
  if command.readsInput && !(← stdin.isTty) then
    match String.fromUTF8? (← readAll stdin ByteArray.empty) with
    | some input => pure (command.withInput input).run
    | none => pure (CommandLine.failed (.io "stream did not contain valid UTF-8"))
  else pure command.run

/-- Runs the program. -/
def main (arguments : List String) : IO UInt32 := do
  let output ←
    match CommandLine.command? arguments with
    | some command => outputOf command
    | none => pure CommandLine.usage
  (← IO.getStdout).putStr output.out
  (← IO.getStderr).putStr output.err
  pure output.code
