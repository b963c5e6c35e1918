import Calculator.CommandLine.Program

/-!
# The Executable

The calculator connected to its arguments and its streams. Each line is answered when
it has been read, so that a conversation can be held at a terminal; what is answered
is decided by `LineReader.gather` and `respond` alone. Backspaces erase characters.

## Main definitions

* `listen`: Read lines and answer them until the conversation ends.
* `main`: Answer the command line.
-/

namespace Calculator

/-- Print an output on the two streams. -/
def Output.print (output : Output) : IO Unit := do
  let stdout ← IO.getStdout
  stdout.putStr output.stdout
  stdout.flush
  (← IO.getStderr).putStr output.stderr

/-- Read lines and answer them until one asks to leave or the input ends. -/
partial def listen (input : IO.FS.Stream) (session : Session) (gathered : List Char) :
    IO Unit := do
  let physical ← input.getLine
  if physical.isEmpty then
    Output.print { stdout := farewell, stderr := "" }
  else
    match LineReader.byCharacter.gather gathered physical.toList with
    | .continued text => listen input session text
    | .complete line =>
        match respond session (String.ofList line) with
        | none => pure ()
        | some (session', output) =>
            output.print
            listen input session' []

end Calculator

/-- Answer the command line, and read a conversation from the standard input if it has no
    expression. -/
def main (args : List String) : IO UInt32 := do
  match Calculator.readOptions args with
  | .converse =>
      Calculator.Output.print { stdout := Calculator.banner, stderr := "" }
      Calculator.listen (← IO.getStdin) .new []
      return 0
  | request =>
      let completion := Calculator.LineReader.byCharacter.answerRequest "" request
      completion.output.print
      return completion.exitCode.toUInt32
