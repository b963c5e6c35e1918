import Calculator.CommandLine.Help
import Calculator.Conversation

/-!
# The Program

What a call of the calculator prints, and how it ends.

With an expression, its words are joined by spaces and evaluated in a fresh session.
Without one, the input is read as a conversation. The debug output of an evaluation
comes before its result, and also before its failure.

## Main definitions

* `Completion`: The exit code and the output of a call.
* `evaluateOnce`: The answer to an expression.
* `LineReader.answerRequest`: The answer to a request.
* `LineReader.runProgram`: The answer to a command line and an input.
* `runProgram`: The same with the reader that erases by characters.

## Theorems

* `evaluateOnce_quiet`: Without debug output the result is all there is.
* `evaluateOnce_debug`: Debug output comes before the result and changes nothing else.
-/

namespace Calculator

/-- How a call ends. -/
structure Completion where
  exitCode : UInt8
  output : Output
  deriving DecidableEq

/-- A call that succeeds with a text. -/
def Completion.success (text : String) : Completion :=
  { exitCode := 0, output := { stdout := text, stderr := "" } }

/-- The debug output of an evaluation. -/
def debugLog (text : String) (events : List Event) : String :=
  unlines
    (("[INFO] evaluating: " ++ text)
      :: events.map fun event => "[DEBUG] (1) calc::lang::eval: " ++ event.message)

/-- The complaint about an expression without a statement. -/
def noExpressionMessage : String :=
  "no expression"

/-- A call that fails with a message. -/
def Completion.failure (message : String) : Completion :=
  { exitCode := 1, output := { stdout := "", stderr := "Error: " ++ message ++ "\n" } }

/-- The end of a call with an expression that has a result. -/
def Completion.ofResult : Except EvalError (Option Binary64) → Completion
  | .ok (some value) => .success (value.resultText ++ "\n")
  | .ok none => .failure noExpressionMessage
  | .error e => .failure e.message

/-- The answer to an expression given as words. -/
def evaluateOnce (debug : Bool) (words : List String) : Completion :=
  let text := " ".intercalate words
  let answer := Session.new.eval text
  let log := if debug then debugLog text answer.events else ""
  let completion := Completion.ofResult answer.result
  { completion with output := { stdout := log, stderr := "" } ++ completion.output }

/-- The answer to a request, given the input that a conversation reads. -/
def LineReader.answerRequest (reader : LineReader) (input : String) : Request → Completion
  | .help long => .success (if long then longHelp else shortHelp)
  | .version => .success versionText
  | .refuse e => { exitCode := 2, output := { stdout := "", stderr := e.message } }
  | .evaluate debug first rest => evaluateOnce debug (first :: rest)
  | .converse => { exitCode := 0, output := reader.transcript input }

/-- The answer to a command line and an input. -/
def LineReader.runProgram (reader : LineReader) (words : List String) (input : String) :
    Completion :=
  reader.answerRequest input (readOptions words)

/-- The answer to a command line and an input that is read by characters. -/
def runProgram (words : List String) (input : String) : Completion :=
  LineReader.byCharacter.runProgram words input

/-- Without debug output the result is all there is. -/
theorem evaluateOnce_quiet (words : List String) :
    evaluateOnce false words =
      .ofResult (Session.new.eval (" ".intercalate words)).result := by
  rw [evaluateOnce]
  exact congrArg (Completion.mk _) (Output.none_append _)

/-- Debug output comes before the result and changes nothing else. -/
theorem evaluateOnce_debug (words : List String) :
    evaluateOnce true words =
      { evaluateOnce false words with
        output :=
          { stdout :=
              debugLog (" ".intercalate words)
                  (Session.new.eval (" ".intercalate words)).events
                ++ (evaluateOnce false words).output.stdout
            stderr := (evaluateOnce false words).output.stderr } } := by
  -- Without debug output the log is empty, and appending to it changes nothing.
  have hempty (s : String) : "" ++ s = s := String.empty_append
  simp only [evaluateOnce, if_true, Bool.false_eq_true, if_false, HAppend.hAppend,
    Append.append, Output.append] at hempty ⊢
  simp only [hempty]

end Calculator
