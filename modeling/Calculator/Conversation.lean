import Calculator.Conversation.Line
import Calculator.Decimal.Places
import Calculator.Session

/-!
# Conversations

The calculator read line by line.

Every complete line is evaluated in one session, whose store goes on to the next line
whatever happens. A value is printed as a result, a line without a statement prints
nothing, and a failure is reported apart from the results. The conversation ends with
a line that asks to leave, or with the input.

What belongs to a terminal is left out: the prompt, an interrupt, and the history of lines.
A conversation without a terminal adds no line to its history, so there is none to save when
it ends, and saving cannot fail. The lines that are logged when debug output is asked for are
left out too, since the reader logs some of its own among them.

## Main definitions

* `Output`: What is printed as a result and what is reported as an error.
* `respond`: The effect of one line.
* `converse`: The output of a list of lines.
* `LineReader.transcript`: The output of a whole input.

## Theorems

* `converse_quit`: Nothing after a line that asks to leave has an effect.
-/

namespace Calculator

/-- What is printed on the two channels. -/
structure Output where
  stdout : String
  stderr : String
  deriving DecidableEq, Repr

namespace Output

/-- No output. -/
def none : Output :=
  { stdout := "", stderr := "" }

/-- One output after another. -/
def append (x y : Output) : Output :=
  { stdout := x.stdout ++ y.stdout, stderr := x.stderr ++ y.stderr }

instance : Append Output := ⟨append⟩

theorem none_append (output : Output) : none ++ output = output := by
  have houtput : none ++ output =
      { stdout := "" ++ output.stdout, stderr := "" ++ output.stderr } := rfl
  rw [houtput, String.empty_append, String.empty_append]

theorem append_none (output : Output) : output ++ none = output := by
  have houtput : output ++ none =
      { stdout := output.stdout ++ "", stderr := output.stderr ++ "" } := rfl
  rw [houtput, String.append_empty, String.append_empty]

theorem append_assoc (x y z : Output) : x ++ y ++ z = x ++ (y ++ z) := by
  have hgrouped : x ++ y ++ z =
      { stdout := x.stdout ++ y.stdout ++ z.stdout, stderr := x.stderr ++ y.stderr ++ z.stderr } :=
    rfl
  rw [hgrouped, String.append_assoc, String.append_assoc]
  rfl

end Output

/-- What a conversation begins with. -/
def banner : String :=
  "calc v0.1.0\nType 'exit' or 'quit' to quit\n\n"

/-- What a conversation ends with when its input does. -/
def farewell : String :=
  "quit\n"

/-- What the result of a line prints. -/
def resultOutput : Except EvalError (Option Binary64) → Output
  | .ok (some value) => { stdout := value.resultText ++ "\n", stderr := "" }
  | .ok none => .none
  | .error e => { stdout := "", stderr := "error: " ++ e.message ++ "\n" }

/-- The effect of a complete line: nothing if it asks to leave, and otherwise the
    session after it and what it prints. -/
def respond (session : Session) (line : String) : Option (Session × Output) :=
  let tidied := tidyLine line
  if asksToQuit tidied then
    none
  else
    let answer := session.eval tidied
    some (answer.session, resultOutput answer.result)

/-- The output of some complete lines in a session. -/
def converse (session : Session) : List String → Output
  | [] => { stdout := farewell, stderr := "" }
  | line :: rest =>
      match respond session line with
      | none => .none
      | some (session', output) => output ++ converse session' rest

/-- The output of a whole input. -/
def LineReader.transcript (reader : LineReader) (input : String) : Output :=
  { stdout := banner, stderr := "" } ++
    converse .new ((reader.logicalLines input.toList).map String.ofList)

/-- Nothing after a line that asks to leave has an effect. -/
theorem converse_quit {session : Session} {line : String}
    (h : asksToQuit (tidyLine line) = true) (rest : List String) :
    converse session (line :: rest) = .none := by
  simp only [converse, respond, h, if_true]

end Calculator
