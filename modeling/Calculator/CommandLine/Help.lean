import Calculator.CommandLine.Options
import Calculator.Text.ControlSequence

/-!
# Texts of the Command Line

What the program says about itself and about wrong options.

A value that is quoted in a complaint comes from the user, and may hold orders to a
terminal. It is quoted without them, so that a complaint cannot change how the rest
of the terminal looks.

## Main definitions

* `versionText`, `shortHelp`, `longHelp`: The answers to the options that ask.
* `UsageError.message`: What is said about wrong options.

## Theorems

* `unlines_cons`: The first line stands before the others.
-/

namespace Calculator

/-- A text of lines, each with its line end. -/
def unlines (lines : List String) : String :=
  String.join (lines.map (· ++ "\n"))

/-- The first line stands before the others. -/
theorem unlines_cons (line : String) (lines : List String) :
    unlines (line :: lines) = line ++ "\n" ++ unlines lines := by
  rw [unlines, unlines, List.map_cons, String.join_cons]

/-- The answer to the question for the version. -/
def versionText : String :=
  "calc 0.1.0\n"

/-- How the program is called, given the options to show. -/
def usageLine (options : String) : String :=
  "Usage: calc " ++ options

/-- The options of a call in general, and the expression. -/
def generalUsage : String :=
  "[OPTIONS] [EXPRESSION]..."

/-- The answer to the question for help by its letter. -/
def shortHelp : String :=
  unlines
    [ "A simple floating-point calculator",
      "",
      usageLine generalUsage,
      "",
      "Arguments:",
      "  [EXPRESSION]...  Expression to evaluate, words are joined with spaces",
      "",
      "Options:",
      "  -d, --debug              Show debug output",
      "      --history <HISTORY>  Where to keep REPL history [default: .calc_history]",
      "  -h, --help               Print help (see more with '--help')",
      "  -V, --version            Print version" ]

/-- The answer to the question for help by its long name. -/
def longHelp : String :=
  unlines
    [ "A simple floating-point calculator",
      "",
      "Evaluates the given expression, or starts a REPL when none is given. "
        ++ "Quote the expression if it uses `*` so the shell does not glob it.",
      "",
      usageLine generalUsage,
      "",
      "Arguments:",
      "  [EXPRESSION]...",
      "          Expression to evaluate, words are joined with spaces",
      "",
      "Options:",
      "  -d, --debug",
      "          Show debug output",
      "",
      "      --history <HISTORY>",
      "          Where to keep REPL history",
      "          ",
      "          [default: .calc_history]",
      "",
      "  -h, --help",
      "          Print help (see a summary with '-h')",
      "",
      "  -V, --version",
      "          Print version" ]

/-- The options to show beside a flag that was given a value. Help and version are no
    alternatives to the other options and are named first; when another option has
    been taken, all that can be combined is shown as one group. -/
def flagUsage (flag : Flag) (afterOthers : Bool) : String :=
  if afterOthers then
    let group := "<--debug|" ++ historySpelling ++ "|EXPRESSION>"
    match flag with
    | .debug => group
    | .help => flag.spelling ++ " " ++ group
    | .version => flag.spelling ++ " " ++ group
  else
    flag.spelling ++ " [EXPRESSION]..."

namespace UsageError

/-- The first line of a complaint, and the usage that goes with it if one does. -/
def parts : UsageError → String × Option String
  | .repeated spelling =>
      ("the argument '" ++ spelling ++ "' cannot be used multiple times", some generalUsage)
  | .missingHistory =>
      ("a value is required for '" ++ historySpelling ++ "' but none was supplied", none)
  | .unexpectedValue flag value afterOthers =>
      ("unexpected value '" ++ withoutControlSequences value ++ "' for '" ++ flag.spelling
          ++ "' found; no more were expected",
        some (flagUsage flag afterOthers))

/-- What is said about wrong options. -/
def message (e : UsageError) : String :=
  let (complaint, usage) := e.parts
  let usageText :=
    match usage with
    | none => ""
    | some options => usageLine options ++ "\n\n"
  "error: " ++ complaint ++ "\n\n" ++ usageText
    ++ "For more information, try '--help'.\n"

end UsageError

end Calculator
