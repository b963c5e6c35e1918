/-!
# Command Line Options

Which words of a command line are options, and which are the expression.

Options come first. The first word that is no option begins the expression, and every
word after it belongs to the expression as it stands, hyphens included. A word with a
hyphen is an option only if it is one exactly: a known long name, or one hyphen and
letters that are all known. Anything else, such as `-1`, begins the expression.

The word after `--history` is its value unless it is an option itself. That value is
held back until the next option, the expression or the end asks for it, so a mistake
in it is reported only then; but it is reported before that option acts.

## Main definitions

* `Flag`: The options without a value.
* `Word`: What a word is where an option may stand.
* `UsageError`: What is wrong with the options.
* `Request`: What a command line asks for.
* `readOptions`: The request of a command line.

## Theorems

* `readOptions_endOfOptions`: Behind two hyphens every word belongs to the expression.
* `readOptions_plain`: From the first word that is no option on, every word belongs to
  the expression.
-/

namespace Calculator

/-- The options without a value. -/
inductive Flag where
  | debug
  | help
  | version
  deriving DecidableEq, Repr

/-- The long name of a flag, with its hyphens. -/
def Flag.spelling : Flag → String
  | .debug => "--debug"
  | .help => "--help"
  | .version => "--version"

/-- The option with a value, as messages name it. -/
def historySpelling : String :=
  "--history <HISTORY>"

/-- What a word is where an option may stand. -/
inductive Word where
  /-- The mark behind which every word belongs to the expression. -/
  | endOfOptions
  /-- One hyphen and the letters of some flags. -/
  | cluster (flags : List Flag)
  /-- The long name of a flag. -/
  | flag (flag : Flag)
  /-- The long name of a flag with a value, which no flag takes. -/
  | flagWithValue (flag : Flag) (value : String)
  /-- The option whose value is the next word. -/
  | history
  /-- The option together with its value. -/
  | historyWithValue (value : String)
  /-- A word of the expression. -/
  | plain
  deriving DecidableEq, Repr

/-- The flag of a letter. -/
def Flag.ofLetter? : Char → Option Flag
  | 'd' => some .debug
  | 'h' => some .help
  | 'V' => some .version
  | _ => none

/-- The flag of a long name without its hyphens. -/
def Flag.ofName? (name : String) : Option Flag :=
  if name = "debug" then some .debug
  else if name = "help" then some .help
  else if name = "version" then some .version
  else none

/-- What a word behind two hyphens is: a name, and a value if there is an equals
    sign. -/
def Word.ofLong (body : List Char) : Word :=
  let name := String.ofList (body.takeWhile (· != '='))
  match body.dropWhile (· != '='), Flag.ofName? name with
  | [], some known => .flag known
  | [], none => if name = "history" then .history else .plain
  | _ :: value, some known => .flagWithValue known (String.ofList value)
  | _ :: value, none =>
      if name = "history" then .historyWithValue (String.ofList value) else .plain

/-- What a word is where an option may stand. -/
def Word.ofString (word : String) : Word :=
  match word.toList with
  | ['-', '-'] => .endOfOptions
  | '-' :: '-' :: body => .ofLong body
  | '-' :: letter :: letters =>
      match (letter :: letters).mapM Flag.ofLetter? with
      | some flags => .cluster flags
      | none => .plain
  | _ => .plain

/-- What is wrong with the options. -/
inductive UsageError where
  /-- An option that may be given once is given again. -/
  | repeated (spelling : String)
  /-- The option for the history has no value, or an empty one. -/
  | missingHistory
  /-- A flag has a value. The error text also depends on whether other options were
      already taken. -/
  | unexpectedValue (flag : Flag) (value : String) (afterOthers : Bool)
  deriving DecidableEq, Repr

/-- What a command line asks for. -/
inductive Request where
  /-- The short help, asked for by a letter, or the long one. -/
  | help (long : Bool)
  | version
  | refuse (error : UsageError)
  /-- An expression, of at least one word. -/
  | evaluate (debug : Bool) (first : String) (rest : List String)
  /-- No expression, which starts a conversation. Neither the flag for debug output nor the
      file for the history is kept: the lines logged in a conversation are left out, and one
      without a terminal has no history. -/
  | converse
  deriving DecidableEq, Repr

/-- The value of the history option that is being held back. -/
inductive HeldHistory where
  | none
  | awaited
  | value (value : String)
  deriving DecidableEq, Repr

/-- The options taken so far. -/
structure OptionState where
  debug : Bool
  history : Bool
  held : HeldHistory
  deriving DecidableEq, Repr

namespace OptionState

/-- No options. -/
def none : OptionState :=
  { debug := false, history := false, held := .none }

/-- The options after a value of the history option is taken. -/
def takeHistory (s : OptionState) (value : String) : Except UsageError OptionState :=
  if s.history then .error (.repeated historySpelling)
  else if value.isEmpty then .error .missingHistory
  else .ok { s with history := true, held := .none }

/-- The options after the value that is held back, if any, is taken. -/
def release (s : OptionState) : Except UsageError OptionState :=
  match s.held with
  | .none => .ok s
  | .awaited => .error .missingHistory
  | .value value => s.takeHistory value

/-- Whether any option has been taken. -/
def isTaken (s : OptionState) : Bool :=
  s.debug || s.history

end OptionState

/-- What a flag does: it changes the options, or it is a request of its own. -/
inductive FlagEffect where
  | proceed (state : OptionState)
  | stop (request : Request)

/-- What a flag does to the options, given by its letter or by its long name. -/
def applyFlag (s : OptionState) (flag : Flag) (long : Bool) : FlagEffect :=
  match s.release with
  | .error e => .stop (.refuse e)
  | .ok s =>
      match flag with
      | .help => .stop (.help long)
      | .version => .stop .version
      | .debug =>
          if s.debug then .stop (.refuse (.repeated Flag.debug.spelling))
          else .proceed { s with debug := true }

/-- What the flags of a cluster do, one after the other. -/
def applyCluster (s : OptionState) : List Flag → FlagEffect
  | [] => .proceed s
  | flag :: flags =>
      match applyFlag s flag false with
      | .stop request => .stop request
      | .proceed s' => applyCluster s' flags

/-- The request of a command line whose options have all been read. -/
def finishOptions (s : OptionState) (expression : List String) : Request :=
  match s.release with
  | .error e => .refuse e
  | .ok s =>
      match expression with
      | [] => .converse
      | first :: rest => .evaluate s.debug first rest

/-- The request of a command line after some options. -/
def readOptionsFrom (s : OptionState) : List String → Request
  | [] => finishOptions s []
  | word :: rest =>
      match Word.ofString word with
      | .endOfOptions => finishOptions s rest
      | .cluster flags =>
          match applyCluster s flags with
          | .stop request => request
          | .proceed s' => readOptionsFrom s' rest
      | .flag flag =>
          match applyFlag s flag true with
          | .stop request => request
          | .proceed s' => readOptionsFrom s' rest
      | .flagWithValue flag value => .refuse (.unexpectedValue flag value s.isTaken)
      | .history =>
          match s.release with
          | .error e => .refuse e
          | .ok s' => readOptionsFrom { s' with held := .awaited } rest
      | .historyWithValue value =>
          match s.release with
          | .error e => .refuse e
          | .ok s' =>
              match s'.takeHistory value with
              | .error e => .refuse e
              | .ok s'' => readOptionsFrom s'' rest
      | .plain =>
          match s.held with
          | .awaited => readOptionsFrom { s with held := .value word } rest
          | _ => finishOptions s (word :: rest)

/-- The request of a command line. -/
def readOptions (words : List String) : Request :=
  readOptionsFrom .none words

/-- Behind two hyphens every word belongs to the expression. -/
theorem readOptions_endOfOptions (first : String) (rest : List String) :
    readOptions ("--" :: first :: rest) = .evaluate false first rest :=
  rfl

/-- From the first word that is no option on, every word belongs to the expression. -/
theorem readOptions_plain {first : String} (h : Word.ofString first = .plain)
    (rest : List String) :
    readOptions (first :: rest) = .evaluate false first rest := by
  simp only [readOptions, readOptionsFrom, h, OptionState.none, finishOptions,
    OptionState.release]

end Calculator
