import Calculator.Evaluation.Statement
import Calculator.Token.Scan

/-!
# Sessions

Evaluations that share a store.

A session holds the tokens of the text that was loaded last, a cursor into them, and
the store. Running evaluates from the cursor on, and leaves the cursor where
evaluation stopped, so that a run after a failure goes on behind it. A run that has a
value writes it to the name `result`; a run that fails, or has nothing to evaluate,
does not.

## Main definitions

* `Event`: What a session reports while it works.
* `Session`: The loaded tokens, the cursor and the store.
* `Session.load`, `Session.run`, `Session.eval`: Load a text, evaluate what is
  pending, or both.
* `Answer`: What a run gives back.
* `Session.Request`, `Session.after`: What a session can be asked for, and the session after it.
-/

namespace Calculator

/-- What a session reports while it works. -/
inductive Event where
  | loaded (count : Nat)
  | assigned (assignment : Assignment)
  | failed (error : EvalError)
  deriving DecidableEq

/-- The wording of a report. -/
def Event.message : Event → String
  | .loaded count => "loaded " ++ toString count ++ " tokens"
  | .assigned assignment =>
      "assign " ++ assignment.name ++ " = " ++ assignment.value.text
  | .failed e => "run failed: " ++ e.message

/-- The loaded tokens, the number of those that have been evaluated, and the store. -/
structure Session where
  tokens : List Token
  cursor : Nat
  store : Store

/-- The name to which the value of a run is written. -/
def resultName : String := "result"

/-- What a run gives back: the value of its last statement, nothing if there was no
    statement, or its failure; the reports it made; and the session after it. -/
structure Answer where
  result : Except EvalError (Option Binary64)
  events : List Event
  session : Session

namespace Session

/-- A session with nothing loaded and only the constants in its store. -/
def new : Session :=
  { tokens := tokenize "", cursor := 0, store := .constants }

instance : Inhabited Session := ⟨new⟩

/-- The session after a text is loaded in place of what was pending. -/
def load (s : Session) (text : String) : Session :=
  { s with tokens := tokenize text, cursor := 0 }

/-- The report about a text that was loaded. The marks of its end are not counted. -/
def loadedEvent (text : String) : Event :=
  .loaded (Scanner.ofText text).tokens.length

/-- The tokens that have not been evaluated yet. -/
def pending (s : Session) : List Token :=
  s.tokens.drop s.cursor

/-- The number of a name. -/
def get? (s : Session) (name : String) : Option Binary64 :=
  s.store.get? name

/-- The store after a run with a result. -/
def recordResult (store : Store) : Except EvalError (Option Binary64) → Store
  | .ok (some value) => store.insert resultName value
  | .ok none => store
  | .error _ => store

/-- The report about a result: only failures are reported. -/
def resultEvents : Except EvalError (Option Binary64) → List Event
  | .ok _ => []
  | .error e => [.failed e]

/-- Evaluate what is pending. -/
def run (s : Session) : Answer :=
  let ended := evaluate s.store s.pending
  { result := ended.result
    events := ended.memory.assignments.map .assigned ++ resultEvents ended.result
    session :=
      { tokens := s.tokens
        cursor := s.tokens.length - ended.rest.length
        store := recordResult ended.memory.store ended.result } }

/-- Load a text and evaluate it. -/
def eval (s : Session) (text : String) : Answer :=
  let answer := (s.load text).run
  { answer with events := loadedEvent text :: answer.events }

/-- What a session can be asked for. -/
inductive Request where
  | load (text : String)
  | run
  | eval (text : String)
  | read (name : String)
  deriving DecidableEq

/-- The session after a request. Reading a name changes nothing. -/
def after (s : Session) : Request → Session
  | .load text => s.load text
  | .run => s.run.session
  | .eval text => (s.eval text).session
  | .read _ => s

/-- The session after requests, one after the other. -/
def afterAll (s : Session) (requests : List Request) : Session :=
  requests.foldl after s

end Session

end Calculator
