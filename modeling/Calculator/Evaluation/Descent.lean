import Calculator.Session

/-!
# Recursive Descent

The evaluator as it works on its tokens: a cursor, a depth, and a function for each rank of
the language.

The machine is given the tokens that are left and a list of what is open. This account has
neither. It holds all tokens for as long as they are loaded, looks at them by their index,
and counts what is open. An index may be too large and a count may be taken below zero, so
every look and every count is checked here, and a check that fails ends everything with a
`Fault`. A fault is no failure of evaluation: nothing that is typed in should lead to one.

The functions call each other, and some call themselves without taking a token first. They
are given fuel, of which each call uses one piece, and running out of it is a fault as well.

## Main definitions

* `Descent.State`: The cursor, the depth and the memory.
* `Descent.Fault`: What no evaluation may lead to.
* `Descent.Call`: A computation that may fail, and that may end in a fault.
* `Descent.peek`, `Descent.peekSecond`, `Descent.advance`: The looks at the tokens.
* `Descent.factor`, `Descent.term`, `Descent.expr`, `Descent.nested`, `Descent.sum`: One
  function for each rank.
* `Evaluator`: Tokens, cursor, depth and store between the calls.
* `Evaluator.runWith`, `Evaluator.run`: Evaluate what is pending, with some fuel or with as
  much as is enough.
* `Evaluator.after`: The evaluator after a request.
-/

namespace Calculator

namespace Descent

/-- The index of the next token, the number of parentheses and assignments that are open,
    and the memory. -/
structure State where
  position : Nat
  depth : Nat
  memory : Memory

/-- What no evaluation may lead to. -/
inductive Fault where
  /-- A token is looked at behind the last one. -/
  | outOfBounds (index : Nat)
  /-- More is open than the limit allows. -/
  | tooDeep (depth : Nat)
  /-- Something is closed while nothing is open. -/
  | depthUnderflow
  /-- The fuel does not last. -/
  | outOfFuel
  deriving DecidableEq

/-- A computation on the state: a value or a failure, and the state after it, unless it ends
    in a fault. -/
def Call (α : Type) : Type :=
  State → Except Fault (Except EvalError α × State)

namespace Call

/-- Go on after a value. A failure and a fault end the computation. -/
def andThen {α β : Type} (x : Call α) (f : α → Call β) : Call β := fun s =>
  match x s with
  | .error fault => .error fault
  | .ok (.error e, s') => .ok (.error e, s')
  | .ok (.ok a, s') => f a s'

instance : Monad Call where
  pure a := fun s => .ok (.ok a, s)
  bind := andThen

/-- Fail where the state is. -/
def fail {α : Type} (e : EvalError) : Call α := fun s => .ok (.error e, s)

/-- A value that may be a failure. -/
def ofExcept {α : Type} (r : Except EvalError α) : Call α := fun s => .ok (r, s)

/-- A fault. -/
def fault {α : Type} (f : Fault) : Call α := fun _ => .error f

end Call

/-- The token with an index. -/
def tokenAt (tokens : List Token) (index : Nat) : Call Token := fun s =>
  match tokens[index]? with
  | some token => .ok (.ok token, s)
  | none => .error (.outOfBounds index)

/-- Look at the next token. -/
def peek (tokens : List Token) : Call Token := fun s => tokenAt tokens s.position s

/-- Look at the token behind the next one. -/
def peekSecond (tokens : List Token) : Call Token := fun s =>
  tokenAt tokens (s.position + 1) s

/-- The state behind a token. The mark of the end is not taken. -/
def State.behind (s : State) (token : Token) : State :=
  if token.isEnd then s else { s with position := s.position + 1 }

/-- Take the next token. -/
def advance (tokens : List Token) : Call Token := fun s =>
  match tokens[s.position]? with
  | some token => .ok (.ok token, s.behind token)
  | none => .error (.outOfBounds s.position)

/-- What a factor or a term can be: a number, the word for assignment, or a name before an
    equals sign. -/
inductive Operand where
  | number (value : Binary64)
  | letWord
  | target (name : String)

/-- The number that an operand is. -/
def Operand.toNumber : Operand → Except EvalError Binary64
  | .number value => .ok value
  | .letWord => .error (.notANumber Token.letWord.text)
  | .target name => .error (.notANumber name)

/-- Look up a name. -/
def lookUp (name : String) : Call Operand := fun s =>
  match s.memory.store.get? name with
  | some value => .ok (.ok (.number value), s)
  | none => .ok (.error (.undefinedVariable name), s)

/-- Write a number to a name. -/
def write (name : String) (value : Binary64) : Call Binary64 := fun s =>
  .ok (.ok value, { s with memory := s.memory.assign name value })

/-- One more is open. -/
def enter : Call Unit := fun s =>
  if s.depth < nestingLimit then .ok (.ok (), { s with depth := s.depth + 1 })
  else .error (.tooDeep (s.depth + 1))

/-- One less is open. -/
def leave (s : State) : Except Fault State :=
  match s.depth with
  | 0 => .error .depthUnderflow
  | depth + 1 => .ok { s with depth }

/-- Take the end of a parenthesis. -/
def closing (tokens : List Token) (value : Binary64) : Call Operand := do
  match ← advance tokens with
  | .closeParen => return .number value
  | token => .fail (.unclosedParenthesis token)

/-- Take the number behind a minus sign. -/
def negated (tokens : List Token) : Call Operand := do
  match ← advance tokens with
  | .number value => return .number value.neg
  | token => .fail (.unexpectedToken token)

/-- Take the name and the equals sign behind the word for assignment. -/
def target (tokens : List Token) : Call String := do
  match ← advance tokens with
  | .name name =>
      match ← advance tokens with
      | .equals => return name
      | token => .fail (.notAnAssignment name token)
  | token => .fail (.notAnIdentifier token)

mutual

/-- A number, a name, a statement in parentheses or a negated number; or the beginning of an
    assignment, which is left to the statement. -/
def factor (tokens : List Token) : Nat → Call Operand
  | 0 => .fault .outOfFuel
  | fuel + 1 => do
      let token ← peek tokens
      let ahead ← peekSecond tokens
      match token, ahead with
      | .name name, .equals =>
          let _ ← advance tokens
          return .target name
      | _, _ =>
          match ← advance tokens with
          | .number value => return .number value
          | .name name => lookUp name
          | .letWord => return .letWord
          | .openParen =>
              let value ← nested tokens fuel
              closing tokens value
          | .minus => negated tokens
          | .endOfText => .fail .unexpectedEnd
          | .malformed message => .fail (.malformed message)
          | taken => .fail (.unexpectedToken taken)

/-- A product of at least one factor. -/
def term (tokens : List Token) : Nat → Call Operand
  | 0 => .fault .outOfFuel
  | fuel + 1 => do
      let lhs ← factor tokens fuel
      product tokens fuel lhs

/-- The rest of a product. -/
def product (tokens : List Token) : Nat → Operand → Call Operand
  | 0, _ => .fault .outOfFuel
  | fuel + 1, lhs => do
      let token ← peek tokens
      match token.productOp? with
      | none => return lhs
      | some op =>
          let _ ← advance tokens
          let rhs ← factor tokens fuel
          let x ← Call.ofExcept lhs.toNumber
          let y ← Call.ofExcept rhs.toNumber
          let value ← Call.ofExcept (op.apply x y)
          product tokens fuel (.number value)

/-- A statement: a sum or an assignment. -/
def expr (tokens : List Token) : Nat → Call Binary64
  | 0 => .fault .outOfFuel
  | fuel + 1 => do
      match ← term tokens fuel with
      | .number value => sum tokens fuel value
      | .letWord =>
          let name ← target tokens
          let value ← nested tokens fuel
          write name value
      | .target name =>
          let _ ← advance tokens
          let value ← nested tokens fuel
          write name value

/-- A statement inside one more parenthesis or assignment, if the limit allows it. What was
    opened is closed again, whether the statement fails or not. -/
def nested (tokens : List Token) : Nat → Call Binary64
  | 0 => .fault .outOfFuel
  | fuel + 1 => fun s =>
      if nestingLimit ≤ s.depth then
        .ok (.error .nestedTooDeeply, s)
      else
        match (enter.andThen fun _ => expr tokens fuel) s with
        | .error fault => .error fault
        | .ok (r, s') => (leave s').map (r, ·)

/-- The rest of a sum. -/
def sum (tokens : List Token) : Nat → Binary64 → Call Binary64
  | 0, _ => .fault .outOfFuel
  | fuel + 1, lhs => do
      let token ← peek tokens
      match token.sumOp? with
      | none => return lhs
      | some op =>
          let _ ← advance tokens
          let rhs ← term tokens fuel
          let y ← Call.ofExcept rhs.toNumber
          sum tokens fuel (op.apply lhs y)

end

/-- Statements up to the end of the text, where `last` is the value of the one before. -/
def program (tokens : List Token) : Nat → Option Binary64 → Call (Option Binary64)
  | 0, _ => .fault .outOfFuel
  | fuel + 1, last => do
      let token ← peek tokens
      if token.isEnd then
        return last
      else
        let value ← expr tokens fuel
        program tokens fuel (some value)

end Descent

/-- What an evaluator holds between the calls. -/
structure Evaluator where
  tokens : List Token
  position : Nat
  depth : Nat
  store : Store

namespace Evaluator

/-- What a run gives back, and the evaluator after it. -/
structure Ended where
  result : Except EvalError (Option Binary64)
  events : List Event
  evaluator : Evaluator

/-- An evaluator with nothing loaded and only the constants in its store. -/
def new : Evaluator :=
  { tokens := tokenize "", position := 0, depth := 0, store := .constants }

/-- The evaluator after a text is loaded in place of what was pending. -/
def load (e : Evaluator) (text : String) : Evaluator :=
  { e with tokens := tokenize text, position := 0, depth := 0 }

/-- Evaluate what is pending, with some fuel. -/
def runWith (fuel : Nat) (e : Evaluator) : Except Descent.Fault Ended :=
  match Descent.program e.tokens fuel none
      { position := e.position, depth := e.depth, memory := .ofStore e.store } with
  | .error fault => .error fault
  | .ok (result, s) =>
      .ok
        { result
          events := s.memory.assignments.map .assigned ++ Session.resultEvents result
          evaluator :=
            { tokens := e.tokens
              position := s.position
              depth := s.depth
              store := Session.recordResult s.memory.store result } }

/-- The fuel that a run is given: four pieces for every token that is left, the marks of the
    end included, and four more. -/
def fuelBound (e : Evaluator) : Nat :=
  4 * (e.tokens.length - e.position) + 4

/-- Evaluate what is pending. -/
def run (e : Evaluator) : Except Descent.Fault Ended :=
  e.runWith e.fuelBound

/-- Load a text and evaluate it. -/
def eval (e : Evaluator) (text : String) : Except Descent.Fault Ended :=
  (e.load text).run.map fun ended =>
    { ended with events := Session.loadedEvent text :: ended.events }

/-- The number of a name. -/
def get? (e : Evaluator) (name : String) : Option Binary64 :=
  e.store.get? name

/-- The evaluator after a request. Reading a name changes nothing. -/
def after (e : Evaluator) : Session.Request → Except Descent.Fault Evaluator
  | .load text => .ok (e.load text)
  | .run => e.run.map Ended.evaluator
  | .eval text => (e.eval text).map Ended.evaluator
  | .read _ => .ok e

/-- The evaluator after requests, one after the other. -/
def afterAll (e : Evaluator) (requests : List Session.Request) : Except Descent.Fault Evaluator :=
  requests.foldlM after e

end Evaluator

end Calculator
