import Calculator.Evaluation.Operation
import Calculator.Store

/-!
# The Evaluation Machine

How one statement is evaluated while its tokens are read, without a tree in
between.

The machine holds what is open around the point it has reached: the parentheses
and assignments it is inside of, innermost first, and inside the innermost one the
sum and the product that wait for their right operand. Each token moves it by one
step, and no step looks further than one token ahead. That look is needed twice:
a name before an equals sign is not read but written, and the word for assignment
before `*` or `/` is taken for an operand, so that the complaint about it comes
after the complaints about the other factor.

Nothing is read twice, so effects happen in the order of the text. An assignment is
written when its right-hand side is complete, which is noticed at the token after
it; inside parentheses it is therefore written before the closing parenthesis is
missed.

## Main definitions

* `Assignment`, `Memory`: A write, and the store together with its writes so far.
* `Operand`: A number, or a word that stands where a number is needed.
* `Left`: The sum and the product that wait for an operand.
* `Enclosure`: A parenthesis or an assignment that is open.
* `Phase`: What the next token is expected to be.
* `Machine`: The state of an evaluation inside a statement.
* `Machine.step`: The effect of one token.

## Theorems

* `ofExcept_eq_advance_iff`: A token that only moves the machine on does so exactly
  when it can be read.
* `readOperator_cases`, `step_cases`: What a token is that moves the machine on, and where it
  moves it to.
-/

namespace Calculator

/-- A write of a number to a name. -/
structure Assignment where
  name : String
  value : Binary64
  deriving DecidableEq

/-- The store, and the writes that led to it since evaluation began, latest first. -/
structure Memory where
  store : Store
  trail : List Assignment
  deriving DecidableEq

namespace Memory

/-- A store in which nothing has been written yet. -/
def ofStore (store : Store) : Memory :=
  { store, trail := [] }

/-- The memory after a write. -/
def assign (memory : Memory) (name : String) (value : Binary64) : Memory :=
  { store := memory.store.insert name value, trail := { name, value } :: memory.trail }

/-- The writes in the order in which they were made. -/
def assignments (memory : Memory) : List Assignment :=
  memory.trail.reverse

end Memory

/-- What stands in the place of a number: a number, or a word that starts an
    assignment and has no value. -/
inductive Operand where
  | number (value : Binary64)
  | word (text : String)
  deriving DecidableEq

/-- The number that an operand is. -/
def Operand.toNumber : Operand → Except EvalError Binary64
  | .number value => .ok value
  | .word text => .error (.notANumber text)

/-- A sum that waits for its next term: the value so far and the operation. -/
abbrev WaitingSum := Option (Binary64 × SumOp)

/-- A product that waits for its next factor: the operand so far and the operation. -/
abbrev WaitingProduct := Option (Operand × ProductOp)

/-- What waits for the operand that is due. Nothing does where a statement begins. -/
structure Left where
  sum : WaitingSum
  product : WaitingProduct
  deriving DecidableEq

/-- The place where a statement begins. -/
def Left.start : Left :=
  { sum := none, product := none }

/-- The value of a waiting sum and its last term. -/
def WaitingSum.total : WaitingSum → Binary64 → Binary64
  | none, term => term
  | some (value, op), term => op.apply value term

/-- A parenthesis or an assignment that is open. A parenthesis remembers what waits
    for its value. -/
inductive Enclosure where
  | parenthesis (left : Left)
  | assignment (name : String)
  deriving DecidableEq

/-- What the next token is expected to be. -/
inductive Phase where
  /-- An operand is due. -/
  | operand (left : Left)
  /-- A minus sign has been read where an operand was due, so a number must follow. -/
  | negated (left : Left)
  /-- An operand is complete, and an operation or the end of the statement follows. -/
  | operator (sum : WaitingSum) (term : Operand)
  /-- The word for assignment has been read, so a name must follow. -/
  | target
  /-- The name of an assignment has been read, so an equals sign must follow. -/
  | equals (name : String)
  deriving DecidableEq

/-- The state of an evaluation inside a statement. -/
structure Machine where
  memory : Memory
  enclosing : List Enclosure
  phase : Phase
  deriving DecidableEq

/-- What one token does: it moves the machine on, it turns out to lie behind the
    statement, or it makes the statement fail. -/
inductive Step where
  | advance (machine : Machine)
  | finish (memory : Memory) (value : Binary64)
  | fail (memory : Memory) (error : EvalError)
  deriving DecidableEq

/-- The phase after an operand is complete. A product is multiplied out at once; a sum
    waits, since a product may follow. -/
def Left.supply (left : Left) (operand : Operand) : Except EvalError Phase :=
  match left.product with
  | none => .ok (.operator left.sum operand)
  | some (factor, op) =>
      match factor.toNumber, operand.toNumber with
      | .error e, _ => .error e
      | _, .error e => .error e
      | .ok x, .ok y =>
          match op.apply x y with
          | .error e => .error e
          | .ok value => .ok (.operator left.sum (.number value))

namespace Machine

/-- The machine at the beginning of a statement. -/
def start (memory : Memory) : Machine :=
  { memory, enclosing := [], phase := .operand .start }

/-- The machine after an operand is complete. -/
def supply (m : Machine) (left : Left) (operand : Operand) : Except EvalError Machine :=
  match left.supply operand with
  | .ok phase => .ok { m with phase }
  | .error e => .error e

/-- The machine inside one more parenthesis or assignment, if the limit allows it. -/
def enter (m : Machine) (enclosure : Enclosure) : Except EvalError Machine :=
  if m.enclosing.length < nestingLimit then
    .ok { m with enclosing := enclosure :: m.enclosing, phase := .operand .start }
  else
    .error .nestedTooDeeply

/-- The machine after a word that starts an assignment. Where a statement begins, the
    assignment goes on in the phase `next`; elsewhere the word is an operand, about
    which the product that it belongs to complains, or else the sum. -/
def startAssignment (m : Machine) (left : Left) (word : String) (next : Phase)
    (ahead : Token) : Except EvalError Machine :=
  if left.product.isSome || ahead.productOp?.isSome then
    m.supply left (.word word)
  else if left.sum.isSome then
    .error (.notANumber word)
  else
    .ok { m with phase := next }

/-- The machine after a token in the place of an operand. -/
def readOperand (m : Machine) (left : Left) (token ahead : Token) :
    Except EvalError Machine :=
  match token with
  | .number value => m.supply left (.number value)
  | .name name =>
      if ahead = .equals then
        m.startAssignment left name (.equals name) ahead
      else
        match m.memory.store.get? name with
        | some value => m.supply left (.number value)
        | none => .error (.undefinedVariable name)
  | .letWord => m.startAssignment left Token.letWord.text .target ahead
  | .openParen => m.enter (.parenthesis left)
  | .minus => .ok { m with phase := .negated left }
  | .endOfText => .error .unexpectedEnd
  | .malformed message => .error (.malformed message)
  | _ => .error (.unexpectedToken token)

/-- The machine after a token in the place of the number behind a minus sign. -/
def readNegated (m : Machine) (left : Left) (token : Token) : Except EvalError Machine :=
  match token with
  | .number value => m.supply left (.number value.neg)
  | _ => .error (.unexpectedToken token)

/-- The machine after a token in the place of the name of an assignment. -/
def readTarget (m : Machine) (token : Token) : Except EvalError Machine :=
  match token with
  | .name name => .ok { m with phase := .equals name }
  | _ => .error (.notAnIdentifier token)

/-- The machine after a token in the place of an equals sign. -/
def readEquals (m : Machine) (name : String) (token : Token) : Except EvalError Machine :=
  match token with
  | .equals => m.enter (.assignment name)
  | _ => .error (.notAnAssignment name token)

/-- Complete the assignments that are open inside the innermost parenthesis, from the
    inside out, all with one value. The answer has what waits for the value of that
    parenthesis and what encloses it, if there is one. -/
def closeAssignments (value : Binary64) (memory : Memory) :
    List Enclosure → Memory × Option (Left × List Enclosure)
  | [] => (memory, none)
  | .parenthesis left :: outer => (memory, some (left, outer))
  | .assignment name :: outer => closeAssignments value (memory.assign name value) outer

end Machine

/-- A token that either moves the machine on or makes the statement fail, without
    having written anything. -/
def Step.ofExcept (memory : Memory) : Except EvalError Machine → Step
  | .ok machine => .advance machine
  | .error e => .fail memory e

/-- A token that only moves the machine on does so exactly when it can be read. -/
theorem Step.ofExcept_eq_advance_iff {memory : Memory} {r : Except EvalError Machine}
    {m : Machine} : Step.ofExcept memory r = .advance m ↔ r = .ok m := by
  cases r <;> simp only [Step.ofExcept, Step.advance.injEq, Except.ok.injEq, reduceCtorEq]

namespace Machine

/-- The effect of the token behind a complete sum. The assignments around the sum are
    complete with it, and so is the parenthesis around those if it is closed here. -/
def closeSum (m : Machine) (value : Binary64) (token : Token) : Step :=
  match closeAssignments value m.memory m.enclosing with
  | (memory, none) => .finish memory value
  | (memory, some (left, outer)) =>
      if token = .closeParen then
        .ofExcept memory (supply { m with memory, enclosing := outer } left (.number value))
      else
        .fail memory (.unclosedParenthesis token)

/-- The effect of the token behind a complete operand. -/
def readOperator (m : Machine) (sum : WaitingSum) (term : Operand) (token : Token) : Step :=
  match token.productOp? with
  | some op => .advance { m with phase := .operand { sum, product := some (term, op) } }
  | none =>
      match term.toNumber with
      | .error e => .fail m.memory e
      | .ok value =>
          match token.sumOp? with
          | some op =>
              .advance
                { m with
                  phase := .operand { sum := some (sum.total value, op), product := none } }
          | none => m.closeSum (sum.total value) token

/-- A token behind a complete operand that moves the machine on is an operation, or it closes a
    parenthesis and what is open inside it. -/
theorem readOperator_cases {m m' : Machine} {sum : WaitingSum} {term : Operand} {token : Token}
    (h : m.readOperator sum term token = .advance m') :
    (∃ op, token.productOp? = some op ∧
        m' = { m with phase := .operand { sum, product := some (term, op) } }) ∨
      (∃ value op, token.productOp? = none ∧ term.toNumber = .ok value ∧
        token.sumOp? = some op ∧
        m' = { m with phase := .operand { sum := some (sum.total value, op), product := none } }) ∨
      ∃ value memory left outer, token = .closeParen ∧ term.toNumber = .ok value ∧
        closeAssignments (sum.total value) m.memory m.enclosing = (memory, some (left, outer)) ∧
        supply { m with memory, enclosing := outer } left (.number (sum.total value)) = .ok m' := by
  unfold readOperator at h
  split at h
  · next op hproduct => exact .inl ⟨op, hproduct, (Step.advance.inj h).symm⟩
  next hproduct =>
  split at h
  · exact nomatch h
  next value hvalue =>
  split at h
  · next op hsum =>
      exact .inr (.inl ⟨value, op, hproduct, hvalue, hsum, (Step.advance.inj h).symm⟩)
  -- What is neither operator ends the sum, and the machine goes on only behind a parenthesis.
  unfold closeSum at h
  split at h
  · exact nomatch h
  next memory left outer hclose =>
  split at h
  · next htoken =>
      exact .inr (.inr ⟨value, memory, left, outer, htoken, hvalue, hclose,
        Step.ofExcept_eq_advance_iff.mp h⟩)
  · exact nomatch h

/-- The effect of one token, with a look at the token after it. -/
def step (m : Machine) (token ahead : Token) : Step :=
  match m.phase with
  | .operand left => .ofExcept m.memory (m.readOperand left token ahead)
  | .negated left => .ofExcept m.memory (m.readNegated left token)
  | .operator sum term => m.readOperator sum term token
  | .target => .ofExcept m.memory (m.readTarget token)
  | .equals name => .ofExcept m.memory (m.readEquals name token)

/-- A token that moves the machine on is what the phase expects. -/
theorem step_cases {m m' : Machine} {token ahead : Token}
    (h : m.step token ahead = .advance m') :
    (∃ left, m.phase = .operand left ∧ m.readOperand left token ahead = .ok m') ∨
      (∃ left value, m.phase = .negated left ∧ token = .number value ∧
        m.supply left (.number value.neg) = .ok m') ∨
      (∃ sum term, m.phase = .operator sum term ∧
        m.readOperator sum term token = .advance m') ∨
      (∃ name, m.phase = .target ∧ token = .name name ∧
        m' = { m with phase := .equals name }) ∨
      ∃ name, m.phase = .equals name ∧ token = .equals ∧
        m.enter (.assignment name) = .ok m' := by
  unfold step at h
  split at h
  · next left hphase => exact .inl ⟨left, hphase, Step.ofExcept_eq_advance_iff.mp h⟩
  · next left hphase =>
      have hread := Step.ofExcept_eq_advance_iff.mp h
      unfold readNegated at hread
      split at hread
      · next value => exact .inr (.inl ⟨left, value, hphase, rfl, hread⟩)
      · exact nomatch hread
  · next sum term hphase => exact .inr (.inr (.inl ⟨sum, term, hphase, h⟩))
  · next hphase =>
      have hread := Step.ofExcept_eq_advance_iff.mp h
      unfold readTarget at hread
      split at hread
      · next name =>
          exact .inr (.inr (.inr (.inl ⟨name, hphase, rfl, (Except.ok.inj hread).symm⟩)))
      · exact nomatch hread
  · next name hphase =>
      have hread := Step.ofExcept_eq_advance_iff.mp h
      unfold readEquals at hread
      split at hread
      · exact .inr (.inr (.inr (.inr ⟨name, hphase, rfl, hread⟩)))
      · exact nomatch hread

end Machine

end Calculator
