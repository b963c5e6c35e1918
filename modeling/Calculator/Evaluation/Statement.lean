import Calculator.Evaluation.Machine

/-!
# Evaluating Statements

The machine run on a list of tokens, one statement after the other.

Nothing marks the end of a statement but the first token that cannot continue it, so
the tokens left over by one statement are where the next begins. Tokens end with the
mark of the end of the text. That mark is looked at and never taken, so a failure at
the end leaves it in place; any other token that a failure complains about is taken,
and a later evaluation begins behind it.

## Main definitions

* `Machine.run`: One statement, from any state inside it.
* `evaluateStatement`: One statement, from its beginning.
* `evaluate`: Statements up to the end of the text or to the first failure.

## Theorems

* `run_rest_suffix`: What is left over is an end of what there was.
* `evaluateStatement_rest_length_lt`: A statement that has a value takes a token.
* `evaluateFrom_of_isEnd`, `evaluateFrom_of_error`, `evaluateFrom_of_ok`: Evaluation
  follows the end of its first statement.
* `evaluateFrom_rest_suffix`: What an evaluation leaves over.
* `evaluateFrom_some_ne_none`: Behind a statement there is a value or a failure.
-/

namespace Calculator

/-- How a statement ends: its value or its failure, the memory after it, and the
    tokens that it leaves over. -/
structure StatementEnd where
  result : Except EvalError Binary64
  memory : Memory
  rest : List Token

/-- The tokens left over after a failure at a token: the token is taken, unless it
    marks the end of the text. -/
def restAfterFailure (token : Token) (rest : List Token) : List Token :=
  if token.isEnd then token :: rest else rest

/-- Run the machine to the end of its statement. -/
def Machine.run : Machine → List Token → StatementEnd
  | m, [] => { result := .error .unexpectedEnd, memory := m.memory, rest := [] }
  | m, token :: rest =>
      match m.step token (rest.headD .endOfText) with
      | .advance m' => m'.run rest
      | .finish memory value => { result := .ok value, memory, rest := token :: rest }
      | .fail memory e =>
          { result := .error e, memory, rest := restAfterFailure token rest }

/-- Evaluate the statement at the beginning of some tokens. -/
def evaluateStatement (memory : Memory) (tokens : List Token) : StatementEnd :=
  (Machine.start memory).run tokens

/-- A failure leaves over an end of the tokens that there were. -/
theorem restAfterFailure_suffix (token : Token) (rest : List Token) :
    restAfterFailure token rest <:+ token :: rest := by
  unfold restAfterFailure
  split
  · exact List.suffix_refl _
  · exact List.suffix_cons _ _

/-- What a statement leaves over is an end of the tokens that there were. -/
theorem Machine.run_rest_suffix (m : Machine) (tokens : List Token) :
    (m.run tokens).rest <:+ tokens := by
  induction tokens generalizing m with
  | nil => exact List.suffix_refl _
  | cons token rest ih =>
      unfold Machine.run
      split
      · -- The token is taken, and the rest of the run leaves over an end of the rest.
        exact List.IsSuffix.trans (ih _) (List.suffix_cons _ _)
      · -- The token lies behind the statement and is left over with all that follows.
        exact List.suffix_refl _
      · exact restAfterFailure_suffix _ _

theorem Step.ofExcept_ne_finish (memory memory' : Memory) (r : Except EvalError Machine)
    (value : Binary64) : Step.ofExcept memory r ≠ .finish memory' value := by
  cases r <;> exact nofun

/-- A statement does not end at its first token. -/
theorem Machine.start_step_ne_finish (memory memory' : Memory) (token ahead : Token)
    (value : Binary64) : (start memory).step token ahead ≠ .finish memory' value :=
  Step.ofExcept_ne_finish _ _ _ _

/-- A statement that has a value takes at least one token. -/
theorem evaluateStatement_rest_length_lt {memory : Memory} {tokens : List Token}
    {value : Binary64} (h : (evaluateStatement memory tokens).result = .ok value) :
    (evaluateStatement memory tokens).rest.length < tokens.length := by
  cases tokens with
  | nil => exact nomatch h
  | cons token rest =>
      unfold evaluateStatement Machine.run at h ⊢
      -- The first token cannot end the statement, and a failure has no value.
      split
      · exact Nat.lt_succ_of_le (Machine.run_rest_suffix _ _).length_le
      · next hstep => exact absurd hstep (Machine.start_step_ne_finish _ _ _ _ _)
      · next hstep => rw [hstep] at h; exact nomatch h

/-- How an evaluation ends: the value of the last statement if there was one, or the
    first failure, the memory after it, and the tokens that it leaves over. -/
structure EvaluationEnd where
  result : Except EvalError (Option Binary64)
  memory : Memory
  rest : List Token

/-- Evaluate statements up to the end of the text or to the first failure, where
    `last` is the value of the statement before them. -/
def evaluateFrom (memory : Memory) (last : Option Binary64) (tokens : List Token) :
    EvaluationEnd :=
  match tokens with
  | [] => { result := .ok last, memory, rest := [] }
  | token :: rest =>
      if token.isEnd then
        { result := .ok last, memory, rest := token :: rest }
      else
        let ended := evaluateStatement memory (token :: rest)
        match h : ended.result with
        | .error e => { result := .error e, memory := ended.memory, rest := ended.rest }
        | .ok value =>
            have : ended.rest.length < (token :: rest).length :=
              evaluateStatement_rest_length_lt h
            evaluateFrom ended.memory (some value) ended.rest
termination_by tokens.length
decreasing_by exact this

/-- At the end of the text nothing is evaluated any more. -/
theorem evaluateFrom_of_isEnd {token : Token} (h : token.isEnd = true) (memory : Memory)
    (last : Option Binary64) (rest : List Token) :
    evaluateFrom memory last (token :: rest) =
      { result := .ok last, memory, rest := token :: rest } := by
  rw [evaluateFrom, if_pos h]

/-- A statement that fails ends the evaluation. -/
theorem evaluateFrom_of_error {token : Token} {rest : List Token} {memory : Memory}
    {e : EvalError} (hend : token.isEnd = false)
    (h : (evaluateStatement memory (token :: rest)).result = .error e)
    (last : Option Binary64) :
    evaluateFrom memory last (token :: rest) =
      { result := .error e
        memory := (evaluateStatement memory (token :: rest)).memory
        rest := (evaluateStatement memory (token :: rest)).rest } := by
  rw [evaluateFrom, if_neg (ne_true_of_eq_false hend)]
  dsimp only
  split
  · next h' =>
      rw [h] at h'
      rw [Except.error.inj h']
  · next h' =>
      rw [h] at h'
      exact nomatch h'

/-- A statement that has a value is followed by the evaluation of what it leaves over. -/
theorem evaluateFrom_of_ok {token : Token} {rest : List Token} {memory : Memory}
    {value : Binary64} (hend : token.isEnd = false)
    (h : (evaluateStatement memory (token :: rest)).result = .ok value)
    (last : Option Binary64) :
    evaluateFrom memory last (token :: rest) =
      evaluateFrom (evaluateStatement memory (token :: rest)).memory (some value)
        (evaluateStatement memory (token :: rest)).rest := by
  rw [evaluateFrom, if_neg (ne_true_of_eq_false hend)]
  dsimp only
  split
  · next h' =>
      rw [h] at h'
      exact nomatch h'
  · next h' =>
      rw [h] at h'
      rw [Except.ok.inj h']

/-- What an evaluation leaves over is an end of the tokens that there were. -/
theorem evaluateFrom_rest_suffix (memory : Memory) (last : Option Binary64)
    (tokens : List Token) : (evaluateFrom memory last tokens).rest <:+ tokens := by
  fun_induction evaluateFrom memory last tokens with
  | case1 => exact List.suffix_refl _
  | case2 => exact List.suffix_refl _
  | case3 => exact Machine.run_rest_suffix _ _
  | case4 memory last token rest hend ended value hvalue hlt ih =>
      exact ih.trans (Machine.run_rest_suffix _ _)

/-- Behind a statement there is a value or a failure. -/
theorem evaluateFrom_some_ne_none (memory : Memory) (value : Binary64) (tokens : List Token) :
    (evaluateFrom memory (some value) tokens).result ≠ .ok none := by
  -- A statement takes more than one token, so the induction is on how many are left.
  induction hlength : tokens.length using Nat.strongRecOn generalizing memory value tokens with
  | _ length ih =>
      cases tokens with
      | nil =>
          rw [evaluateFrom]
          exact fun h => by cases h
      | cons token rest =>
          cases hend : token.isEnd with
          | true =>
              rw [evaluateFrom_of_isEnd hend]
              exact fun h => by cases h
          | false =>
              cases hfirst : (evaluateStatement memory (token :: rest)).result with
              | error e =>
                  rw [evaluateFrom_of_error hend hfirst]
                  exact fun h => by cases h
              | ok next =>
                  rw [evaluateFrom_of_ok hend hfirst]
                  exact ih _ (hlength ▸ evaluateStatement_rest_length_lt hfirst) _ next _ rfl

/-- Evaluate statements up to the end of the text or to the first failure, in a store
    with nothing written yet. -/
def evaluate (store : Store) (tokens : List Token) : EvaluationEnd :=
  evaluateFrom (.ofStore store) none tokens

end Calculator
