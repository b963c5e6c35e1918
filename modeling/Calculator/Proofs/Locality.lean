import Calculator.Evaluation.Statement

/-!
# How Far the Machine Looks

What a statement comes to depends on its own tokens and on the one behind them.

A step takes one token and looks at the next. A step with a token that begins no assignment
does not look, and neither does one that ends the statement.

A run is therefore decided by the time it ends. Tokens behind its last look can be added, and
the run takes its course as before, with the new tokens left over behind the old.

## Main definitions

* `Token.looksAhead`: A token that may begin an assignment.

## Theorems

* `Machine.step_eq_of_looksAhead`: Other tokens do not ask for the next one at all.
* `Machine.run_append_of_ok`: A statement that has a value keeps it before more tokens.
-/

namespace Calculator

/-- Whether a token asks for the next one. A name and the word for assignment do, since they may
    begin an assignment. -/
def Token.looksAhead : Token → Bool
  | .name _ => true
  | .letWord => true
  | _ => false

namespace Machine

/-- A token that begins no assignment asks nothing of the next one. -/
theorem step_eq_of_looksAhead (m : Machine) {token : Token} (h : token.looksAhead = false)
    (ahead ahead' : Token) : m.step token ahead = m.step token ahead' := by
  have hread (left : Left) : m.readOperand left token ahead = m.readOperand left token ahead' := by
    cases token with
    | name name => cases h
    | letWord => cases h
    | _ => rfl
  unfold step
  cases m.phase with
  | operand left => simp only [hread]
  | _ => rfl

/-- A step that ends the statement asks nothing of the next token. -/
theorem step_eq_finish_of_ahead {m : Machine} {token ahead : Token} {memory : Memory}
    {value : Binary64} (h : m.step token ahead = .finish memory value) (ahead' : Token) :
    m.step token ahead' = .finish memory value := by
  rw [step] at h ⊢
  split at h
  · exact absurd h (Step.ofExcept_ne_finish _ _ _ _)
  · exact absurd h (Step.ofExcept_ne_finish _ _ _ _)
  · exact h
  · exact absurd h (Step.ofExcept_ne_finish _ _ _ _)
  · exact absurd h (Step.ofExcept_ne_finish _ _ _ _)

/-- A statement that has a value keeps it before more tokens. -/
theorem run_append_of_ok {m : Machine} {tokens : List Token} {value : Binary64}
    (h : (m.run tokens).result = .ok value) (more : List Token) :
    m.run (tokens ++ more) = { m.run tokens with rest := (m.run tokens).rest ++ more } := by
  induction tokens generalizing m with
  | nil => cases h
  | cons token rest ih =>
      cases hstep : m.step token (rest.headD .endOfText) with
      | fail memory e =>
          rw [run, hstep] at h
          cases h
      | finish memory value' =>
          -- The token ahead may be another one now, but a step that finishes does not look at it.
          rw [List.cons_append, run, run, hstep, step_eq_finish_of_ahead hstep]
          rfl
      | advance m' =>
          rw [run, hstep] at h
          cases rest with
          | nil => cases h
          | cons next rest =>
              rw [List.cons_append, run, run, List.cons_append, List.headD_cons, hstep]
              rw [List.headD_cons] at hstep
              rw [hstep]
              exact ih h

end Machine

end Calculator
