import Calculator.Proofs.Evaluators
import Calculator.Proofs.Invocations

/-!
# The Statements of a Run

The calls with which a run evaluates its statements, one after the other.

The loop over the statements makes two kinds of calls: one for a statement, and one for itself
behind a statement that has a value. Nothing else calls the loop. So everything that a run
comes to is the loop at some statement, or it is inside the call for a statement, and a run
that fails has made such a call as its last one.

Each of these calls is made with nothing open and with enough fuel, since this holds of the
first one in a sound evaluator and behind every statement again. Therefore it comes to what
the machine makes of the same statement, with the memory of that moment.

## Main definitions

* `Descent.Ready`: Nothing is open, and there is enough fuel.
* `Evaluator.invocation`: The first call of a run.
* `Evaluator.Begins`: A statement that a run comes to.

## Theorems

* `Descent.Ready.expr`: The call for a statement ends as the statement does.
* `Descent.Ready.reaches`: Every statement is ready to begin.
* `Descent.exists_statement`: What is inside a statement is reached from its beginning.
* `Descent.exists_failed_statement`: A run that fails does so in a statement.
* `Evaluator.Sound.exists_run`: A run of a sound evaluator ends as the loop over its statements.
-/

namespace Calculator

namespace Descent

variable {tokens : List Token}

/-- Whether a call is for statements one after the other, and so inside none. -/
def Callee.isProgram : Callee → Bool
  | .program _ => true
  | _ => false

/-- The loop over the statements goes on with nothing open and with enough fuel. -/
structure Ready (tokens : List Token) (fuel : Nat) (s : State) : Prop where
  starts : At tokens [] s
  fuel_le : 4 * (tokens.length - s.position) + 4 ≤ fuel

section

variable {fuel : Nat} {s : State} {last : Option Binary64} {j : Invocation}

/-- The call for a statement ends in no fault, and as the statement does in the memory of that
    moment. -/
theorem Ready.expr (hmarked : Marked tokens) (h : Ready tokens (fuel + 1) s) :
    ∃ r s', Descent.expr tokens fuel s = .ok (r, s') ∧
      evaluateStatement s.memory (tokens.drop s.position) =
        { result := r, memory := s'.memory, rest := tokens.drop s'.position } := by
  rcases expr_eq_evaluateStatement hmarked h.starts (Nat.le_of_succ_le_succ h.fuel_le) with
    ⟨r, s', hout, -, -, hended⟩
  exact ⟨r, s', hout, hended⟩

/-- Behind a statement that has a value, the next one is ready to begin. -/
theorem Ready.next (hmarked : Marked tokens) (h : Ready tokens (fuel + 1) s) {value : Binary64}
    {s' : State} (hvalue : Descent.expr tokens fuel s = .ok (.ok value, s')) :
    Ready tokens fuel s' := by
  have hinside := h.starts.inside
  have hfuel := h.fuel_le
  rcases expr_eq_evaluateStatement hmarked h.starts (Nat.le_of_succ_le_succ hfuel) with
    ⟨r, s'', hout, hstays, htaken, -⟩
  rw [hvalue] at hout
  cases hout
  have hlt := htaken value rfl
  exact ⟨h.starts.of_stays hstays, by omega⟩

/-- Every statement that a run comes to is ready to begin. -/
theorem Ready.reaches (hmarked : Marked tokens) (h : Ready tokens fuel s)
    (hreaches : Reaches tokens ⟨.program last, fuel, s⟩ j) (hj : j.callee.isProgram = true) :
    Ready tokens j.fuel j.state := by
  induction hreaches with
  | refl => exact h
  | tail _ hinvokes ih =>
      -- Only the loop over the statements calls itself.
      cases hinvokes with
      | restOfProgram _ _ hvalue => exact (ih rfl).next hmarked hvalue
      | _ => cases hj

/-- What a run comes to inside a statement, it comes to from the beginning of a statement. -/
theorem exists_statement (hreaches : Reaches tokens ⟨.program last, fuel, s⟩ j)
    (hj : j.callee.isProgram = false) :
    ∃ last' fuel' start,
      Reaches tokens ⟨.program last, fuel, s⟩ ⟨.program last', fuel' + 1, start⟩ ∧
        Invokes tokens ⟨.program last', fuel' + 1, start⟩ ⟨.expr, fuel', start⟩ ∧
        Reaches tokens ⟨.expr, fuel', start⟩ j := by
  induction hreaches with
  | refl => cases hj
  | @tail k j hreaches hinvokes ih =>
      cases hk : k.callee.isProgram with
      | false =>
          rcases ih hk with ⟨last', fuel', start, hprogram, hstatement, hinside⟩
          exact ⟨last', fuel', start, hprogram, hstatement, hinside.tail hinvokes⟩
      -- The last call of the program makes the call for the statement, so it is found from behind.
      | true =>
          cases hinvokes with
          | statement htoken hend => exact ⟨_, _, _, hreaches, .statement htoken hend, .refl⟩
          | restOfProgram _ _ _ => cases hj
          | _ => cases hk

/-- A run that fails has failed in a statement, which was the last that it came to. -/
theorem exists_failed_statement {e : EvalError} {s' : State}
    (h : program tokens fuel last s = .ok (.error e, s')) :
    ∃ last' fuel' start,
      Reaches tokens ⟨.program last, fuel, s⟩ ⟨.program last', fuel' + 1, start⟩ ∧
        Invokes tokens ⟨.program last', fuel' + 1, start⟩ ⟨.expr, fuel', start⟩ ∧
        Descent.expr tokens fuel' start = .ok (.error e, s') := by
  induction fuel generalizing last s with
  | zero => cases h
  | succ fuel ih =>
      rw [program] at h
      cases htoken : tokens[s.position]? with
      | none =>
          rw [bind_apply, Call.andThen, peek, tokenAt, htoken] at h
          cases h
      | some token =>
          rw [peek_bind htoken] at h
          by_cases hend : token.isEnd = true
          · rw [if_pos hend] at h
            cases h
          · rw [if_neg hend] at h
            rw [Bool.not_eq_true] at hend
            rcases of_failed_bind h with hfailed | ⟨value, s₁, hvalue, h⟩
            · exact ⟨_, _, _, .refl, .statement htoken hend, hfailed⟩
            · -- The statement has a value, so a later one fails.
              rcases ih h with ⟨last', fuel', start, hreaches, hstatement, hfailed⟩
              exact ⟨last', fuel', start, .head (.restOfProgram htoken hend hvalue) hreaches,
                hstatement, hfailed⟩

end

end Descent

namespace Evaluator

open Descent (Invokes Reaches)

/-- The first call of a run. -/
def invocation (e : Evaluator) : Descent.Invocation :=
  { callee := .program none
    fuel := e.fuelBound
    state := { position := e.position, depth := e.depth, memory := .ofStore e.store } }

/-- A run comes to a statement that begins in a state, and the loop over the statements makes
    the call for it. -/
def Begins (e : Evaluator) (fuel : Nat) (start : Descent.State) : Prop :=
  ∃ last, Reaches e.tokens e.invocation ⟨.program last, fuel + 1, start⟩ ∧
    Invokes e.tokens ⟨.program last, fuel + 1, start⟩ ⟨.expr, fuel, start⟩

section

variable {e : Evaluator}

/-- The loop over the statements of a sound evaluator ends in no fault, and the run has its
    result and its store. -/
theorem Sound.exists_run (h : e.Sound) :
    ∃ result s ended,
      Descent.program e.tokens e.fuelBound none e.invocation.state = .ok (result, s) ∧
        e.run = .ok ended ∧ ended.result = result ∧
        ended.evaluator.store = Session.recordResult s.memory.store result := by
  rcases Descent.program_eq_evaluateFrom h.marked e.fuelBound none h.steady.starts
    (Nat.le_refl _) with
    ⟨result, s, hout, -, -⟩
  have hrun : e.run = .ok
      { result
        events := s.memory.assignments.map .assigned ++ Session.resultEvents result
        evaluator :=
          { tokens := e.tokens
            position := s.position
            depth := s.depth
            store := Session.recordResult s.memory.store result } } := by
    rw [Evaluator.run, Evaluator.runWith, hout]
  exact ⟨result, s, _, hout, hrun, rfl, rfl⟩

/-- Every statement that a run of a sound evaluator comes to is ready to begin. -/
theorem Sound.ready (h : e.Sound) {fuel : Nat} {start : Descent.State}
    (hbegins : e.Begins fuel start) : Descent.Ready e.tokens (fuel + 1) start := by
  rcases hbegins with ⟨last, hreaches, -⟩
  have hfirst : Descent.Ready e.tokens e.invocation.fuel e.invocation.state :=
    ⟨h.steady.starts, Nat.le_refl _⟩
  exact hfirst.reaches h.marked hreaches rfl

end

end Evaluator

end Calculator
