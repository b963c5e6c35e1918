import Calculator.Proofs.Evaluators

/-!
# Running Again

What comes of a text that is run again and again.

A run that fails leaves the cursor behind the token that it complains about, and the next run
goes on from there. Such a run has taken a token in any case, because a statement begins with a
token that is no mark of the end, and the first step of the machine cannot find that token to
lie behind the statement. A run that has a value has come to the mark of the end, where nothing
is left to do. So the failures come first, then at most one value, and then nothing for ever,
and there are no more of them than tokens.

Nothing of a failed run is kept but its cursor and its store. The tokens that are left might as
well be all there are: the descent, which looks at tokens by their index, follows the machine,
which is given only those that are left.

## Main definitions

* `Evaluator.remainder`: A fresh evaluator with the tokens that are left and the same store.
* `Evaluator.Exhausted`: An evaluator that has come to the mark of the end.
* `Evaluator.Stage`: What kind of answer a run gives behind a number of other runs.

## Theorems

* `evaluateFrom_of_not_isEnd`: Before anything but the end of the text, a token is taken.
* `evaluateFrom_rest_of_ok`: An evaluation that does not fail comes to the mark of the end.
* `Evaluator.Steady.run_cases`: The three kinds of runs.
* `Evaluator.Steady.run_remainder`: A run sees only the tokens that are left.
* `Evaluator.Steady.exists_stages`: The runs of an evaluator, one after the other.
* `Evaluator.run_repeatedly`: The runs of a text that is loaded.
-/

namespace Calculator

/-- A statement takes at least one token, whether it has a value or fails, unless the text ends
    where it begins. -/
theorem evaluateStatement_rest_length_lt_of_not_isEnd {token : Token}
    (hend : token.isEnd = false) (memory : Memory) (rest : List Token) :
    (evaluateStatement memory (token :: rest)).rest.length < (token :: rest).length := by
  rw [evaluateStatement, Machine.run]
  split
  · exact Nat.lt_succ_of_le (Machine.run_rest_suffix _ _).length_le
  · next hstep => exact absurd hstep (Machine.start_step_ne_finish _ _ _ _ _)
  · -- The token that is complained about is taken.
    rw [restAfterFailure, if_neg (ne_true_of_eq_false hend)]
    exact Nat.lt_succ_self _

/-- Before anything but the end of the text, an evaluation has a value or fails, and takes a
    token. -/
theorem evaluateFrom_of_not_isEnd {token : Token} (hend : token.isEnd = false)
    (memory : Memory) (last : Option Binary64) (rest : List Token) :
    (evaluateFrom memory last (token :: rest)).result ≠ .ok none ∧
      (evaluateFrom memory last (token :: rest)).rest.length < (token :: rest).length := by
  have hlt := evaluateStatement_rest_length_lt_of_not_isEnd hend memory rest
  cases hfirst : (evaluateStatement memory (token :: rest)).result with
  | error e =>
      rw [evaluateFrom_of_error hend hfirst]
      exact ⟨(nomatch ·), hlt⟩
  | ok value =>
      rw [evaluateFrom_of_ok hend hfirst]
      exact ⟨evaluateFrom_some_ne_none _ _ _,
        Nat.lt_of_le_of_lt (evaluateFrom_rest_suffix _ _ _).length_le hlt⟩

/-- An evaluation that does not fail comes to the mark of the end. -/
theorem evaluateFrom_rest_of_ok {memory : Memory} {last last' : Option Binary64}
    {tokens : List Token} (h : (evaluateFrom memory last tokens).result = .ok last') :
    ∀ token ∈ (evaluateFrom memory last tokens).rest.head?, token.isEnd = true := by
  fun_induction evaluateFrom memory last tokens with
  | case1 => exact fun _ hmem => by cases hmem
  | case2 memory last token rest hend =>
      intro token' hmem
      rw [← Option.some.inj hmem]
      exact hend
  | case3 => cases h
  | case4 memory last token rest hend ended value hvalue hlt ih => exact ih h

/-- What is pending behind a run is what its evaluation has left over. -/
theorem Session.pending_run (s : Session) :
    s.run.session.pending = (evaluate s.store s.pending).rest := by
  have hsuffix : (evaluate s.store s.pending).rest <:+ s.tokens :=
    (evaluateFrom_rest_suffix _ _ _).trans (List.drop_suffix _ _)
  exact (List.suffix_iff_eq_drop.mp hsuffix).symm

/-- The tokens from a place on that is not behind the first mark are marked as well. -/
theorem Descent.Marked.drop {tokens : List Token} (h : Marked tokens) {position : Nat}
    (hinside : position + 1 < tokens.length) : Marked (tokens.drop position) := by
  rcases h with ⟨front, rfl, hfront⟩
  rw [List.length_append] at hinside
  have hle : position ≤ front.length := Nat.le_of_lt_succ (Nat.lt_of_succ_lt_succ hinside)
  refine ⟨front.drop position, List.drop_append_of_le_length hle, fun hmem => ?_⟩
  exact hfront (List.mem_of_mem_drop hmem)

namespace Evaluator

/-- A fresh evaluator with exactly the tokens that have not been evaluated yet, and the same
    store. -/
def remainder (e : Evaluator) : Evaluator :=
  { tokens := e.tokens.drop e.position, position := 0, depth := 0, store := e.store }

/-- The text has been evaluated to its end. -/
def Exhausted (e : Evaluator) : Prop :=
  ∃ token, e.tokens[e.position]? = some token ∧ token.isEnd = true

/-- What kind of answer the run gives that is made of the evaluator `before` behind `count` other
    runs: there are `errors` failures, behind them a value if `total` is larger, and then
    nothing, by which nothing changes any more. -/
structure Stage (errors total count : Nat) (before : Evaluator) (ended : Ended) : Prop where
  failed : count < errors → ∃ error, ended.result = .error error
  valued : errors ≤ count → count < total → ∃ value, ended.result = .ok (some value)
  nothing : total ≤ count →
    ended = { result := .ok none, events := [], evaluator := before }

namespace Stage

variable {errors total count : Nat} {before : Evaluator} {ended : Ended}

-- A failure before a number of runs is one failure more.
theorem of_error {error : EvalError} (h : ended.result = .error error) :
    Stage (errors + 1) (total + 1) 0 before ended where
  failed _ := ⟨error, h⟩
  valued hcount := absurd hcount (Nat.not_succ_le_zero errors)
  nothing hcount := absurd hcount (Nat.not_succ_le_zero total)

theorem succ (h : Stage errors total count before ended) :
    Stage (errors + 1) (total + 1) (count + 1) before ended where
  failed hlt := h.failed (Nat.lt_of_succ_lt_succ hlt)
  valued hle hlt := h.valued (Nat.le_of_succ_le_succ hle) (Nat.lt_of_succ_lt_succ hlt)
  nothing hle := h.nothing (Nat.le_of_succ_le_succ hle)

theorem of_value {value : Binary64} (h : ended.result = .ok (some value)) :
    Stage 0 1 0 before ended where
  failed hlt := absurd hlt (Nat.not_lt_zero 0)
  valued _ _ := ⟨value, h⟩
  nothing hle := absurd hle (Nat.not_succ_le_zero 0)

theorem of_le (hle : errors ≤ total) (hcount : total ≤ count) (before : Evaluator) :
    Stage errors total count before { result := .ok none, events := [], evaluator := before } where
  failed hlt := absurd hlt (by omega)
  valued _ hlt := absurd hlt (by omega)
  nothing _ := rfl

end Stage

namespace Steady

variable {e : Evaluator}

theorem exists_pending (h : e.Steady) :
    ∃ token, e.tokens[e.position]? = some token ∧
      e.session.pending = token :: e.tokens.drop (e.position + 1) := by
  rcases Descent.exists_getElem? (Nat.lt_of_succ_lt h.inside) with ⟨token, htoken⟩
  exact ⟨token, htoken, Descent.drop_eq_cons htoken⟩

/-- A run at the end of the text has nothing to do. -/
theorem run_of_exhausted (h : e.Steady) (hend : e.Exhausted) :
    e.run = .ok { result := .ok none, events := [], evaluator := e } := by
  rcases hend with ⟨token, htoken, hmark⟩
  have hevaluate : evaluate e.session.store e.session.pending =
      { result := .ok none, memory := .ofStore e.store
        rest := e.session.tokens.drop e.position } := by
    have hpending : e.session.pending = token :: e.tokens.drop (e.position + 1) :=
      Descent.drop_eq_cons htoken
    rw [evaluate, hpending, evaluateFrom_of_isEnd hmark, ← hpending]
    rfl
  -- Nothing is taken, so the cursor stays where it is.
  have hrun := Session.run_of_evaluate (Nat.le_of_lt (Nat.lt_of_succ_lt h.inside)) hevaluate
  rw [Evaluator.run, (h.runWith (Nat.le_refl _)).1, hrun]
  rcases e with ⟨tokens, position, depth, store⟩
  obtain rfl : depth = 0 := h.depth_eq
  rfl

/-- A run of a steady evaluator fails and has taken a token, or it has a value and has come to
    the end of the text, or it was there before. -/
theorem run_cases (h : e.Steady) :
    ∃ ended, e.run = .ok ended ∧ ended.evaluator.Steady ∧
      ended.evaluator.tokens = e.tokens ∧
      ((∃ error, ended.result = .error error ∧ e.position < ended.evaluator.position) ∨
        (∃ value, ended.result = .ok (some value) ∧ e.position < ended.evaluator.position ∧
          ended.evaluator.Exhausted) ∨
        e.Exhausted) := by
  rcases h.runWith (Nat.le_refl _) with ⟨hrun, hsteady⟩
  refine ⟨_, hrun, hsteady, rfl, ?_⟩
  rcases h.exists_pending with ⟨token, htoken, hpending⟩
  by_cases hend : token.isEnd = true
  · exact .inr (.inr ⟨token, htoken, hend⟩)
  · rw [Bool.not_eq_true] at hend
    rcases evaluateFrom_of_not_isEnd hend (.ofStore e.store) none (e.tokens.drop (e.position + 1))
      with ⟨hnone, hlt⟩
    rw [← hpending] at hnone hlt
    -- The cursor is told from the number of tokens that are left over.
    have hmoved : e.position < (Ended.ofAnswer e.session.run).evaluator.position := by
      have hlength : e.session.pending.length = e.tokens.length - e.position := List.length_drop
      change e.position <
        e.tokens.length - (evaluate e.store e.session.pending).rest.length
      rw [evaluate]
      omega
    cases hresult : (evaluateFrom (.ofStore e.store) none e.session.pending).result with
    | error error => exact .inl ⟨error, hresult, hmoved⟩
    | ok last =>
        cases last with
        | none => exact absurd hresult hnone
        | some value =>
            refine .inr (.inl ⟨value, hresult, hmoved, ?_⟩)
            -- What is left over begins with a mark of the end.
            rcases hsteady.exists_pending with ⟨mark, hmark, hleft⟩
            have hrest : (evaluate e.store e.session.pending).rest = _ :=
              e.session.pending_run.symm.trans hleft
            refine ⟨mark, hmark, evaluateFrom_rest_of_ok hresult mark ?_⟩
            rw [evaluate] at hrest
            rw [hrest]
            rfl

/-- A run sees only the tokens that are left: it has the result, the reports and the store of a
    run that is given these tokens and no others. -/
theorem run_remainder (h : e.Steady) {ended : Ended} (hrun : e.run = .ok ended) :
    ∃ fresh, e.remainder.run = .ok fresh ∧ fresh.result = ended.result ∧
      fresh.events = ended.events ∧ fresh.evaluator.store = ended.evaluator.store := by
  have hinside := h.inside
  have hsteady : e.remainder.Steady := by
    refine ⟨h.marked.drop h.inside, ?_, rfl⟩
    change 0 + 1 < (e.tokens.drop e.position).length
    rw [List.length_drop]
    omega
  rw [Evaluator.run, (h.runWith (Nat.le_refl _)).1, Except.ok.injEq] at hrun
  subst hrun
  exact ⟨_, (hsteady.runWith (Nat.le_refl _)).1, rfl, rfl, rfl⟩

/-- Behind the end of the text, an evaluator stays what it is. -/
theorem afterAll_of_exhausted (h : e.Steady) (hend : e.Exhausted) (count : Nat) :
    e.afterAll (List.replicate count .run) = .ok e := by
  induction count with
  | zero => rfl
  | succ count ih =>
      rw [List.replicate_succ, afterAll, List.foldlM_cons, after, h.run_of_exhausted hend]
      exact ih

/-- The runs of a steady evaluator, one after the other: they end in no fault, first some fail,
    then one may have a value, and then nothing changes any more. Each of them but the last kind
    takes a token, so that there are no more of them than there are tokens. -/
theorem exists_stages (h : e.Steady) :
    ∃ errors total, errors ≤ total ∧ total ≤ errors + 1 ∧
      e.position + total + 1 < e.tokens.length ∧
      ∀ count, ∃ before ended, e.afterAll (List.replicate count .run) = .ok before ∧
        before.Steady ∧ before.run = .ok ended ∧ Stage errors total count before ended ∧
        (ended.result ≠ .ok none → before.position < ended.evaluator.position) := by
  induction hleft : e.tokens.length - e.position using Nat.strongRecOn generalizing e with
  | _ left ih =>
      have hinside := h.inside
      -- At the end of the text every run is like the first.
      have hend {e : Evaluator} (h : e.Steady) (hend : e.Exhausted) (count : Nat) :
          ∃ before ended, e.afterAll (List.replicate count .run) = .ok before ∧
            before.Steady ∧ before.run = .ok ended ∧
            ended = { result := .ok none, events := [], evaluator := before } :=
        ⟨e, _, h.afterAll_of_exhausted hend count, h, h.run_of_exhausted hend, rfl⟩
      rcases h.run_cases with ⟨ended, hrun, hsteady, htokens, hcases⟩
      have hlater (count : Nat) : e.afterAll (List.replicate (count + 1) .run) =
          ended.evaluator.afterAll (List.replicate count .run) := by
        rw [List.replicate_succ, afterAll, List.foldlM_cons, after, hrun]
        rfl
      rcases hcases with ⟨error, herror, hmoved⟩ | ⟨value, hvalue, hmoved, hexhausted⟩ | hexhausted
      · -- The run fails, and less is left for the later ones.
        rcases ih _ (by rw [htokens]; omega) hsteady rfl with
          ⟨errors, total, hle, hge, hlt, hstages⟩
        rw [htokens] at hlt
        refine ⟨errors + 1, total + 1, by omega, by omega, by omega, fun count => ?_⟩
        cases count with
        | zero => exact ⟨e, ended, rfl, h, hrun, .of_error herror, fun _ => hmoved⟩
        | succ count =>
            rw [hlater]
            rcases hstages count with ⟨before, ended', hbefore, hsteady', hrun', hstage, hmoves⟩
            exact ⟨before, ended', hbefore, hsteady', hrun', hstage.succ, hmoves⟩
      · -- The run has a value, and nothing is left for the later ones.
        have hinside' := hsteady.inside
        rw [htokens] at hinside'
        refine ⟨0, 1, by omega, by omega, by omega, fun count => ?_⟩
        cases count with
        | zero => exact ⟨e, ended, rfl, h, hrun, .of_value hvalue, fun _ => hmoved⟩
        | succ count =>
            rw [hlater]
            rcases hend hsteady hexhausted count with ⟨before, _, hbefore, hsteady', hrun', rfl⟩
            exact ⟨before, _, hbefore, hsteady', hrun', .of_le (Nat.zero_le 1) (by omega) before,
              fun h => absurd rfl h⟩
      · -- There was nothing to do, and there never will be.
        refine ⟨0, 0, by omega, by omega, by omega, fun count => ?_⟩
        rcases hend h hexhausted count with ⟨before, _, hbefore, hsteady', hrun', rfl⟩
        exact ⟨before, _, hbefore, hsteady', hrun', .of_le (Nat.zero_le 0) (by omega) before,
          fun h => absurd rfl h⟩

end Steady

/-- The runs of a text that is loaded, whatever the store is. None of them ends in a fault. At
    first some fail, then there may be one with a value, and behind them nothing is evaluated,
    nothing is reported and nothing changes any more; together those that fail and the one with a
    value are no more than the tokens of the text. Each of these moves the cursor. And each run
    has the result, the reports and the store of a run that is given only the tokens from the
    cursor on. -/
theorem run_repeatedly (e : Evaluator) (text : String) :
    ∃ errors total, errors ≤ total ∧ total ≤ errors + 1 ∧
      total ≤ (Scanner.ofText text).tokens.length ∧
      ∀ count, ∃ before ended,
        (e.load text).afterAll (List.replicate count .run) = .ok before ∧
          before.run = .ok ended ∧ Stage errors total count before ended ∧
          (ended.result ≠ .ok none → before.position < ended.evaluator.position) ∧
          ∃ fresh, before.remainder.run = .ok fresh ∧ fresh.result = ended.result ∧
            fresh.events = ended.events ∧
            fresh.evaluator.store = ended.evaluator.store := by
  rcases (e.steady_load text).exists_stages with ⟨errors, total, hle, hge, hlt, hstages⟩
  refine ⟨errors, total, hle, hge, ?_, fun count => ?_⟩
  · have hlength : (e.load text).tokens.length = (Scanner.ofText text).tokens.length + 2 :=
      List.length_append
    have hposition : (e.load text).position = 0 := rfl
    omega
  · rcases hstages count with ⟨before, ended, hbefore, hsteady, hrun, hstage, hmoves⟩
    exact ⟨before, ended, hbefore, hrun, hstage, hmoves, hsteady.run_remainder hrun⟩

end Evaluator

end Calculator
