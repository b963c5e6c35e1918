import Calculator.Proofs.Refusal
import Calculator.Session

/-!
# Evaluation in Two Phases

A session evaluates a text as if it read all of it before evaluating any of it.

The machine reads and evaluates at once, so a failure of evaluation may come before a
mistake further on is even seen. Where there is no mistake, nothing shows that reading
and evaluating were one: the result, the assignments in their order and the store are
those of the trees of the text, evaluated from left to right. Where there is one, the
text has no value, whichever of the two comes first.

## Main definitions

* `EvaluationEnd.outcome`: How an evaluation ends, without the tokens left over.
* `EvalError.IsOfTree`: The failures that a tree can have.

## Theorems

* `Session.eval_result_of_statement`: A text of one statement has the value of its tree.
* `outcome_evaluateFrom_of_parseProgram`: What can be read is evaluated as its trees
  are.
* `evaluateFrom_failed_of_parseProgram`: What cannot be read fails.
* `evaluateTrees_failsAsTree`: Trees fail on names without a number and on zero divisors.
* `run_load_eq_evaluateTrees`: The two phases for a text in a session, with its reports
  and the store.
-/

namespace Calculator

/-- Outside of everything, a value behind which no operation follows ends the
    statement. -/
theorem Machine.outcome_run_finish {memory : Memory} {value : Binary64} {rest : List Token}
    (hends : EndsStatement rest) :
    (run { memory, enclosing := [], phase := .operator none (.number value) } rest).outcome =
      (.ok (value, rest), memory) := by
  cases rest with
  | nil => exact hends.elim
  | cons token rest =>
      simp only [run, step, readOperator, hends.1, hends.2, Operand.toNumber, closeSum,
        closeAssignments, WaitingSum.total]
      rfl

/-- A statement before a token that does not go on with it is evaluated as its tree is,
    up to the limit. -/
theorem outcome_evaluateStatement {s : Statement} {rest : List Token}
    (hends : EndsStatement rest) (hdetached : Detached s.tokens rest) (memory : Memory) :
    (evaluateStatement memory (s.tokens ++ rest)).outcome =
      (s.evaluateWithin nestingLimit memory).andThen
        fun value memory' => (.ok (value, rest), memory') := by
  rw [evaluateStatement, Machine.start, s.run_tokens memory [] hends hdetached,
    List.length_nil, Nat.sub_zero]
  simp only [Machine.outcome_run_finish hends]

/-- How an evaluation ends, without the tokens that it leaves over. -/
def EvaluationEnd.outcome (ended : EvaluationEnd) : Evaluated (Option Binary64) :=
  (ended.result, ended.memory)

theorem StatementEnd.of_outcome_ok {ended : StatementEnd} {value : Binary64}
    {rest : List Token} {memory : Memory} (h : ended.outcome = (.ok (value, rest), memory)) :
    ended.result = .ok value ∧ ended.memory = memory ∧ ended.rest = rest := by
  rcases ended with ⟨e | value', memory', rest'⟩
  · cases h
  · cases h
    exact ⟨rfl, rfl, rfl⟩

theorem StatementEnd.of_outcome_error {ended : StatementEnd} {e : EvalError} {memory : Memory}
    (h : ended.outcome = (.error e, memory)) :
    ended.result = .error e ∧ ended.memory = memory := by
  rcases ended with ⟨e' | value', memory', rest'⟩
  · cases h
    exact ⟨rfl, rfl⟩
  · cases h

/-- An evaluation goes on where its first statement ends. -/
theorem outcome_evaluateFrom {token : Token} {rest rest' : List Token} {memory : Memory}
    {x : Evaluated Binary64} (hend : token.isEnd = false)
    (h : (evaluateStatement memory (token :: rest)).outcome =
      x.andThen fun value memory' => (.ok (value, rest'), memory'))
    (last : Option Binary64) :
    (evaluateFrom memory last (token :: rest)).outcome =
      x.andThen fun value memory' => (evaluateFrom memory' (some value) rest').outcome := by
  rcases x with ⟨e | value, memory'⟩
  · rcases StatementEnd.of_outcome_error h with ⟨hresult, rfl⟩
    rw [evaluateFrom_of_error hend hresult]
    rfl
  · rcases StatementEnd.of_outcome_ok h with ⟨hresult, rfl, rfl⟩
    rw [evaluateFrom_of_ok hend hresult]
    rfl

/-- What is left over behind a statement still has the end of the text. -/
theorem Statement.endOfText_mem_rest {s : Statement} {tokens rest : List Token}
    (hend : .endOfText ∈ tokens) (h : s.tokens ++ rest = tokens) : .endOfText ∈ rest := by
  rw [← h, List.mem_append] at hend
  exact hend.resolve_left s.endOfText_notMem

/-- A first statement is evaluated as its tree is, up to the limit, and what stands behind
    it is evaluated next. -/
theorem outcome_evaluateFrom_of_tokens_within {s : Statement} {rest : List Token}
    (hends : EndsStatement rest) (hdetached : Detached s.tokens rest) (memory : Memory)
    (last : Option Binary64) :
    (evaluateFrom memory last (s.tokens ++ rest)).outcome =
      (s.evaluateWithin nestingLimit memory).andThen fun value memory' =>
        (evaluateFrom memory' (some value) rest).outcome := by
  have hstatement := outcome_evaluateStatement hends hdetached memory
  have hmark := s.endOfText_notMem
  cases htokens : s.tokens with
  | nil => exact absurd htokens s.tokens_ne_nil
  | cons token tokens =>
      rw [htokens] at hstatement hmark
      -- A tree has no end of the text among its tokens, so the statements go on with it.
      have htoken : token.isEnd = false := by
        refine eq_false_of_ne_true fun h => hmark ?_
        rw [Token.isEnd_iff.mp h]
        exact List.mem_cons_self
      exact outcome_evaluateFrom htoken hstatement last

/-- Within the limit, a first statement is evaluated as its tree is. -/
theorem outcome_evaluateFrom_of_tokens {s : Statement} {rest : List Token}
    (hnesting : s.nesting ≤ nestingLimit) (hends : EndsStatement rest)
    (hdetached : Detached s.tokens rest) (memory : Memory) (last : Option Binary64) :
    (evaluateFrom memory last (s.tokens ++ rest)).outcome =
      (s.evaluate memory).andThen fun value memory' =>
        (evaluateFrom memory' (some value) rest).outcome := by
  rw [outcome_evaluateFrom_of_tokens_within hends hdetached,
    s.evaluateWithin_of_nesting_le memory hnesting]

/-- A text that is one statement within the limit has the value of its tree, or its failure. -/
theorem Session.eval_result_of_statement (s : Session) {text : String} {tree : Statement}
    (hnesting : tree.nesting ≤ nestingLimit)
    (htokens : tokenize text = tree.tokens ++ [.endOfText, .endOfText]) :
    (s.eval text).result = (tree.evaluate (.ofStore s.store)).1.map some := by
  have hresult : (s.eval text).result =
      (evaluateFrom (.ofStore s.store) none (tokenize text)).outcome.1 := rfl
  rw [hresult, htokens, outcome_evaluateFrom_of_tokens hnesting (endsStatement_endOfText _)
    (detached_endOfText _ _)]
  rcases tree.evaluate (.ofStore s.store) with ⟨e | value, memory⟩
  · rfl
  · -- Behind the statement nothing is left but the end of the text.
    have hmark := evaluateFrom_of_isEnd (Token.isEnd_iff.mpr rfl) memory (some value) [.endOfText]
    exact congrArg EvaluationEnd.result hmark

/-- A first statement that can be read is evaluated as its tree is, and what it leaves
    over is evaluated behind it. -/
theorem outcome_evaluateFrom_of_parseStatement {tokens rest : List Token} {s : Statement}
    {hlt : rest.length < tokens.length} (hend : .endOfText ∈ tokens)
    (h : parseStatement nestingLimit tokens = some (s, ⟨rest, hlt⟩)) (memory : Memory)
    (last : Option Binary64) :
    .endOfText ∈ rest ∧ (evaluateFrom memory last tokens).outcome =
      (s.evaluate memory).andThen fun value memory' =>
        (evaluateFrom memory' (some value) rest).outcome := by
  rcases parseStatement_fits _ _ h with ⟨hfits, hproduct, hsum⟩
  have htokens := parseStatement_tokens _ _ h
  have hmem := Statement.endOfText_mem_rest hend htokens
  have hends := endsStatement_of_ne_nil (List.ne_nil_of_mem hmem) hproduct hsum
  rw [← htokens]
  exact ⟨hmem, outcome_evaluateFrom_of_tokens hfits.nesting_le hends hfits.detached memory last⟩

/-- What can be read is evaluated as its trees are. -/
theorem outcome_evaluateFrom_of_parseProgram {tokens : List Token} {trees : List Statement}
    (hend : .endOfText ∈ tokens) (h : parseProgram tokens = some trees) (memory : Memory)
    (last : Option Binary64) :
    (evaluateFrom memory last tokens).outcome = evaluateTrees memory last trees := by
  fun_induction parseProgram tokens generalizing trees memory last with
  | case1 => exact absurd hend List.not_mem_nil
  | case2 token rest htoken =>
      cases h
      rw [evaluateFrom_of_isEnd htoken]
      rfl
  | case3 => cases h
  -- One statement is parsed and evaluated alike, and the rest follows from the memory behind it.
  | case4 token rest htoken s rest' hlt hfirst hlt' ih =>
      rcases Option.map_eq_some_iff.mp h with ⟨trees', htrees, rfl⟩
      rcases outcome_evaluateFrom_of_parseStatement hend hfirst memory last with ⟨hmem, hrun⟩
      rw [hrun, evaluateTrees]
      congr 1
      funext value memory'
      exact ih hmem htrees memory' (some value)

/-- What cannot be read fails. -/
theorem evaluateFrom_failed_of_parseProgram {tokens : List Token}
    (hend : .endOfText ∈ tokens) (h : parseProgram tokens = none) (memory : Memory)
    (last : Option Binary64) : (evaluateFrom memory last tokens).outcome.Failed := by
  fun_induction parseProgram tokens generalizing memory last with
  | case1 => cases h
  | case2 => cases h
  | case3 token rest htoken hfirst =>
      have hfailed := run_failed_of_parseStatement nestingLimit (token :: rest) memory []
        (Nat.zero_add _) hfirst
      rcases StatementEnd.failed_outcome_iff.mp hfailed with ⟨e, he⟩
      rw [evaluateFrom_of_error (eq_false_of_ne_true htoken) he]
      exact ⟨e, rfl⟩
  -- The statement in front may fail by its value. If it does not, the ones behind it fail.
  | case4 token rest htoken s rest' hlt hfirst hlt' ih =>
      have hrest := Option.map_eq_none_iff.mp h
      rcases outcome_evaluateFrom_of_parseStatement hend hfirst memory last with ⟨hmem, hrun⟩
      rw [hrun]
      exact Evaluated.failed_andThen _
        (fun value memory' => ih hmem hrest memory' (some value))

/-- A failure that a tree can have: a name without a number, or a zero divisor. -/
def EvalError.IsOfTree : EvalError → Prop
  | .undefinedVariable _ => True
  | .divisionByZero _ divisor => divisor.isZero = true
  | _ => False

/-- An evaluation that fails, if it does, with a failure that a tree can have. -/
def Evaluated.FailsAsTree {α : Type} (x : Evaluated α) : Prop :=
  ∀ e, x.1 = .error e → e.IsOfTree

theorem Evaluated.failsAsTree_ok {α : Type} (a : α) (memory : Memory) :
    Evaluated.FailsAsTree (.ok a, memory) :=
  fun _ h => nomatch h

/-- Going on fails as the first evaluation does or as the second one does. -/
theorem Evaluated.FailsAsTree.andThen {α β : Type} {x : Evaluated α}
    {f : α → Memory → Evaluated β} (hx : x.FailsAsTree)
    (hf : ∀ a memory, (f a memory).FailsAsTree) : (x.andThen f).FailsAsTree := by
  rcases x with ⟨e | a, memory⟩
  · intro e' h
    cases h
    exact hx e rfl
  · exact hf a memory

/-- An operation fails only on a zero divisor. -/
theorem ProductOp.apply_failsAsTree (op : ProductOp) (x y : Binary64) (memory : Memory) :
    Evaluated.FailsAsTree (op.apply x y, memory) := by
  match op with
  | .times => exact Evaluated.failsAsTree_ok _ _
  | .over =>
      intro e h
      simp only [ProductOp.apply] at h
      split at h
      · next hzero =>
          rw [← Except.error.inj h]
          exact hzero
      · cases h

mutual

theorem Statement.evaluate_failsAsTree (s : Statement) (memory : Memory) :
    (s.evaluate memory).FailsAsTree := by
  match s with
  | .assign _ _ value =>
      exact (value.evaluate_failsAsTree memory).andThen
        (fun _ _ => Evaluated.failsAsTree_ok _ _)
  | .sum s => exact s.evaluate_failsAsTree memory

theorem SumTree.evaluate_failsAsTree (s : SumTree) (memory : Memory) :
    (s.evaluate memory).FailsAsTree := by
  match s with
  | .single p => exact p.evaluate_failsAsTree memory
  | .join s _ p =>
      refine (s.evaluate_failsAsTree memory).andThen (fun _ memory' => ?_)
      exact (p.evaluate_failsAsTree memory').andThen
        (fun _ _ => Evaluated.failsAsTree_ok _ _)

theorem ProductTree.evaluate_failsAsTree (p : ProductTree) (memory : Memory) :
    (p.evaluate memory).FailsAsTree := by
  match p with
  | .single f => exact f.evaluate_failsAsTree memory
  | .join p op f =>
      refine (p.evaluate_failsAsTree memory).andThen (fun x memory' => ?_)
      exact (f.evaluate_failsAsTree memory').andThen (fun y => op.apply_failsAsTree x y)

/-- A factor fails only on a name without a number and on a zero divisor. -/
theorem Factor.evaluate_failsAsTree (f : Factor) (memory : Memory) :
    (f.evaluate memory).FailsAsTree := by
  match f with
  | .number _ => exact Evaluated.failsAsTree_ok _ _
  | .negated _ => exact Evaluated.failsAsTree_ok _ _
  | .name name =>
      intro e h
      rw [Factor.evaluate] at h
      split at h
      · cases h
      · rw [← Except.error.inj h]
        trivial
  | .group s => exact s.evaluate_failsAsTree memory

end

/-- Statements fail only on a name without a number and on a zero divisor. -/
theorem evaluateTrees_failsAsTree (trees : List Statement) (memory : Memory)
    (last : Option Binary64) : (evaluateTrees memory last trees).FailsAsTree := by
  induction trees generalizing memory last with
  | nil => exact Evaluated.failsAsTree_ok _ _
  | cons s rest ih =>
      exact (s.evaluate_failsAsTree memory).andThen (fun value memory' => ih memory' (some value))

/-- Statements have no value only where there are none. -/
theorem evaluateTrees_ne_none (trees : List Statement) (memory : Memory) (value : Binary64) :
    (evaluateTrees memory (some value) trees).1 ≠ .ok none := by
  induction trees generalizing memory value with
  | nil => exact fun h => by cases h
  | cons s rest ih =>
      rw [evaluateTrees]
      rcases s.evaluate memory with ⟨e | value', memory'⟩
      · exact fun h => by cases h
      · exact ih memory' value'

/-- A run has nothing to say exactly where there are no statements. -/
theorem evaluateTrees_eq_none_iff (trees : List Statement) (memory : Memory) :
    (evaluateTrees memory none trees).1 = .ok none ↔ trees = [] := by
  refine ⟨fun h => ?_, fun h => by rw [h, evaluateTrees]⟩
  cases trees with
  | nil => rfl
  | cons s rest =>
      rw [evaluateTrees] at h
      rcases hs : s.evaluate memory with ⟨e | value, memory'⟩
      · rw [hs] at h
        cases h
      · rw [hs] at h
        exact absurd h (evaluateTrees_ne_none rest memory' value)

/-- The messages of the failures that a tree can have. -/
theorem EvalError.IsOfTree.message {e : EvalError} (h : e.IsOfTree) :
    (∃ name, e.message = "undefined variable: " ++ name) ∨
      ∃ x y : Binary64, y.isZero = true ∧
        e.message = "Attempted division by zero: " ++ x.text ++ "/" ++ y.text := by
  cases e with
  | undefinedVariable name => exact .inl ⟨name, rfl⟩
  | divisionByZero x y => exact .inr ⟨x, y, h, rfl⟩
  | _ => exact h.elim

theorem endOfText_mem_tokenize (text : String) : .endOfText ∈ tokenize text :=
  List.mem_append_right _ List.mem_cons_self

/-- A text is evaluated in a session as if it were read before any of it is evaluated.
    If it can be read, the result, the assignments in their order and the store are those
    of its trees, and a failure is that of a name without a number or of a zero divisor.
    If it cannot be read, it fails. -/
theorem run_load_eq_evaluateTrees (s : Session) (text : String) :
    match parseProgram (tokenize text) with
    | some trees =>
        let reference := evaluateTrees (.ofStore s.store) none trees
        let answer := (s.load text).run
        answer.result = reference.1 ∧
          answer.events =
            reference.2.assignments.map .assigned ++ Session.resultEvents reference.1 ∧
          answer.session.store = Session.recordResult reference.2.store reference.1 ∧
          (reference.1 = .ok none ↔ trees = []) ∧
          ∀ e, reference.1 = .error e →
            (∃ name, e.message = "undefined variable: " ++ name) ∨
              ∃ x y : Binary64, y.isZero = true ∧
                e.message = "Attempted division by zero: " ++ x.text ++ "/" ++ y.text
    | none => ∃ e, (s.load text).run.result = .error e := by
  have hmem := endOfText_mem_tokenize text
  -- Results, log and store are all read off one outcome, which the two evaluations share.
  cases hparse : parseProgram (tokenize text) with
  | none =>
      rcases evaluateFrom_failed_of_parseProgram hmem hparse (.ofStore s.store) none with ⟨e, he⟩
      exact ⟨e, he⟩
  | some trees =>
      have houtcome := outcome_evaluateFrom_of_parseProgram hmem hparse (.ofStore s.store) none
      have hresult := congrArg Prod.fst houtcome
      have hmemory := congrArg Prod.snd houtcome
      refine ⟨hresult, ?_, ?_, evaluateTrees_eq_none_iff trees _, fun e he => ?_⟩
      · rw [← hresult, ← hmemory]
        rfl
      · rw [← hresult, ← hmemory]
        rfl
      · exact (evaluateTrees_failsAsTree trees _ none e he).message

end Calculator
