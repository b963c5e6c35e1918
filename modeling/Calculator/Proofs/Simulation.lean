import Calculator.Evaluation.Statement
import Calculator.Tree.Evaluation

/-!
# Running the Written Form of a Tree

The machine and the trees give one meaning to the same tokens.

The machine never builds a tree, so there is no state of it that a tree could be
compared with. What can be compared is what is left to do: a machine in front of the
written form of a factor, followed by any other tokens, ends as it would if it were
given the value of the factor and stood in front of those other tokens. Stated over
whatever waits and whatever encloses, this is one induction on the tree, in which each
part hands the rest of the tokens to the next.

Two things about the tokens that follow matter. An operation would go on with the tree
instead of ending it, and an equals sign behind a name would turn the name into the
target of an assignment. `EndsStatement` and `Detached` exclude these, and nothing else
has to be known about what follows.

The machine also refuses to open more than `nestingLimit` parentheses and assignments.
`evaluateWithin` evaluates a tree under that rule, so the comparison holds for trees of
any depth; within the limit it is plain evaluation.

## Main definitions

* `Statement.evaluateWithin`: The value of a statement with a bound on its nesting.
* `StatementEnd.outcome`: How a statement ends, without the tokens that a failure leaves.
* `EndsProduct`, `EndsStatement`: Tokens that do not go on with the product or the
  statement before them.
* `Detached`: Tokens that do not turn a name before them into a target.
* `resume`: How a statement ends that goes on with the value of an operand.

## Theorems

* `Statement.evaluateWithin_of_nesting_le`: The bound is not felt by a statement that
  is nested less deep.
* `Factor.run_tokens`, `ProductTree.run_tokens`, `SumTree.run_tokens`,
  `Statement.run_tokens`: The machine evaluates the written form of a tree.
-/

namespace Calculator

mutual

/-- The value of a statement in a memory, where `room` more parentheses and assignments
    may be opened. -/
def Statement.evaluateWithin (room : Nat) (memory : Memory) :
    Statement → Evaluated Binary64
  | .assign _ name value =>
      if room = 0 then
        (.error .nestedTooDeeply, memory)
      else
        (value.evaluateWithin (room - 1) memory).andThen fun x memory =>
          (.ok x, memory.assign name x)
  | .sum s => s.evaluateWithin room memory

/-- The value of a sum in a memory, with a bound on its nesting. -/
def SumTree.evaluateWithin (room : Nat) (memory : Memory) : SumTree → Evaluated Binary64
  | .single p => p.evaluateWithin room memory
  | .join s op p =>
      (s.evaluateWithin room memory).andThen fun x memory =>
        (p.evaluateWithin room memory).andThen fun y memory => (.ok (op.apply x y), memory)

/-- The value of a product in a memory, with a bound on its nesting. -/
def ProductTree.evaluateWithin (room : Nat) (memory : Memory) :
    ProductTree → Evaluated Binary64
  | .single f => f.evaluateWithin room memory
  | .join p op f =>
      (p.evaluateWithin room memory).andThen fun x memory =>
        (f.evaluateWithin room memory).andThen fun y memory => (op.apply x y, memory)

/-- The value of a factor in a memory, with a bound on its nesting. -/
def Factor.evaluateWithin (room : Nat) (memory : Memory) : Factor → Evaluated Binary64
  | .number value => (.ok value, memory)
  | .negated value => (.ok value.neg, memory)
  | .name name =>
      match memory.store.get? name with
      | some value => (.ok value, memory)
      | none => (.error (.undefinedVariable name), memory)
  | .group s =>
      if room = 0 then (.error .nestedTooDeeply, memory)
      else s.evaluateWithin (room - 1) memory

end

mutual

/-- A statement that is nested within the bound is evaluated as if there were none. -/
theorem Statement.evaluateWithin_of_nesting_le {room : Nat} (memory : Memory)
    (s : Statement) (h : s.nesting ≤ room) :
    s.evaluateWithin room memory = s.evaluate memory := by
  match s with
  | .assign spelled name value =>
      rw [Statement.nesting] at h
      have hroom : room ≠ 0 := by omega
      rw [Statement.evaluateWithin, Statement.evaluate, if_neg hroom,
        value.evaluateWithin_of_nesting_le memory (by omega)]
  | .sum s => exact s.evaluateWithin_of_nesting_le memory h

/-- A sum that is nested within the bound is evaluated as if there were none. -/
theorem SumTree.evaluateWithin_of_nesting_le {room : Nat} (memory : Memory)
    (s : SumTree) (h : s.nesting ≤ room) :
    s.evaluateWithin room memory = s.evaluate memory := by
  match s with
  | .single p => exact p.evaluateWithin_of_nesting_le memory h
  | .join s op p =>
      rw [SumTree.nesting] at h
      have hleft : s.evaluateWithin room memory = s.evaluate memory :=
        s.evaluateWithin_of_nesting_le memory (by omega)
      have hright (memory : Memory) : p.evaluateWithin room memory = p.evaluate memory :=
        p.evaluateWithin_of_nesting_le memory (by omega)
      simp only [SumTree.evaluateWithin, SumTree.evaluate, hleft, hright]

/-- A product that is nested within the bound is evaluated as if there were none. -/
theorem ProductTree.evaluateWithin_of_nesting_le {room : Nat} (memory : Memory)
    (p : ProductTree) (h : p.nesting ≤ room) :
    p.evaluateWithin room memory = p.evaluate memory := by
  match p with
  | .single f => exact f.evaluateWithin_of_nesting_le memory h
  | .join p op f =>
      rw [ProductTree.nesting] at h
      have hleft : p.evaluateWithin room memory = p.evaluate memory :=
        p.evaluateWithin_of_nesting_le memory (by omega)
      have hright (memory : Memory) : f.evaluateWithin room memory = f.evaluate memory :=
        f.evaluateWithin_of_nesting_le memory (by omega)
      simp only [ProductTree.evaluateWithin, ProductTree.evaluate, hleft, hright]

/-- A factor that is nested within the bound is evaluated as if there were none. -/
theorem Factor.evaluateWithin_of_nesting_le {room : Nat} (memory : Memory)
    (f : Factor) (h : f.nesting ≤ room) :
    f.evaluateWithin room memory = f.evaluate memory := by
  match f with
  | .number _ => rfl
  | .negated _ => rfl
  | .name _ => rfl
  | .group s =>
      rw [Factor.nesting] at h
      have hroom : room ≠ 0 := by omega
      rw [Factor.evaluateWithin, Factor.evaluate, if_neg hroom,
        s.evaluateWithin_of_nesting_le memory (by omega)]

end

/-- How a statement ends: its value and the tokens behind it, or its failure, and the
    memory. The tokens that a failure leaves over are no part of it, since a tree does
    not say at which of its tokens it fails. -/
def StatementEnd.outcome (ended : StatementEnd) : Evaluated (Binary64 × List Token) :=
  (ended.result.map (·, ended.rest), ended.memory)

/-- Tokens that do not go on with the product before them. -/
def EndsProduct (rest : List Token) : Prop :=
  ∀ token ∈ rest.head?, token.productOp? = none

/-- Tokens that do not go on with the statement before them: there is one, and it is no
    operation. -/
def EndsStatement : List Token → Prop
  | [] => False
  | token :: _ => token.productOp? = none ∧ token.sumOp? = none

theorem EndsStatement.endsProduct {rest : List Token} (h : EndsStatement rest) :
    EndsProduct rest := by
  cases rest with
  | nil => exact h.elim
  | cons token rest =>
      intro token' htoken
      rw [← Option.some.inj htoken]
      exact h.1

/-- Tokens that do not turn a name at the end of the tokens before them into the target
    of an assignment. -/
def Detached (front back : List Token) : Prop :=
  ∀ name, front.getLast? = some (.name name) → back.head? ≠ some .equals

/-- Only the last tokens decide whether a name is turned into a target. -/
theorem detached_append (front : List Token) {middle back : List Token} (hne : middle ≠ []) :
    Detached (front ++ middle) back ↔ Detached middle back := by
  rw [Detached, Detached, List.getLast?_append, List.getLast?_eq_some_getLast hne,
    Option.some_or]

theorem detached_of_ne_equals {front back : List Token} {token : Token}
    (h : token ≠ .equals) : Detached front (token :: back) :=
  fun _ _ hhead => h (Option.some.inj hhead)

/-- The end of the text goes on with no statement. -/
theorem endsStatement_endOfText (rest : List Token) : EndsStatement (.endOfText :: rest) :=
  ⟨rfl, rfl⟩

theorem detached_endOfText (front rest : List Token) : Detached front (.endOfText :: rest) :=
  detached_of_ne_equals nofun

/-- How a statement ends that goes on with a value in the place of an operand. -/
def resume (left : Left) (enclosing : List Enclosure) (rest : List Token) (value : Binary64)
    (memory : Memory) : Evaluated (Binary64 × List Token) :=
  match left.supply (.number value) with
  | .ok phase => (Machine.run { memory, enclosing, phase } rest).outcome
  | .error e => (.error e, memory)

namespace Evaluated

theorem andThen_assoc {α β γ : Type} (x : Evaluated α) (f : α → Memory → Evaluated β)
    (g : β → Memory → Evaluated γ) :
    (x.andThen f).andThen g = x.andThen fun a memory => (f a memory).andThen g := by
  rcases x with ⟨_ | _, _⟩ <;> rfl

theorem andThen_ok {α β : Type} (a : α) (memory : Memory) (f : α → Memory → Evaluated β) :
    andThen (.ok a, memory) f = f a memory :=
  rfl

theorem andThen_error {α β : Type} (e : EvalError) (memory : Memory)
    (f : α → Memory → Evaluated β) : andThen (.error e, memory) f = (.error e, memory) :=
  rfl

end Evaluated

namespace Machine

/-- A token that moves the machine on is taken. -/
theorem run_of_advance {m m' : Machine} {token : Token} {rest : List Token}
    (h : m.step token (rest.headD .endOfText) = .advance m') :
    m.run (token :: rest) = m'.run rest := by
  rw [run, h]

/-- A token that makes the statement fail ends it. -/
theorem outcome_run_of_fail {m : Machine} {memory : Memory} {e : EvalError} {token : Token}
    {rest : List Token} (h : m.step token (rest.headD .endOfText) = .fail memory e) :
    (m.run (token :: rest)).outcome = (.error e, memory) := by
  rw [run, h]
  rfl

/-- A token that completes an operand goes on with its value. -/
theorem outcome_run_of_supply {m : Machine} (m' : Machine) {left : Left}
    {value : Binary64} {token : Token} {rest : List Token}
    (h : m.step token (rest.headD .endOfText) =
      .ofExcept m'.memory (m'.supply left (.number value))) :
    (m.run (token :: rest)).outcome = resume left m'.enclosing rest value m'.memory := by
  rw [run, h, supply, resume]
  cases left.supply (.number value) <;> rfl

/-- A parenthesis or an assignment is opened if there is room for it. -/
theorem outcome_run_of_enter {m : Machine} (m' : Machine) {enclosure : Enclosure}
    {token : Token} {rest : List Token}
    (h : m.step token (rest.headD .endOfText) = .ofExcept m'.memory (m'.enter enclosure)) :
    (m.run (token :: rest)).outcome =
      if nestingLimit - m'.enclosing.length = 0 then (.error .nestedTooDeeply, m'.memory)
      else
        (run { memory := m'.memory, enclosing := enclosure :: m'.enclosing,
               phase := .operand .start } rest).outcome := by
  rw [run, h, enter]
  by_cases hroom : m'.enclosing.length < nestingLimit
  · rw [if_pos hroom, if_neg (by omega)]
    rfl
  · rw [if_neg hroom, if_pos (by omega)]
    rfl

/-- A name that is read, and not written, is an operand with the number of the name. -/
theorem outcome_run_name {memory : Memory} {enclosing : List Enclosure} {left : Left}
    {name : String} {rest : List Token} (hdetached : Detached [.name name] rest) :
    (run { memory, enclosing, phase := .operand left } (.name name :: rest)).outcome =
      ((Factor.name name).evaluate memory).andThen fun value memory' =>
        resume left enclosing rest value memory' := by
  -- No equals sign follows, so the name is read as a value and not as a target.
  have hahead : rest.headD .endOfText ≠ .equals := by
    have hhead := hdetached name rfl
    cases rest with
    | nil => exact nofun
    | cons token rest =>
        intro heq
        exact hhead (congrArg some heq)
  rw [Factor.evaluate]
  cases hget : memory.store.get? name with
  | none =>
      refine outcome_run_of_fail ?_
      simp only [step, readOperand, hahead, if_false, hget, Step.ofExcept]
  | some value =>
      refine outcome_run_of_supply { memory, enclosing, phase := .operand left } ?_
      simp only [step, readOperand, hahead, if_false, hget]

/-- What closes a sum does not look at the phase. -/
theorem closeSum_phase (memory : Memory) (enclosing : List Enclosure) (phase phase' : Phase)
    (value : Binary64) (token : Token) :
    closeSum { memory, enclosing, phase } value token =
      closeSum { memory, enclosing, phase := phase' } value token :=
  rfl

/-- Where a statement begins, both spellings of an assignment lead to its equals sign. -/
theorem run_target {memory : Memory} {enclosing : List Enclosure} (spelled : Bool)
    {name : String} {rest : List Token} :
    run { memory, enclosing, phase := .operand .start }
      ((if spelled then [.letWord] else []) ++ .name name :: .equals :: rest) =
      run { memory, enclosing, phase := .equals name } (.equals :: rest) := by
  cases spelled with
  | false => exact run_of_advance rfl
  | true =>
      have hword : step { memory, enclosing, phase := .operand .start } .letWord (.name name) =
          .advance { memory, enclosing, phase := .target } := rfl
      simp only [if_true, List.singleton_append]
      rw [run_of_advance hword, run_of_advance rfl]

/-- Behind a complete sum, a machine that waits for its last term may as well hold the
    sum, unless a product follows. -/
theorem run_operator_total {memory : Memory} {enclosing : List Enclosure} {sum : WaitingSum}
    {value : Binary64} {rest : List Token}
    (h : EndsProduct rest) :
    run { memory, enclosing, phase := .operator sum (.number value) } rest =
      run { memory, enclosing, phase := .operator none (.number (sum.total value)) } rest := by
  cases rest with
  | nil => rfl
  | cons token rest =>
      have hop := h token rfl
      -- Without a product to go on with, the waiting sum is only used through its total.
      have hstep : step { memory, enclosing, phase := .operator sum (.number value) } token
          (rest.headD .endOfText) =
          step { memory, enclosing, phase := .operator none (.number (sum.total value)) } token
            (rest.headD .endOfText) := by
        simp only [step, readOperator, hop, Operand.toNumber]
        cases token.sumOp? with
        | none => exact closeSum_phase _ _ _ _ _ _
        | some op => rfl
      rw [run, run, hstep]

/-- An assignment is complete where its right-hand side is. -/
theorem run_operator_assignment {memory : Memory} {enclosing : List Enclosure}
    {name : String} {value : Binary64} {rest : List Token} (hends : EndsStatement rest) :
    run { memory, enclosing := .assignment name :: enclosing,
          phase := .operator none (.number value) } rest =
      run { memory := memory.assign name value, enclosing,
            phase := .operator none (.number value) } rest := by
  cases rest with
  | nil => exact hends.elim
  | cons token rest =>
      simp only [run, step, readOperator, hends.1, hends.2, Operand.toNumber,
        WaitingSum.total, closeSum, closeAssignments]

/-- A closing parenthesis hands the value inside to what waits outside. -/
theorem outcome_run_operator_parenthesis {memory : Memory} {enclosing : List Enclosure}
    {left : Left} {value : Binary64} {rest : List Token} :
    (run { memory, enclosing := .parenthesis left :: enclosing,
           phase := .operator none (.number value) } (.closeParen :: rest)).outcome =
      resume left enclosing rest value memory :=
  outcome_run_of_supply { memory, enclosing, phase := .operator none (.number value) } rfl

/-- A factor behind an operation is multiplied to the product that waits for it. -/
theorem resume_product {memory : Memory} {enclosing : List Enclosure} {sum : WaitingSum}
    {x y : Binary64} {op : ProductOp} {rest : List Token} :
    resume { sum, product := some (.number x, op) } enclosing rest y memory =
      Evaluated.andThen (op.apply x y, memory) fun value memory' =>
        (run { memory := memory', enclosing, phase := .operator sum (.number value) }
          rest).outcome := by
  rw [resume, Left.supply]
  simp only [Operand.toNumber]
  cases op.apply x y <;> rfl

end Machine

mutual

/-- The machine evaluates the written form of a factor, and goes on with its value. -/
theorem Factor.run_tokens (f : Factor) (memory : Memory) (enclosing : List Enclosure)
    (left : Left) {rest : List Token} (hdetached : Detached f.tokens rest) :
    (Machine.run { memory, enclosing, phase := .operand left } (f.tokens ++ rest)).outcome =
      (f.evaluateWithin (nestingLimit - enclosing.length) memory).andThen
        fun value memory' => resume left enclosing rest value memory' := by
  match f with
  | .number value =>
      exact Machine.outcome_run_of_supply { memory, enclosing, phase := .operand left } rfl
  | .negated value =>
      rw [Factor.tokens, List.cons_append, Machine.run_of_advance rfl]
      exact Machine.outcome_run_of_supply { memory, enclosing, phase := .negated left } rfl
  | .name name => exact Machine.outcome_run_name hdetached
  | .group s =>
      rw [Factor.tokens, List.cons_append, List.append_assoc, List.singleton_append,
        Factor.evaluateWithin,
        Machine.outcome_run_of_enter { memory, enclosing, phase := .operand left } rfl]
      by_cases hroom : nestingLimit - enclosing.length = 0
      · rw [if_pos hroom, if_pos hroom, Evaluated.andThen_error]
      · -- Inside, one more is open, and the closing parenthesis ends the statement.
        have hends : EndsStatement (.closeParen :: rest) := ⟨rfl, rfl⟩
        rw [if_neg hroom, if_neg hroom, s.run_tokens memory (.parenthesis left :: enclosing) hends
          (detached_of_ne_equals nofun)]
        simp only [Machine.outcome_run_operator_parenthesis, List.length_cons, Nat.sub_add_eq]

/-- The machine evaluates the written form of a product, and goes on behind it. -/
theorem ProductTree.run_tokens (p : ProductTree) (memory : Memory)
    (enclosing : List Enclosure) (sum : WaitingSum) {rest : List Token}
    (hdetached : Detached p.tokens rest) :
    (Machine.run { memory, enclosing, phase := .operand { sum, product := none } }
      (p.tokens ++ rest)).outcome =
      (p.evaluateWithin (nestingLimit - enclosing.length) memory).andThen
        fun value memory' =>
          (Machine.run { memory := memory', enclosing, phase := .operator sum (.number value) }
            rest).outcome := by
  match p with
  | .single f => exact f.run_tokens memory enclosing _ hdetached
  | .join p op f =>
      rw [ProductTree.tokens] at hdetached ⊢
      have hright : Detached f.tokens rest := by
        rw [← List.singleton_append, ← List.append_assoc] at hdetached
        exact (detached_append _ f.tokens_ne_nil).mp hdetached
      have hleft : Detached p.tokens (op.token :: (f.tokens ++ rest)) :=
        detached_of_ne_equals (by cases op <;> exact nofun)
      rw [List.append_assoc, List.cons_append, p.run_tokens memory enclosing sum hleft,
        ProductTree.evaluateWithin, Evaluated.andThen_assoc]
      congr 1
      funext x memory'
      -- The operation makes the first product wait for the last factor.
      have hstep (ahead : Token) :
          Machine.step { memory := memory', enclosing, phase := .operator sum (.number x) }
            op.token ahead =
            .advance { memory := memory', enclosing,
                       phase := .operand { sum, product := some (.number x, op) } } := by
        cases op <;> rfl
      rw [Machine.run_of_advance (hstep _), f.run_tokens memory' enclosing _ hright,
        Evaluated.andThen_assoc]
      congr 1
      funext y memory''
      exact Machine.resume_product

/-- The machine evaluates the written form of a sum, and goes on behind it with nothing
    that waits. -/
theorem SumTree.run_tokens (s : SumTree) (memory : Memory) (enclosing : List Enclosure)
    {rest : List Token} (hends : EndsProduct rest) (hdetached : Detached s.tokens rest) :
    (Machine.run { memory, enclosing, phase := .operand .start } (s.tokens ++ rest)).outcome =
      (s.evaluateWithin (nestingLimit - enclosing.length) memory).andThen
        fun value memory' =>
          (Machine.run { memory := memory', enclosing, phase := .operator none (.number value) }
            rest).outcome := by
  match s with
  | .single p => exact p.run_tokens memory enclosing none hdetached
  | .join s op p =>
      rw [SumTree.tokens] at hdetached ⊢
      have hright : Detached p.tokens rest := by
        rw [← List.singleton_append, ← List.append_assoc] at hdetached
        exact (detached_append _ p.tokens_ne_nil).mp hdetached
      have hleft : Detached s.tokens (op.token :: (p.tokens ++ rest)) :=
        detached_of_ne_equals (by cases op <;> exact nofun)
      have hop : EndsProduct (op.token :: (p.tokens ++ rest)) := by
        intro token htoken
        rw [← Option.some.inj htoken]
        cases op <;> rfl
      rw [List.append_assoc, List.cons_append, s.run_tokens memory enclosing hop hleft,
        SumTree.evaluateWithin, Evaluated.andThen_assoc]
      congr 1
      funext x memory'
      -- The operation makes the first sum wait for the last product.
      have hstep (ahead : Token) :
          Machine.step { memory := memory', enclosing, phase := .operator none (.number x) }
            op.token ahead =
            .advance { memory := memory', enclosing,
                       phase := .operand { sum := some (x, op), product := none } } := by
        cases op <;> rfl
      rw [Machine.run_of_advance (hstep _), p.run_tokens memory' enclosing _ hright,
        Evaluated.andThen_assoc]
      congr 1
      funext y memory''
      rw [Machine.run_operator_total hends]
      rfl

/-- The machine evaluates the written form of a statement. -/
theorem Statement.run_tokens (s : Statement) (memory : Memory) (enclosing : List Enclosure)
    {rest : List Token} (hends : EndsStatement rest) (hdetached : Detached s.tokens rest) :
    (Machine.run { memory, enclosing, phase := .operand .start } (s.tokens ++ rest)).outcome =
      (s.evaluateWithin (nestingLimit - enclosing.length) memory).andThen
        fun value memory' =>
          (Machine.run { memory := memory', enclosing, phase := .operator none (.number value) }
            rest).outcome := by
  match s with
  | .assign spelled name value =>
      rw [Statement.tokens] at hdetached ⊢
      have hvalue : Detached value.tokens rest := by
        rw [detached_append _ (List.cons_ne_nil _ _)] at hdetached
        exact (detached_append [.name name, .equals] value.tokens_ne_nil).mp hdetached
      rw [List.append_assoc, List.cons_append, List.cons_append, Machine.run_target,
        Statement.evaluateWithin,
        Machine.outcome_run_of_enter { memory, enclosing, phase := .equals name } rfl]
      by_cases hroom : nestingLimit - enclosing.length = 0
      · rw [if_pos hroom, if_pos hroom, Evaluated.andThen_error]
      · -- The write happens once the value is known and the statement has ended.
        rw [if_neg hroom, if_neg hroom,
          value.run_tokens memory (.assignment name :: enclosing) hends hvalue,
          Evaluated.andThen_assoc]
        simp only [Evaluated.andThen_ok, Machine.run_operator_assignment hends,
          List.length_cons, Nat.sub_add_eq]
  | .sum s => exact s.run_tokens memory enclosing hends.endsProduct hdetached

end

end Calculator
