import Calculator.Proofs.Numerals
import Calculator.Tree.Evaluation

/-!
# Chains of Operations

Arithmetic as it is taught: operands in a row with operations between them, where products
and quotients are taken first and then sums and differences, each from left to right.

A chain has no precedence in its structure. Every operation extends the chain by one
operand, whatever the operation is, and precedence is a rule for its value: the operands
are folded into terms, where an operation of a product changes the last term and an
operation of a sum begins a new one, and the terms are added up at the end. A division by
zero ends the folding where it happens, with its two operands.

Statement trees have the precedence in their structure. The tree of a chain is built as the
terms are, by putting a factor into the last product of a sum, so at every operand the tree
has as many products as there are terms, and each has the value of its term. Adding up
cannot fail, so it makes no difference that the tree adds before it has read everything.

## Main definitions

* `Chain`, `ChainOperand`: Operands in a row; numerals, negated ones, and chains in
  parentheses.
* `Terms`: What a chain is folded into.
* `Chain.value`: The value of a chain, or its first division by zero.
* `Chain.tree`: The statement tree of a chain.
* `SumTree.Yields`: A sum whose products have the values of some terms.

## Theorems

* `Chain.evaluate_tree`: The tree of a chain has the value of the chain.
-/

namespace Calculator

/-- An operation of either rank. -/
inductive ChainOp where
  | sum (op : SumOp)
  | product (op : ProductOp)

mutual

/-- Operands in a row with an operation before each but the first. -/
inductive Chain where
  | single (operand : ChainOperand)
  | join (chain : Chain) (op : ChainOp) (operand : ChainOperand)

/-- A numeral, a numeral behind a minus sign that may stand apart from it, or a chain in
    parentheses. -/
inductive ChainOperand where
  | numeral (n : Numeral)
  | negated (apart : Bool) (n : Numeral)
  | group (chain : Chain)

end

/-- A division by zero: its two operands. -/
structure ZeroDivision where
  dividend : Binary64
  divisor : Binary64
  deriving DecidableEq

/-- The terms of a sum, at least one, with an operation before each but the first. -/
inductive Terms where
  | first (value : Binary64)
  | more (terms : Terms) (op : SumOp) (value : Binary64)

namespace Terms

/-- The value of some terms, added up from left to right. -/
def total : Terms → Binary64
  | .first value => value
  | .more terms .plus value => terms.total.add value
  | .more terms .minus value => terms.total.sub value

/-- The last term. -/
def last : Terms → Binary64
  | .first value => value
  | .more _ _ value => value

/-- The terms with another one in place of the last. -/
def replaceLast (value : Binary64) : Terms → Terms
  | .first _ => .first value
  | .more terms op _ => .more terms op value

/-- The terms after one more operand. An operation of a product changes the last term, and
    one of a sum begins a new term. -/
def extend (terms : Terms) (op : ChainOp) (y : Binary64) : Except ZeroDivision Terms :=
  match op with
  | .sum op => .ok (.more terms op y)
  | .product .times => .ok (terms.replaceLast (terms.last.mul y))
  | .product .over =>
      if y.isZero then .error { dividend := terms.last, divisor := y }
      else .ok (terms.replaceLast (terms.last.div y))

end Terms

mutual

/-- The terms that a chain is folded into, or its first division by zero. -/
def Chain.terms : Chain → Except ZeroDivision Terms
  | .single x => x.value.map .first
  | .join c op x => c.terms.bind fun terms => x.value.bind fun y => terms.extend op y

/-- The value of an operand, or its first division by zero. -/
def ChainOperand.value : ChainOperand → Except ZeroDivision Binary64
  | .numeral n => .ok n.value
  | .negated _ n => .ok n.value.neg
  | .group c => c.terms.map Terms.total

end

/-- The value of a chain, or its first division by zero. -/
def Chain.value (c : Chain) : Except ZeroDivision Binary64 :=
  c.terms.map Terms.total

mutual

/-- How deep the parentheses of a chain are nested. -/
def Chain.nesting : Chain → Nat
  | .single x => x.nesting
  | .join c _ x => max c.nesting x.nesting

/-- How deep the parentheses of an operand are nested. -/
def ChainOperand.nesting : ChainOperand → Nat
  | .numeral _ => 0
  | .negated _ _ => 0
  | .group c => c.nesting + 1

end

/-- A sum with one more factor in its last product. -/
def SumTree.appendFactor (op : ProductOp) (f : Factor) : SumTree → SumTree
  | .single p => .single (.join p op f)
  | .join s sumOp p => .join s sumOp (.join p op f)

mutual

/-- The statement tree of a chain. -/
def Chain.tree : Chain → SumTree
  | .single x => .single (.single x.factor)
  | .join c (.sum op) x => .join c.tree op (.single x.factor)
  | .join c (.product op) x => c.tree.appendFactor op x.factor

/-- The factor of an operand. A minus sign that touches its numeral is part of it. -/
def ChainOperand.factor : ChainOperand → Factor
  | .numeral n => .number n.value
  | .negated false n => .number n.value.neg
  | .negated true n => .negated n.value
  | .group c => .group (.sum c.tree)

end

theorem SumTree.tokens_appendFactor (s : SumTree) (op : ProductOp) (f : Factor) :
    (s.appendFactor op f).tokens = s.tokens ++ op.token :: f.tokens := by
  cases s with
  | single p => rfl
  | join s sumOp p =>
      simp only [appendFactor, SumTree.tokens, ProductTree.tokens, List.append_assoc,
        List.cons_append]

theorem SumTree.nesting_appendFactor (s : SumTree) (op : ProductOp) (f : Factor) :
    (s.appendFactor op f).nesting = max s.nesting f.nesting := by
  cases s with
  | single p => rfl
  | join s sumOp p => exact (Nat.max_assoc _ _ _).symm

mutual

/-- The tree of a chain is nested as deep as the chain. -/
theorem Chain.nesting_tree (c : Chain) : c.tree.nesting = c.nesting := by
  match c with
  | .single x => exact x.nesting_factor
  | .join c (.sum op) x =>
      rw [Chain.tree, SumTree.nesting, c.nesting_tree, ProductTree.nesting, x.nesting_factor,
        Chain.nesting]
  | .join c (.product op) x =>
      rw [Chain.tree, SumTree.nesting_appendFactor, c.nesting_tree, x.nesting_factor,
        Chain.nesting]

theorem ChainOperand.nesting_factor (x : ChainOperand) : x.factor.nesting = x.nesting := by
  match x with
  | .numeral _ => rfl
  | .negated apart _ => cases apart <;> rfl
  | .group c =>
      rw [ChainOperand.factor, Factor.nesting, Statement.nesting, c.nesting_tree,
        ChainOperand.nesting]

end

/-- A division by zero as a failure of evaluation. -/
def ZeroDivision.toError (d : ZeroDivision) : EvalError :=
  .divisionByZero d.dividend d.divisor

/-- A sum whose products have the values of some terms, in a memory that they leave as it
    is. -/
inductive SumTree.Yields (memory : Memory) : SumTree → Terms → Prop where
  | single {p : ProductTree} {value : Binary64} (hp : p.evaluate memory = (.ok value, memory)) :
      Yields memory (.single p) (.first value)
  | join {s : SumTree} {op : SumOp} {p : ProductTree} {terms : Terms} {value : Binary64}
      (hs : s.evaluate memory = (.ok terms.total, memory))
      (hp : p.evaluate memory = (.ok value, memory)) :
      Yields memory (.join s op p) (.more terms op value)

namespace SumTree

/-- A sum whose products have the values of some terms has the value of all of them. -/
theorem Yields.evaluate {memory : Memory} {s : SumTree} {terms : Terms}
    (h : s.Yields memory terms) : s.evaluate memory = (.ok terms.total, memory) := by
  cases h with
  | single hp => exact hp
  | @join s op p terms value hs hp =>
      rw [SumTree.evaluate, hs, Evaluated.andThen, hp]
      cases op <;> rfl

/-- A factor that is put into a sum is reached if the sum has a value. -/
theorem Yields.evaluate_appendFactor_error {memory : Memory} {s : SumTree} {terms : Terms}
    (h : s.Yields memory terms) (op : ProductOp) {f : Factor} {e : EvalError}
    (hf : f.evaluate memory = (.error e, memory)) :
    (s.appendFactor op f).evaluate memory = (.error e, memory) := by
  cases h with
  | single hp => rw [appendFactor, SumTree.evaluate, ProductTree.evaluate, hp, Evaluated.andThen,
      hf, Evaluated.andThen]
  | join hs hp =>
      rw [appendFactor, SumTree.evaluate, hs, Evaluated.andThen, ProductTree.evaluate, hp,
        Evaluated.andThen, hf]
      rfl

/-- A sum that fails does so before a factor that is put into it. -/
theorem evaluate_appendFactor_of_error {memory memory' : Memory} {s : SumTree} {e : EvalError}
    (h : s.evaluate memory = (.error e, memory')) (op : ProductOp) (f : Factor) :
    (s.appendFactor op f).evaluate memory = (.error e, memory') := by
  cases s with
  | single p =>
      rw [SumTree.evaluate] at h
      rw [appendFactor, SumTree.evaluate, ProductTree.evaluate, h, Evaluated.andThen]
  | join s sumOp p =>
      rw [SumTree.evaluate] at h
      rw [appendFactor, SumTree.evaluate]
      rcases hs : s.evaluate memory with ⟨e' | x, memory₁⟩
      · rw [hs] at h
        exact h
      · -- The terms before the last have a value, so it is the last that fails.
        rw [hs, Evaluated.andThen] at h
        rw [Evaluated.andThen, ProductTree.evaluate]
        rcases hp : p.evaluate memory₁ with ⟨e' | y, memory₂⟩
        · rw [hp] at h
          exact h
        · rw [hp] at h
          cases h

/-- A factor that is put into a sum changes its value as an operand changes terms. -/
theorem Yields.appendFactor {memory : Memory} {s : SumTree} {terms : Terms}
    (h : s.Yields memory terms) (op : ProductOp) {f : Factor} {y : Binary64}
    (hf : f.evaluate memory = (.ok y, memory)) :
    match terms.extend (.product op) y with
    | .ok terms' => (s.appendFactor op f).Yields memory terms'
    | .error d => (s.appendFactor op f).evaluate memory = (.error d.toError, memory) := by
  have hproduct {p : ProductTree} {x : Binary64} (hp : p.evaluate memory = (.ok x, memory)) :
      (ProductTree.join p op f).evaluate memory = (op.apply x y, memory) := by
    rw [ProductTree.evaluate, hp, Evaluated.andThen, hf, Evaluated.andThen]
  match op with
  | .times =>
      -- A product always has a value.
      cases h with
      | single hp => exact .single (hproduct hp)
      | join hs hp => exact .join hs (hproduct hp)
  | .over =>
      rw [Terms.extend]
      by_cases hzero : y.isZero = true
      · -- The division fails on both sides, with the same operands.
        rw [if_pos hzero]
        have hfail (x : Binary64) : ProductOp.over.apply x y = .error (.divisionByZero x y) :=
          ProductOp.over_apply_eq_error_iff.mpr hzero
        cases h with
        | single hp => exact (hproduct hp).trans (by rw [hfail]; rfl)
        | join hs hp =>
            rw [SumTree.appendFactor, SumTree.evaluate, hs, Evaluated.andThen, hproduct hp, hfail]
            rfl
      · rw [if_neg hzero]
        have hquotient (x : Binary64) : ProductOp.over.apply x y = .ok (x.div y) := by
          rw [ProductOp.apply, if_neg hzero]
        cases h with
        | single hp => exact .single ((hproduct hp).trans (by rw [hquotient]; rfl))
        | join hs hp => exact .join hs ((hproduct hp).trans (by rw [hquotient]; rfl))

end SumTree

mutual

/-- The products of the tree of a chain have the values of its terms. -/
theorem Chain.yields_tree (c : Chain) (memory : Memory) :
    match c.terms with
    | .ok terms => c.tree.Yields memory terms
    | .error d => c.tree.evaluate memory = (.error d.toError, memory) := by
  match c with
  | .single x =>
      have hx := x.evaluate_factor memory
      rw [Chain.terms]
      cases hvalue : x.value with
      | error d => rw [hvalue] at hx; exact hx
      | ok value => rw [hvalue] at hx; exact .single hx
  | .join c op x =>
      have hc := c.yields_tree memory
      have hx := x.evaluate_factor memory
      rw [Chain.terms]
      cases hterms : c.terms with
      | error d =>
          -- The chain fails before its last operand, and so does the tree.
          rw [hterms] at hc
          cases op with
          | sum op => exact (congrArg (Evaluated.andThen · _) hc).trans rfl
          | product op => exact SumTree.evaluate_appendFactor_of_error hc op x.factor
      | ok terms =>
          rw [hterms] at hc
          cases hvalue : x.value with
          | error d =>
              rw [hvalue] at hx
              cases op with
              | sum op =>
                  rw [Chain.tree, SumTree.evaluate, hc.evaluate, Evaluated.andThen,
                    ProductTree.evaluate, hx]
                  rfl
              | product op => exact hc.evaluate_appendFactor_error op hx
          | ok y =>
              rw [hvalue] at hx
              cases op with
              | sum op => exact .join hc.evaluate hx
              | product op => exact hc.appendFactor op hx

/-- The factor of an operand has the value of the operand. -/
theorem ChainOperand.evaluate_factor (x : ChainOperand) (memory : Memory) :
    x.factor.evaluate memory = (x.value.mapError ZeroDivision.toError, memory) := by
  match x with
  | .numeral n => rfl
  | .negated apart n => cases apart <;> rfl
  | .group c =>
      have hc := c.yields_tree memory
      rw [ChainOperand.factor, Factor.evaluate, Statement.evaluate, ChainOperand.value]
      cases hterms : c.terms with
      | error d => rw [hterms] at hc; exact hc
      | ok terms => rw [hterms] at hc; exact hc.evaluate

end

/-- The tree of a chain has the value of the chain, and fails on its first division by
    zero. -/
theorem Chain.evaluate_tree (c : Chain) (memory : Memory) :
    c.tree.evaluate memory = (c.value.mapError ZeroDivision.toError, memory) := by
  have hc := c.yields_tree memory
  rw [Chain.value]
  cases hterms : c.terms with
  | error d => rw [hterms] at hc; exact hc
  | ok terms => rw [hterms] at hc; exact hc.evaluate

end Calculator
