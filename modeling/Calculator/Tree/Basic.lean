import Calculator.Evaluation.Operation

/-!
# Statement Trees

What a statement means, written as a tree instead of as tokens.

The machine never builds a tree. Trees are a second account of the same language,
one in which reading and evaluating are separate, so that each can be stated on its
own: the tokens of a tree are its written form, and its value is found by recursion
on its parts.

Sums and products are nested to the left, as they are evaluated. The two spellings of
an assignment are one tree with a mark, since they differ in a token and in nothing
else.

## Main definitions

* `Statement`, `SumTree`, `ProductTree`, `Factor`: The trees of each rank.
* `Statement.tokens`: The written form of a statement.
* `Statement.nesting`: How deep its parentheses and assignments are nested.

## Theorems

* `tokens_ne_nil`: No statement is written without tokens.
-/

namespace Calculator

mutual

/-- A statement: an assignment, with or without the word for it, or a sum. -/
inductive Statement where
  | assign (spelled : Bool) (name : String) (value : Statement)
  | sum (sum : SumTree)

/-- A sum of at least one product. -/
inductive SumTree where
  | single (product : ProductTree)
  | join (sum : SumTree) (op : SumOp) (product : ProductTree)

/-- A product of at least one factor. -/
inductive ProductTree where
  | single (factor : Factor)
  | join (product : ProductTree) (op : ProductOp) (factor : Factor)

/-- A number, a negated number, a name, or a statement in parentheses. -/
inductive Factor where
  | number (value : Binary64)
  | negated (value : Binary64)
  | name (name : String)
  | group (statement : Statement)

end

/-- The token of an operation of a sum. -/
def SumOp.token : SumOp → Token
  | .plus => .plus
  | .minus => .minus

/-- The token of an operation of a product. -/
def ProductOp.token : ProductOp → Token
  | .times => .times
  | .over => .over

theorem Token.eq_token_of_sumOp? {t : Token} {op : SumOp} (h : t.sumOp? = some op) :
    t = op.token := by
  cases t <;> cases h <;> rfl

theorem Token.eq_token_of_productOp? {t : Token} {op : ProductOp}
    (h : t.productOp? = some op) : t = op.token := by
  cases t <;> cases h <;> rfl

mutual

/-- The written form of a statement. -/
def Statement.tokens : Statement → List Token
  | .assign spelled name value =>
      (if spelled then [.letWord] else []) ++ .name name :: .equals :: value.tokens
  | .sum s => s.tokens

/-- The written form of a sum. -/
def SumTree.tokens : SumTree → List Token
  | .single p => p.tokens
  | .join s op p => s.tokens ++ op.token :: p.tokens

/-- The written form of a product. -/
def ProductTree.tokens : ProductTree → List Token
  | .single f => f.tokens
  | .join p op f => p.tokens ++ op.token :: f.tokens

/-- The written form of a factor. -/
def Factor.tokens : Factor → List Token
  | .number value => [.number value]
  | .negated value => [.minus, .number value]
  | .name name => [.name name]
  | .group s => .openParen :: (s.tokens ++ [.closeParen])

end

mutual

/-- How deep the parentheses and assignments of a statement are nested. -/
def Statement.nesting : Statement → Nat
  | .assign _ _ value => value.nesting + 1
  | .sum s => s.nesting

/-- How deep the parentheses and assignments of a sum are nested. -/
def SumTree.nesting : SumTree → Nat
  | .single p => p.nesting
  | .join s _ p => max s.nesting p.nesting

/-- How deep the parentheses and assignments of a product are nested. -/
def ProductTree.nesting : ProductTree → Nat
  | .single f => f.nesting
  | .join p _ f => max p.nesting f.nesting

/-- How deep the parentheses and assignments of a factor are nested. -/
def Factor.nesting : Factor → Nat
  | .number _ => 0
  | .negated _ => 0
  | .name _ => 0
  | .group s => s.nesting + 1

end

/-- No factor is written without tokens. -/
theorem Factor.tokens_ne_nil (f : Factor) : f.tokens ≠ [] := by
  cases f <;> simp only [Factor.tokens, ne_eq, reduceCtorEq, not_false_eq_true]

/-- No product is written without tokens. -/
theorem ProductTree.tokens_ne_nil (p : ProductTree) : p.tokens ≠ [] := by
  cases p with
  | single f => exact f.tokens_ne_nil
  | join p op f => exact List.append_ne_nil_of_right_ne_nil _ (List.cons_ne_nil _ _)

/-- No sum is written without tokens. -/
theorem SumTree.tokens_ne_nil (s : SumTree) : s.tokens ≠ [] := by
  cases s with
  | single p => exact p.tokens_ne_nil
  | join s op p => exact List.append_ne_nil_of_right_ne_nil _ (List.cons_ne_nil _ _)

/-- No statement is written without tokens. -/
theorem Statement.tokens_ne_nil (s : Statement) : s.tokens ≠ [] := by
  cases s with
  | assign spelled name value =>
      exact List.append_ne_nil_of_right_ne_nil _ (List.cons_ne_nil _ _)
  | sum s => exact s.tokens_ne_nil

end Calculator
