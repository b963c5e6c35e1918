import Calculator.Binary64.Arithmetic
import Calculator.Evaluation.Error

/-!
# Operations

The four binary operations, in their two ranks. Sums and products are different
types because a statement is read rank by rank: a product is complete before the
sum that contains it goes on.

Only division can fail, and it does so for every divisor that is numerically zero.

## Main definitions

* `SumOp`, `ProductOp`: The operations of each rank.
* `SumOp.apply`, `ProductOp.apply`: Their values.
* `Token.sumOp?`, `Token.productOp?`: The operation that a token writes.

## Theorems

* `over_apply_eq_error_iff`: Division fails exactly on a zero divisor.
-/

namespace Calculator

/-- The operations that join the terms of a sum. -/
inductive SumOp where
  | plus
  | minus
  deriving DecidableEq, Repr

/-- The operations that join the factors of a product. -/
inductive ProductOp where
  | times
  | over
  deriving DecidableEq, Repr

/-- The value of a sum or a difference. -/
def SumOp.apply : SumOp → Binary64 → Binary64 → Binary64
  | .plus, x, y => x.add y
  | .minus, x, y => x.sub y

/-- The value of a product or a quotient, unless it divides by zero. -/
def ProductOp.apply : ProductOp → Binary64 → Binary64 → Except EvalError Binary64
  | .times, x, y => .ok (x.mul y)
  | .over, x, y => if y.isZero then .error (.divisionByZero x y) else .ok (x.div y)

/-- Division fails exactly on a zero divisor. -/
theorem ProductOp.over_apply_eq_error_iff {x y : Binary64} :
    ProductOp.over.apply x y = .error (.divisionByZero x y) ↔ y.isZero = true := by
  simp only [ProductOp.apply]
  split
  · next h => simp only [h]
  · next h => simp only [h, reduceCtorEq, Bool.false_eq_true]

namespace Token

/-- The operation of a sum that a token writes. -/
def sumOp? : Token → Option SumOp
  | .plus => some .plus
  | .minus => some .minus
  | _ => none

/-- The operation of a product that a token writes. -/
def productOp? : Token → Option ProductOp
  | .times => some .times
  | .over => some .over
  | _ => none

end Token

end Calculator
