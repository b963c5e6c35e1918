import Calculator.Binary64.Basic

/-!
# Arithmetic of Binary Floating-Point Numbers

Negation and the four operations of IEEE 754. Each operation on finite numbers
forms its exact result as a quotient of units and rounds it once, so correct
rounding holds by construction; the remaining cases are the rules for infinities
and not-a-number.

The sign of an exact zero is the one part the exact result does not decide. A sum
that vanishes is positive unless both operands are negative, which happens only
for two negative zeros, and a product or quotient takes the product of the signs.

## Main definitions

* `Binary64.neg`: The number of the other sign.
* `Binary64.add`, `Binary64.sub`, `Binary64.mul`, `Binary64.div`: The correctly
  rounded operations.
-/

namespace Calculator

namespace Binary64

/-- The number of the other sign. -/
def neg : Binary64 → Binary64
  | .finite negative units h => .finite (!negative) units h
  | .infinite negative => .infinite (!negative)
  | .nan => .nan

theorem neg_neg (x : Binary64) : x.neg.neg = x := by
  cases x <;> simp only [neg, Bool.not_not]

/-- The correctly rounded value of an exact integer number of units. A vanishing
    value is the zero of sign `zeroSign`. -/
def ofSignedUnits (zeroSign : Bool) (units : Int) : Binary64 :=
  if units = 0 then zero zeroSign else round (units < 0) units.natAbs 1

/-- The correctly rounded sum. Infinities of opposite signs have no sum. -/
def add : Binary64 → Binary64 → Binary64
  | .nan, _ => .nan
  | _, .nan => .nan
  | .infinite s, .infinite t => if s = t then .infinite s else .nan
  | .infinite s, _ => .infinite s
  | _, .infinite t => .infinite t
  | .finite s m _, .finite t n _ =>
      ofSignedUnits (s && t)
        ((if s then -(m : Int) else m) + (if t then -(n : Int) else n))

/-- The correctly rounded difference, which is the sum with the negated number. -/
def sub (x y : Binary64) : Binary64 :=
  x.add y.neg

/-- The correctly rounded product. An infinity times zero has no value. -/
def mul : Binary64 → Binary64 → Binary64
  | .nan, _ => .nan
  | _, .nan => .nan
  | .infinite s, .infinite t => .infinite (s != t)
  | .infinite s, .finite t n _ => if n = 0 then .nan else .infinite (s != t)
  | .finite s m _, .infinite t => if m = 0 then .nan else .infinite (s != t)
  | .finite s m _, .finite t n _ => round (s != t) (m * n) unitsPerOne

/-- The correctly rounded quotient. A nonzero number over zero is infinite, and
    neither zero over zero nor infinity over infinity has a value. -/
def div : Binary64 → Binary64 → Binary64
  | .nan, _ => .nan
  | _, .nan => .nan
  | .infinite _, .infinite _ => .nan
  | .infinite s, .finite t _ _ => .infinite (s != t)
  | .finite s _ _, .infinite t => zero (s != t)
  | .finite s m _, .finite t n _ =>
      if n = 0 then
        if m = 0 then .nan else .infinite (s != t)
      else
        round (s != t) (m * unitsPerOne) n

end Binary64

end Calculator
