import Calculator.Decimal.Basic

/-!
# Shortest Decimal Text

The fewest digits that read back as the same number.

For each count of digits, only the two decimals next to the exact value can be
the answer: if any decimal of that many digits reads back, so does one of its
two neighbours on that grid, because the decimals that round to a number form an
interval around it. The search therefore tries one digit, then two, and so on,
and takes the first count at which a neighbour reads back. If both do, the nearer
is taken, and the upper one on an exact tie. It ends at the latest with the exact
expansion, which reads back as itself.

## Main definitions

* `Binary64.candidates`: The two decimals of a digit count around a magnitude.
* `Binary64.shortest`: The shortest decimal that reads back.
* `Binary64.text`: A number as messages write it.
-/

namespace Calculator

namespace Binary64

/-- The decimals of `count` digits around a magnitude whose exact coefficient
    has `length` digits, the preferred one first. -/
def candidates (negative : Bool) (coefficient length count : Nat) : List Decimal :=
  let scale := 10 ^ (length - count)
  let below := coefficient / scale
  let decimal (c : Nat) : Decimal :=
    { negative, coefficient := c, exponent := ((length - count : Nat) : Int) - 1074 }
  -- A tie counts as nearer to the upper neighbour.
  if 2 * (coefficient % scale) < scale then [decimal below, decimal (below + 1)]
  else [decimal (below + 1), decimal below]

/-- The shortest decimal that reads back as the number of a sign and a magnitude,
    and of those the nearest. -/
def shortest (negative : Bool) (units : Nat) : Decimal :=
  let coefficient := exactCoefficient units
  let length := (Nat.toDigits 10 coefficient).length
  let readsBack (d : Decimal) : Bool := d.toBinary64 == round negative units 1
  let found := (List.range' 1 length).findSome? fun count =>
    (candidates negative coefficient length count).find? readsBack
  found.getD { negative, coefficient, exponent := -1074 }

/-- A number as messages write it: the shortest decimal that reads back, always
    without a power of ten. -/
def text : Binary64 → String
  | .finite negative units _ => String.ofList (shortest negative units).positional
  | .infinite negative => infinityText negative
  | .nan => nanText

end Binary64

end Calculator
