import Calculator.Binary64.Basic

/-!
# Decimals

Decimal fractions, between text and binary numbers.

A decimal is a sign, a whole coefficient and a power of ten. Numerals are read
into this form before they are rounded, and printed numbers are brought into it
before they are laid out, so that reading and printing meet in one type. The
coefficient is unbounded: a numeral of any length keeps all its digits until the
single rounding to a binary number.

A binary number is itself a decimal, because a unit of 2⁻¹⁰⁷⁴ is 5¹⁰⁷⁴ times
10⁻¹⁰⁷⁴. `Binary64.exactCoefficient` is that expansion.

## Main definitions

* `Decimal`: A sign, a coefficient and a power of ten.
* `Decimal.toBinary64`: The binary number nearest to a decimal.
* `Decimal.positional`: The text of a decimal without a power of ten.
* `Binary64.exactCoefficient`: The digits of a binary magnitude, to 1074 places.
* `Binary64.infinityText`, `Binary64.nanText`: The numbers that have no digits.

## Theorems

* `fractionDigits_length`: A fraction is written with as many digits as it has
  places.
-/

namespace Calculator

/-- The decimal `coefficient * 10 ^ exponent`, with a sign that a zero keeps. -/
structure Decimal where
  negative : Bool
  coefficient : Nat
  exponent : Int
  deriving DecidableEq, Repr

namespace Decimal

/-- The binary number nearest to a decimal, ties to even; infinite if the decimal
    is too large for the format. -/
def toBinary64 (d : Decimal) : Binary64 :=
  match d.exponent with
  | .ofNat e => .round d.negative (d.coefficient * 10 ^ e * unitsPerOne) 1
  | .negSucc e => .round d.negative (d.coefficient * unitsPerOne) (10 ^ (e + 1))

/-- The digits of a fraction of `places` decimal places, with the zeros that lead
    it. -/
def fractionDigits (places fraction : Nat) : List Char :=
  (Nat.toDigits 10 fraction).leftpad places '0'

/-- A fraction is written with as many digits as it has places. -/
theorem fractionDigits_length {places fraction : Nat} (hplaces : 0 < places)
    (h : fraction < 10 ^ places) : (fractionDigits places fraction).length = places := by
  rw [fractionDigits, List.length_leftpad]
  exact Nat.max_eq_left ((Nat.length_toDigits_le_iff (by decide) hplaces).mpr h)

/-- A list without the zeros at its end. -/
def dropTrailingZeros (digits : List Char) : List Char :=
  (digits.reverse.dropWhile (· = '0')).reverse

/-- The sign in front of a number. -/
def signText (negative : Bool) : List Char :=
  if negative then ['-'] else []

/-- The text of a decimal: all digits of the whole part, and those of the
    fraction up to the last that is not zero, after a point if there are any. -/
def positional (d : Decimal) : List Char :=
  signText d.negative ++
    match d.exponent with
    | .ofNat e => Nat.toDigits 10 (d.coefficient * 10 ^ e)
    | .negSucc e =>
        let scale := 10 ^ (e + 1)
        let whole := Nat.toDigits 10 (d.coefficient / scale)
        match dropTrailingZeros (fractionDigits (e + 1) (d.coefficient % scale)) with
        | [] => whole
        | fraction => whole ++ '.' :: fraction

end Decimal

namespace Binary64

/-- The coefficient of a magnitude written exactly with 1074 decimal places. -/
def exactCoefficient (units : Nat) : Nat :=
  units * 5 ^ 1074

/-- The text of an infinity. -/
def infinityText (negative : Bool) : String :=
  if negative then "-inf" else "inf"

/-- The text of not-a-number. -/
def nanText : String :=
  "NaN"

end Binary64

end Calculator
