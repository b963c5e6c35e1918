import Calculator.Decimal.Basic

/-!
# Results

How a result is printed: as a whole number if it is one, and otherwise with six
decimal places.

The six places are rounded from the exact value, ties to even, and a negative
value keeps its sign even when every digit is zero. Whole numbers are printed
without a point up to 2⁶³; from there on they take the six places too, all of
them zero.

## Main definitions

* `Binary64.isWhole`: Whether a finite magnitude has no fraction.
* `Binary64.wholeText`, `Binary64.sixPlaces`: The two forms.
* `Binary64.resultText`: A number as a result is printed.

## Theorems

* `isWhole_iff`: A magnitude is whole exactly when it is a multiple of one.
-/

namespace Calculator

namespace Binary64

/-- Whether a magnitude has no fraction. -/
def isWhole (units : Nat) : Bool :=
  units % unitsPerOne == 0

/-- A magnitude is whole exactly when it is a multiple of one. -/
theorem isWhole_iff {units : Nat} : isWhole units = true ↔ unitsPerOne ∣ units := by
  rw [isWhole, beq_iff_eq, Nat.dvd_iff_mod_eq_zero]

/-- The digits of a whole magnitude after its sign, which zero does not have. -/
def wholeText (negative : Bool) (units : Nat) : List Char :=
  Decimal.signText (negative && units != 0) ++ Nat.toDigits 10 (units / unitsPerOne)

/-- A magnitude with exactly six decimal places after its sign. -/
def sixPlaces (negative : Bool) (units : Nat) : List Char :=
  let millionths := nearestEven (units * 10 ^ 6) unitsPerOne
  Decimal.signText negative ++ Nat.toDigits 10 (millionths / 10 ^ 6) ++
    '.' :: Decimal.fractionDigits 6 (millionths % 10 ^ 6)

/-- A number as a result is printed. -/
def resultText : Binary64 → String
  | .finite negative units _ =>
      String.ofList <|
        if isWhole units && units < 2 ^ 63 * unitsPerOne then wholeText negative units
        else sixPlaces negative units
  | .infinite negative => infinityText negative
  | .nan => nanText

end Binary64

end Calculator
