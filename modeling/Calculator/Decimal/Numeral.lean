import Calculator.Decimal.Basic

/-!
# Numerals

What a numeral is, and the number it stands for.

The grammar is the usual one of scientific notation: an optional sign, digits
with an optional point and at least one digit in all, and an optional power of
ten. Input text reaches it with only a leading sign, digits and points, but the
reader may be handed any text. It therefore refuses first what a scanned numeral
cannot be trusted on, two points or a sign inside, and only then tries the
grammar. A numeral that is no finite number is refused as well, so a number read
from text is always finite.

## Main definitions

* `Decimal.ofNumeral?`: The decimal that a text writes, if it is a numeral.
* `NumeralError`: Why a text is refused.
* `NumeralError.message`: The wording of a refusal.
* `Binary64.ofNumeral`: The finite number that a numeral stands for.

## Theorems

* `exists_of_ofNumeral`: What is read from a numeral is the number of its decimal.
* `ofNumeral_isFinite`: A number read from a numeral is finite.
-/

namespace Calculator

namespace Decimal

/-- A text without its leading sign, and whether the sign was a minus. -/
def splitSign : List Char → Bool × List Char
  | '-' :: rest => (true, rest)
  | '+' :: rest => (false, rest)
  | rest => (false, rest)

/-- The value of the digits of a power of ten. A power of 2¹⁶ or more is far
    outside the format, and digits that follow it are not counted. -/
def exponentValue (digits : List Char) : Nat :=
  digits.foldl
    (fun value d => if value < 2 ^ 16 then 10 * value + (d.toNat - '0'.toNat) else value) 0

/-- The power of ten at the end of a numeral: none is the power zero. -/
def exponentPart? : List Char → Option Int
  | [] => some 0
  | mark :: rest =>
      let (negative, digits) := splitSign rest
      if (mark == 'e' || mark == 'E') && !digits.isEmpty && digits.all Char.isDigit then
        some (if negative then -(exponentValue digits : Int) else exponentValue digits)
      else
        none

/-- The digits after a point, and what follows them. Without a point there are no
    digits. -/
def splitFraction : List Char → List Char × List Char
  | '.' :: rest => (rest.takeWhile Char.isDigit, rest.dropWhile Char.isDigit)
  | rest => ([], rest)

/-- The decimal that a text writes: a sign, digits with a point among them, and a
    power of ten, of which only one digit is required. -/
def ofNumeral? (text : List Char) : Option Decimal :=
  let (negative, body) := splitSign text
  let whole := body.takeWhile Char.isDigit
  let (fraction, power) := splitFraction (body.dropWhile Char.isDigit)
  if whole.isEmpty && fraction.isEmpty then
    none
  else
    (exponentPart? power).map fun exponent =>
      { negative
        coefficient := Nat.ofDigitChars 10 (whole ++ fraction) 0
        exponent := exponent - fraction.length }

end Decimal

/-- Why a text is no numeral of the calculator. -/
inductive NumeralError where
  | tooManyPeriods (text : String)
  | misplacedSign (text : String)
  | empty
  | malformed
  | outOfRange (text : String)
  deriving DecidableEq, Repr

namespace NumeralError

/-- The wording of a refusal. -/
def message : NumeralError → String
  | .tooManyPeriods text => "too many periods in '" ++ text ++ "'"
  | .misplacedSign text =>
      "- can only appear at the start of a number, found: " ++ text
  | .empty => "failed to parse number: cannot parse float from empty string"
  | .malformed => "failed to parse number: invalid float literal"
  | .outOfRange text => "failed to parse number: '" ++ text ++ "' is out of range"

end NumeralError

/-- Whether a text names an infinity or not-a-number, in any case and after any
    sign. Such a name is well formed, but it is out of range. -/
def isNonFiniteName (text : List Char) : Bool :=
  ["inf", "infinity", "nan"].contains
    (String.ofList ((Decimal.splitSign text).2.map Char.toLower))

/-- The finite number that a numeral stands for, correctly rounded. -/
def Binary64.ofNumeral (text : String) : Except NumeralError Binary64 :=
  let chars := text.toList
  if 1 < chars.count '.' then
    .error (.tooManyPeriods text)
  else if chars.tail.contains '-' then
    .error (.misplacedSign text)
  else if chars.isEmpty then
    .error .empty
  else if isNonFiniteName chars then
    .error (.outOfRange text)
  else
    match Decimal.ofNumeral? chars with
    | none => .error .malformed
    | some decimal =>
        if decimal.toBinary64.isFinite then .ok decimal.toBinary64
        else .error (.outOfRange text)

/-- What is read from a numeral is the number of its decimal, which is finite. -/
theorem Binary64.exists_of_ofNumeral {text : String} {x : Binary64}
    (h : Binary64.ofNumeral text = .ok x) :
    ∃ d, Decimal.ofNumeral? text.toList = some d ∧ d.toBinary64 = x ∧ x.isFinite = true := by
  unfold Binary64.ofNumeral at h
  dsimp only at h
  -- Every refusal comes before a number, and the last one is about range.
  split at h
  · exact nomatch h
  split at h
  · exact nomatch h
  split at h
  · exact nomatch h
  split at h
  · exact nomatch h
  split at h
  · exact nomatch h
  · next decimal hdecimal =>
      split at h
      · next hfinite =>
          rw [← Except.ok.inj h]
          exact ⟨decimal, hdecimal, rfl, hfinite⟩
      · exact nomatch h

/-- A number read from a numeral is finite. -/
theorem Binary64.ofNumeral_isFinite {text : String} {x : Binary64}
    (h : Binary64.ofNumeral text = .ok x) : x.isFinite = true := by
  rcases Binary64.exists_of_ofNumeral h with ⟨_, _, _, hfinite⟩
  exact hfinite

end Calculator
