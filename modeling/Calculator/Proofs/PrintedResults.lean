import Calculator.Decimal.Places
import Calculator.Proofs.CorrectRounding
import Calculator.Proofs.ShortestText
import Mathlib.Data.List.Basic

/-!
# Printed Results

What a result is printed as, said of its exact value.

A finite number has a rational value, and the rules are about that. A whole number is printed
with its digits, and no point. That ends at 2⁶³, from where on whole numbers are printed with
six places too, which are zeros. Any other value is rounded to millionths, ties to even, and
has six places. A minus sign is printed for what is less than zero. So none is printed for a
zero of either sign, while a negative value keeps its sign when it is rounded to zero.

Sign and magnitude are printed apart from each other. The magnitude is counted in millionths
in either form, since a whole number of ones is a whole number of millionths.

## Main definitions

* `Binary64.value?`: The exact value of a finite number.
* `IsWritten`: The digits that a whole number is written with.
* `IsPrinted`: The rules by which a value is printed.
* `Binary64.millionths`, `Binary64.magnitudeText`: The rounded magnitude and its text.

## Theorems

* `isWritten_toDigits`: The digits of a number are those that it is written with.
* `Binary64.resultText_finite`: Sign and magnitude are printed one behind the other.
* `Binary64.isPrinted_resultText`: Results are printed by the rules.
-/

namespace Calculator

/-- The value of a magnitude behind a sign. -/
def signed (negative : Bool) (magnitude : ℚ) : ℚ :=
  if negative then -magnitude else magnitude

/-- The exact value of a finite number; nothing for an infinity or not-a-number. -/
def Binary64.value? (x : Binary64) : Option ℚ :=
  x.signedUnits?.map fun units : Int => (units : ℚ) / unitsPerOne

theorem abs_signed (negative : Bool) {magnitude : ℚ} (h : 0 ≤ magnitude) :
    |signed negative magnitude| = magnitude := by
  cases negative with
  | false => exact abs_of_nonneg h
  | true => exact (abs_neg magnitude).trans (abs_of_nonneg h)

theorem signed_lt_zero_iff (negative : Bool) {magnitude : ℚ} (h : 0 ≤ magnitude) :
    signed negative magnitude < 0 ↔ negative = true ∧ magnitude ≠ 0 := by
  cases negative with
  | false => exact iff_of_false (not_lt.mpr h) fun hand => Bool.false_ne_true hand.1
  | true =>
      have hneg : signed true magnitude = -magnitude := rfl
      rw [hneg, neg_lt_zero]
      exact ⟨fun hlt => ⟨rfl, hlt.ne'⟩, fun hand => lt_of_le_of_ne h (Ne.symm hand.2)⟩

theorem abs_signed_sub (negative : Bool) (a b : ℚ) :
    |signed negative a - signed negative b| = |a - b| := by
  cases negative with
  | false => rfl
  | true => exact (congrArg _ (neg_sub_neg a b)).trans (abs_sub_comm b a)

/-- The sign of a value stands for the sign that was written, since a zero needs none. -/
theorem signed_decide (negative : Bool) {a b : ℚ} (ha : 0 ≤ a) (hzero : a = 0 → b = 0) :
    signed (decide (signed negative a < 0)) b = signed negative b := by
  by_cases h : a = 0
  · have hnone (sign : Bool) : signed sign 0 = 0 := by
      cases sign with
      | false => rfl
      | true => exact neg_zero
    rw [hzero h, hnone, hnone]
  · have hsign : decide (signed negative a < 0) = negative := by
      rw [Bool.eq_iff_iff, decide_eq_true_iff, signed_lt_zero_iff negative ha, and_iff_left h]
    rw [hsign]

namespace Binary64

/-- The value of a finite number is its magnitude behind its sign. -/
theorem value?_finite (negative : Bool) (units : Nat) (h : Representable units) :
    (finite negative units h).value? = some (signed negative (units / unitsPerOne)) := by
  cases negative with
  | false =>
      rw [value?, signedUnits?, Option.map_some, if_neg Bool.false_ne_true, Int.cast_natCast]
      rfl
  | true =>
      rw [value?, signedUnits?, Option.map_some, if_pos rfl, Int.cast_neg, Int.cast_natCast,
        neg_div]
      rfl

/-- Only a finite number has a value. -/
theorem exists_finite_of_value? {x : Binary64} {q : ℚ} (h : x.value? = some q) :
    ∃ negative units hunits, x = finite negative units hunits ∧
      q = signed negative (units / unitsPerOne) := by
  cases x with
  | finite negative units hunits =>
      rw [value?_finite] at h
      exact ⟨negative, units, hunits, rfl, (Option.some.inj h).symm⟩
  | infinite negative => cases h
  | nan => cases h

theorem cast_unitsPerOne_pos : (0 : ℚ) < unitsPerOne :=
  Nat.cast_pos.mpr unitsPerOne_pos

theorem magnitude_nonneg (units : Nat) : (0 : ℚ) ≤ units / unitsPerOne :=
  div_nonneg (Nat.cast_nonneg units) cast_unitsPerOne_pos.le

theorem magnitude_eq_zero_iff (units : Nat) : (units : ℚ) / unitsPerOne = 0 ↔ units = 0 := by
  rw [div_eq_zero_iff, or_iff_left cast_unitsPerOne_pos.ne', Nat.cast_eq_zero]

variable {negative : Bool} {units : Nat}

/-- A whole value has a whole number of ones for a magnitude. -/
theorem eq_natAbs_mul {z : ℤ} (h : signed negative (units / unitsPerOne) = z) :
    units = z.natAbs * unitsPerOne := by
  have habs := abs_signed negative (magnitude_nonneg units)
  rw [h, eq_div_iff cast_unitsPerOne_pos.ne', ← Int.cast_abs, Int.abs_eq_natAbs,
    Int.cast_natCast] at habs
  exact_mod_cast habs.symm

/-- A magnitude of whole ones is that of a whole value. -/
theorem exists_intCast_of_dvd (negative : Bool) (h : unitsPerOne ∣ units) :
    ∃ z : ℤ, signed negative (units / unitsPerOne) = z := by
  rcases h with ⟨count, hcount⟩
  rw [hcount, Nat.cast_mul, mul_div_cancel_left₀ _ cast_unitsPerOne_pos.ne']
  cases negative with
  | false => exact ⟨count, (Int.cast_natCast count).symm⟩
  | true => exact ⟨-count, by rw [Int.cast_neg, Int.cast_natCast]; rfl⟩

end Binary64

/-- The digits that a whole number is written with. No zero leads them, unless it is the
    number. -/
structure IsWritten (digits : List Char) (n : Nat) : Prop where
  isDigit : ∀ c ∈ digits, c.isDigit = true
  ne_nil : digits ≠ []
  head : digits.head? = some '0' → digits = ['0']
  value : Nat.ofDigitChars 10 digits 0 = n

/-- No zero leads the digits of a number that is not zero. -/
theorem head?_toDigits_ne_zero {n : Nat} (h : n ≠ 0) : (Nat.toDigits 10 n).head? ≠ some '0' := by
  induction n using Nat.strongRecOn with
  | _ n ih =>
      by_cases hlt : n < 10
      · rw [Nat.toDigits_of_lt_base hlt, List.head?_cons, Ne, Option.some.injEq,
          Nat.digitChar_eq_zero]
        exact h
      · -- The leading digit is that of the number without its last digit.
        have hle : 10 ≤ n := Nat.le_of_not_lt hlt
        rw [Nat.toDigits_of_base_le (by decide) hle,
          List.head?_append_of_ne_nil _ Nat.toDigits_ne_nil]
        exact ih (n / 10) (Nat.div_lt_self (by omega) (by decide)) (by omega)

/-- The digits of a number are those that it is written with. -/
theorem isWritten_toDigits (n : Nat) : IsWritten (Nat.toDigits 10 n) n where
  isDigit := List.all_eq_true.mp (Decimal.isDigit_toDigits n)
  ne_nil := Nat.toDigits_ne_nil
  head h := by
    by_cases hzero : n = 0
    · rw [hzero, Nat.toDigits_zero]
    · exact absurd h (head?_toDigits_ne_zero hzero)
  value := Nat.ofDigitChars_ten_toDigits

/-- The rules by which a value is printed: as a whole number if it is one below 2⁶³, with six
    zeros behind a point if it is a larger one, and otherwise rounded to six places. -/
structure IsPrinted (q : ℚ) (text : String) : Prop where
  whole : ∀ z : ℤ, q = z → z.natAbs < 2 ^ 63 → ∃ digits, IsWritten digits z.natAbs ∧
    text = String.ofList (Decimal.signText (decide (q < 0)) ++ digits)
  large : ∀ z : ℤ, q = z → 2 ^ 63 ≤ z.natAbs → ∃ digits, IsWritten digits z.natAbs ∧
    text = String.ofList (Decimal.signText (decide (q < 0)) ++
      (digits ++ '.' :: List.replicate 6 '0'))
  broken : (∀ z : ℤ, q ≠ z) → ∃ millionths digits places,
    IsNearestEven (|q| * 10 ^ 6) millionths ∧
    IsWritten digits (millionths / 10 ^ 6) ∧
    places.length = 6 ∧ (∀ c ∈ places, c.isDigit = true) ∧
    Nat.ofDigitChars 10 places 0 = millionths % 10 ^ 6 ∧
    text = String.ofList (Decimal.signText (decide (q < 0)) ++ (digits ++ '.' :: places))

namespace Binary64

/-- The millionths to which a magnitude is rounded. -/
def millionths (units : Nat) : Nat :=
  nearestEven (units * 10 ^ 6) unitsPerOne

/-- A magnitude as it is printed. -/
def magnitudeText (units : Nat) : List Char :=
  if isWhole units && units < 2 ^ 63 * unitsPerOne then Nat.toDigits 10 (units / unitsPerOne)
  else Nat.toDigits 10 (millionths units / 10 ^ 6) ++
    '.' :: Decimal.fractionDigits 6 (millionths units % 10 ^ 6)

/-- A magnitude is rounded to the nearest number of millionths. -/
theorem isNearestEven_millionths (units : Nat) :
    IsNearestEven (units / unitsPerOne * 10 ^ 6) (millionths units) := by
  have hnearest := isNearestEven_nearestEven (units * 10 ^ 6) unitsPerOne_pos
  rw [Nat.cast_mul, mul_div_right_comm, Nat.cast_pow, Nat.cast_ofNat] at hnearest
  exact hnearest

theorem millionths_mul (count : Nat) : millionths (count * unitsPerOne) = count * 10 ^ 6 := by
  rw [millionths, Nat.mul_right_comm, nearestEven_mul _ unitsPerOne_pos]

/-- Sign and magnitude are printed one behind the other. -/
theorem resultText_finite (negative : Bool) (units : Nat) (h : Representable units) :
    (finite negative units h).resultText = String.ofList
      (Decimal.signText (decide (signed negative (units / unitsPerOne) < 0)) ++
        magnitudeText units) := by
  have hsign : decide (signed negative (units / unitsPerOne) < 0) = (negative && units != 0) := by
    rw [Bool.eq_iff_iff, decide_eq_true_iff, signed_lt_zero_iff negative (magnitude_nonneg units),
      Ne, magnitude_eq_zero_iff, Bool.and_eq_true, bne_iff_ne]
  rw [resultText, magnitudeText, hsign]
  split
  · rfl
  · next hplaces =>
      -- Zero is whole, so it is not printed with places.
      have hne : units ≠ 0 := by
        rintro rfl
        refine hplaces (Bool.and_eq_true_iff.mpr ⟨isWhole_iff.mpr (Nat.dvd_zero _), ?_⟩)
        exact decide_eq_true (Nat.mul_pos (by decide) unitsPerOne_pos)
      rw [bne_iff_ne.mpr hne, Bool.and_true, sixPlaces, List.append_assoc]
      rfl

/-- The magnitude of a whole number is printed with its digits, from 2⁶³ on with six zeros
    behind a point. -/
theorem magnitudeText_mul (count : Nat) :
    magnitudeText (count * unitsPerOne) = Nat.toDigits 10 count ++
      if count < 2 ^ 63 then [] else '.' :: List.replicate 6 '0' := by
  have hwhole : isWhole (count * unitsPerOne) = true := isWhole_iff.mpr (Nat.dvd_mul_left _ _)
  rw [magnitudeText, hwhole, Bool.true_and, millionths_mul, Nat.mul_div_cancel _ unitsPerOne_pos,
    Nat.mul_div_cancel _ (Nat.pow_pos (by decide)), Nat.mul_mod_left]
  simp only [decide_eq_true_iff, Nat.mul_lt_mul_right unitsPerOne_pos]
  split
  · rw [List.append_nil]
  · rfl

/-- A magnitude that is not whole is printed with six places. -/
theorem magnitudeText_of_not_dvd (h : ¬ unitsPerOne ∣ units) :
    magnitudeText units = Nat.toDigits 10 (millionths units / 10 ^ 6) ++
      '.' :: Decimal.fractionDigits 6 (millionths units % 10 ^ 6) := by
  have hwhole : isWhole units = false := eq_false_of_ne_true (mt isWhole_iff.mp h)
  rw [magnitudeText, hwhole, Bool.false_and, if_neg Bool.false_ne_true]

/-- Results are printed by the rules. -/
theorem isPrinted_resultText {x : Binary64} {q : ℚ} (h : x.value? = some q) :
    IsPrinted q x.resultText := by
  rcases exists_finite_of_value? h with ⟨negative, units, hunits, rfl, rfl⟩
  rw [resultText_finite]
  refine ⟨fun z hz hlt => ?_, fun z hz hle => ?_, fun hbroken => ?_⟩
  · rw [eq_natAbs_mul hz, magnitudeText_mul, if_pos hlt, List.append_nil]
    exact ⟨_, isWritten_toDigits _, rfl⟩
  · rw [eq_natAbs_mul hz, magnitudeText_mul, if_neg (Nat.not_lt.mpr hle)]
    exact ⟨_, isWritten_toDigits _, rfl⟩
  · -- Whole numbers that are too large are printed with six places, too, but not in this case.
    have hdvd : ¬ unitsPerOne ∣ units := by
      intro hdvd
      rcases exists_intCast_of_dvd negative hdvd with ⟨z, hz⟩
      exact hbroken z hz
    have hplaces := Nat.mod_lt (millionths units) (Nat.pow_pos (by decide : 0 < 10) : 0 < 10 ^ 6)
    rw [magnitudeText_of_not_dvd hdvd, abs_signed negative (magnitude_nonneg units)]
    exact ⟨_, _, _, isNearestEven_millionths units, isWritten_toDigits _,
      Decimal.fractionDigits_length (by decide) hplaces,
      List.all_eq_true.mp (Decimal.isDigit_fractionDigits _ _), Decimal.ofDigitChars_places _ _,
      rfl⟩

/-- The value of -2⁻⁷ is between two millionths, and the even one is printed. -/
theorem isPrinted_resultText_sample :
    (ofBits 0xbf80000000000000).value? = some (-1 / 128) ∧
      (ofBits 0xbf80000000000000).resultText = "-0.007812" ∧
      IsPrinted (-1 / 128) "-0.007812" := by
  have hvalue : (ofBits 0xbf80000000000000).value? = some (-1 / 128) := by decide +kernel
  have htext : (ofBits 0xbf80000000000000).resultText = "-0.007812" := by decide +kernel
  exact ⟨hvalue, htext, htext ▸ isPrinted_resultText hvalue⟩

/-- Not every whole number is printed without a point: 2⁶³ has one, and six zeros behind it. -/
theorem not_resultText_of_whole :
    ¬ ∀ (x : Binary64) (q : ℚ), x.value? = some q → ∀ z : ℤ, q = z →
      ∃ digits, IsWritten digits z.natAbs ∧
        x.resultText = String.ofList (Decimal.signText (decide (q < 0)) ++ digits) := by
  intro h
  have hvalue : (ofBits 0x43e0000000000000).value? = some ((2 ^ 63 : ℤ) : ℚ) := by decide +kernel
  have hpoint : '.' ∈ (ofBits 0x43e0000000000000).resultText.toList := by decide +kernel
  rcases h _ _ hvalue (2 ^ 63) rfl with ⟨digits, hdigits, htext⟩
  rw [htext, String.toList_ofList, List.mem_append] at hpoint
  rcases hpoint with hsign | hdigit
  · have hnone (negative : Bool) : '.' ∉ Decimal.signText negative := by
      cases negative <;> decide
    exact hnone _ hsign
  · exact absurd (hdigits.isDigit '.' hdigit) (by decide)

end Binary64

end Calculator
