import Calculator.Proofs.PrintedResults
import Calculator.Proofs.TwoPhases

/-!
# Results Entered Again

What is printed as a result can be typed in again, and then nothing drifts.

Two roundings follow each other. Printing rounds a magnitude to millionths, and reading rounds
those to the format. Where the format is finer than millionths, reading moves by less than
printing did, and where it is coarser, printing has lost nothing that the format can tell. One
argument covers both, and needs no look at the sizes: the number that was printed is one of
those that reading chooses from, so what is chosen is no farther from the printed decimal than
that number was. Hence the printed decimal is still the nearest in millionths, also with regard
to ties, and is printed once more.

A whole number loses nothing when it is printed, so reading finds it at no distance.

## Main definitions

* `decimalValue?`: The value of the decimal that a text writes.

## Theorems

* `Binary64.exists_numeral_magnitudeText`: A printed magnitude is a numeral, which stands for a
  number that is printed with the same millionths.
* `Binary64.decimalValue?_resultText`: What a result writes is its millionths.
* `Session.eval_result_of_number`: A text of one number is evaluated to it.
* `Session.eval_resultText`: A printed result can be typed back.
-/

namespace Calculator

/-- The value of a decimal. -/
def Decimal.value (d : Decimal) : ℚ :=
  signed d.negative d.magnitude

/-- The value of the decimal that a text writes, if it is a numeral. -/
def decimalValue? (text : String) : Option ℚ :=
  (Decimal.ofNumeral? text.toList).map Decimal.value

theorem Decimal.magnitude_ofDigits (whole fraction : List Char) :
    (ofDigits whole fraction).magnitude =
      Nat.ofDigitChars 10 (whole ++ fraction) 0 / 10 ^ fraction.length := by
  rw [magnitude, ofDigits, zpow_neg, zpow_natCast, ← div_eq_mul_inv]

/-- Digits with a point among them or without one write their value behind a sign. -/
theorem decimalValue?_digits {whole : List Char} {fraction : Option (List Char)}
    (hwhole : ∀ c ∈ whole, c.isDigit = true)
    (hfraction : ∀ c ∈ fraction.getD [], c.isDigit = true)
    (hne : whole ++ fraction.getD [] ≠ []) (negative : Bool) :
    decimalValue? (String.ofList
        (Decimal.signText negative ++ (whole ++ Numeral.fractionText fraction))) =
      some (signed negative (Nat.ofDigitChars 10 (whole ++ fraction.getD []) 0 /
        10 ^ (fraction.getD []).length)) := by
  rw [decimalValue?, String.toList_ofList,
    Decimal.ofNumeral?_signed (Numeral.isNumeralChar_of_mem_digits hwhole hfraction),
    Numeral.ofNumeral?_digits hwhole hfraction, if_neg hne, Option.map_some, Option.map_some,
    ← Decimal.magnitude_ofDigits]
  cases negative <;> rfl

namespace Binary64

/-- A printed magnitude is digits, with a point among them or without one, that write its
    millionths. -/
theorem exists_digits_magnitudeText (units : Nat) :
    ∃ whole fraction, magnitudeText units = whole ++ Numeral.fractionText fraction ∧
      whole ≠ [] ∧ whole.all Char.isDigit = true ∧
      (fraction.getD []).all Char.isDigit = true ∧
      (Decimal.ofDigits whole (fraction.getD [])).magnitude = millionths units / 10 ^ 6 := by
  rw [magnitudeText]
  -- A whole number has all its millionths in front of the point.
  split
  · next hform =>
      rcases isWhole_iff.mp (Bool.and_eq_true_iff.mp hform).1 with ⟨count, hcount⟩
      refine ⟨Nat.toDigits 10 (units / unitsPerOne), none, ?_, Nat.toDigits_ne_nil,
        Decimal.isDigit_toDigits _, rfl, ?_⟩
      · rw [Numeral.fractionText, List.append_nil]
      · rw [Decimal.magnitude_ofDigits, Option.getD_none, List.append_nil,
          Nat.ofDigitChars_ten_toDigits, hcount, Nat.mul_div_cancel_left _ unitsPerOne_pos,
          Nat.mul_comm, millionths_mul, List.length_nil, pow_zero, div_one, Nat.cast_mul,
          Nat.cast_pow, Nat.cast_ofNat, mul_div_cancel_right₀ _ (by positivity)]
  · refine ⟨Nat.toDigits 10 (millionths units / 10 ^ 6),
      some (Decimal.fractionDigits 6 (millionths units % 10 ^ 6)), rfl, Nat.toDigits_ne_nil,
      Decimal.isDigit_toDigits _, ?_, ?_⟩
    · rw [Option.getD_some]
      exact Decimal.isDigit_fractionDigits _ _
    · have hvalue := Decimal.ofDigitChars_fractionDigits (millionths units) 5
      have hlength := Decimal.length_fractionDigits_mod (millionths units) 5
      rw [Option.getD_some, Decimal.magnitude_ofDigits, hvalue, hlength]

theorem abs_sub_millionths (count units : Nat) :
    |(count : ℚ) - units / unitsPerOne * 10 ^ 6| =
      |(units : ℚ) / unitsPerOne - count / 10 ^ 6| * 10 ^ 6 := by
  rw [abs_sub_comm, abs_mul_sub_eq (by positivity)]

/-- Millionths differ from what they are rounded from by at most a half. -/
theorem abs_millionths_sub_le (units : Nat) :
    |(millionths units : ℚ) / 10 ^ 6 - units / unitsPerOne| ≤ 5 / 10 ^ 7 := by
  have hnear := (isNearestEven_millionths units).near
  rw [abs_sub_millionths] at hnear
  rw [abs_sub_comm]
  linarith

/-- What a magnitude of the format is rounded to in millionths is within the format. -/
theorem millionths_lt_overflowBound {units : Nat} (hunits : Representable units) :
    (millionths units : ℚ) / 10 ^ 6 < overflowBound := by
  rcases exists_overflow_binade with ⟨shift, hend, hbound, hone⟩
  have hle := IsShort.le_largest hunits.1 (hend ▸ hunits.2)
  have hstep : (0 : ℚ) < 2 ^ shift := by positivity
  have hle' : (units : ℚ) ≤ (2 ^ 53 - 1) * 2 ^ shift := by
    refine (Nat.cast_le.mpr hle).trans (le_of_eq ?_)
    push_cast
    ring
  have hone' : (unitsPerOne : ℚ) ≤ 2 ^ shift := by exact_mod_cast hone
  have hnear := (abs_sub_le_iff.mp (abs_millionths_sub_le units)).1
  -- The largest magnitude is half a step below the bound, and half a step is more than a half.
  have hroom : (units : ℚ) / unitsPerOne + 1 / 2 ≤ overflowBound := by
    rw [div_add' _ _ _ cast_unitsPerOne_pos.ne', div_le_iff₀ cast_unitsPerOne_pos, hbound]
    linarith
  linarith

/-- No magnitude of the format has a value that is nearer than that of the nearest one. -/
theorem IsNearest.abs_sub_le {q : ℚ} {units other : Nat} (h : IsNearest (q * unitsPerOne) units)
    (hother : Representable other) :
    |(units : ℚ) / unitsPerOne - q| ≤ |(other : ℚ) / unitsPerOne - q| := by
  have hvalue (count : Nat) : |(count : ℚ) - q * unitsPerOne| =
      |(count : ℚ) / unitsPerOne - q| * unitsPerOne := by
    rw [abs_sub_comm, abs_mul_sub_eq cast_unitsPerOne_pos, abs_sub_comm]
  have hnearest := h.nearest other hother
  rw [hvalue, hvalue] at hnearest
  exact le_of_mul_le_mul_right hnearest cast_unitsPerOne_pos

/-- The magnitude nearest to the millionths of another one is rounded to the same millionths.
    It is no farther from them than that one was. -/
theorem millionths_eq_of_isNearest {units units' : Nat} (hunits : Representable units)
    (h : IsNearest (millionths units / 10 ^ 6 * unitsPerOne) units') :
    millionths units' = millionths units := by
  -- The magnitude that was printed is one of those that are chosen from.
  have hnearer : |(millionths units : ℚ) - units' / unitsPerOne * 10 ^ 6| ≤
      |(millionths units : ℚ) - units / unitsPerOne * 10 ^ 6| := by
    rw [abs_sub_millionths, abs_sub_millionths]
    exact mul_le_mul_of_nonneg_right (h.abs_sub_le hunits) (by positivity)
  exact (isNearestEven_millionths units').eq ((isNearestEven_millionths units).of_abs_le hnearer)

/-- The magnitude nearest to the millionths of whole ones is that of these. -/
theorem eq_of_isNearest {units units' : Nat} (hunits : Representable units)
    (hdvd : unitsPerOne ∣ units)
    (h : IsNearest (millionths units / 10 ^ 6 * unitsPerOne) units') : units' = units := by
  have hexact : (millionths units : ℚ) / 10 ^ 6 * unitsPerOne = units := by
    rcases hdvd with ⟨count, hcount⟩
    rw [hcount, Nat.mul_comm, millionths_mul, Nat.cast_mul, Nat.cast_mul, Nat.cast_pow,
      Nat.cast_ofNat, mul_div_cancel_right₀ _ (by positivity)]
  have hnearest := h.nearest units hunits
  rw [hexact, sub_self, abs_zero] at hnearest
  exact Nat.cast_injective (sub_eq_zero.mp (abs_nonpos_iff.mp hnearest))

/-- A printed magnitude is a numeral, which stands for a number that is printed with the same
    millionths. If the magnitude is whole, it is that number. -/
theorem exists_numeral_magnitudeText {units : Nat} (hunits : Representable units) :
    ∃ n : Numeral, magnitudeText units = n.text ∧
      n.decimal.magnitude = millionths units / 10 ^ 6 ∧
      ∃ units' hunits', n.value = finite false units' hunits' ∧
        millionths units' = millionths units ∧ (unitsPerOne ∣ units → units' = units) := by
  rcases exists_digits_magnitudeText units with ⟨whole, fraction, htext, hne, hwhole, hfraction,
    hmagnitude⟩
  have hfinite : (Decimal.ofDigits whole (fraction.getD [])).toBinary64.isFinite = true := by
    rw [Decimal.isFinite_toBinary64_iff, hmagnitude]
    exact millionths_lt_overflowBound hunits
  refine ⟨⟨whole, fraction, hwhole, hfraction, List.append_ne_nil_of_left_ne_nil hne _, hfinite⟩,
    htext, hmagnitude, ?_⟩
  -- All that is known of reading is that it rounds the decimal correctly.
  have hrounding := (Decimal.toBinary64_eq_iff _ _).mp
    (rfl : (Decimal.ofDigits whole (fraction.getD [])).toBinary64 = _)
  rw [hmagnitude] at hrounding
  cases hvalue : (Decimal.ofDigits whole (fraction.getD [])).toBinary64 with
  | finite negative units' hunits' =>
      rw [hvalue] at hrounding
      rcases hrounding with ⟨rfl, -, hnearest⟩
      exact ⟨units', hunits', hvalue, millionths_eq_of_isNearest hunits hnearest,
        fun hdvd => eq_of_isNearest hunits hdvd hnearest⟩
  | infinite negative =>
      rw [hvalue] at hfinite
      cases hfinite
  | nan =>
      rw [hvalue] at hfinite
      cases hfinite

theorem millionths_eq_zero {units : Nat} (h : (units : ℚ) / unitsPerOne = 0) :
    (millionths units : ℚ) / 10 ^ 6 = 0 := by
  rw [(magnitude_eq_zero_iff units).mp h, ← Nat.zero_mul unitsPerOne, millionths_mul,
    Nat.zero_mul, Nat.cast_zero, zero_div]

/-- What a result writes is its millionths, with its sign. -/
theorem decimalValue?_resultText (negative : Bool) (units : Nat) (hunits : Representable units) :
    decimalValue? (finite negative units hunits).resultText =
      some (signed negative (millionths units / 10 ^ 6)) := by
  rcases exists_numeral_magnitudeText hunits with ⟨n, htext, hmagnitude, -⟩
  rw [Numeral.decimal, Decimal.magnitude_ofDigits] at hmagnitude
  rw [resultText_finite, htext, Numeral.text,
    decimalValue?_digits n.whole_digits n.fraction_digits n.has_digit, hmagnitude,
    signed_decide negative (magnitude_nonneg units) millionths_eq_zero]

end Binary64

/-- A numeral behind a sign is scanned as one number where a text begins. -/
theorem Numeral.tokens_ofText_signed (n : Numeral) (negative : Bool) :
    (Scanner.ofText (String.ofList (Decimal.signText negative ++ n.text))).tokens =
      [.number (if negative then n.value.neg else n.value)] := by
  have hscan : (Scanner.ofText (String.ofList (Decimal.signText negative ++ n.text))).tokens =
      Scanner.tokensOf false
        (String.ofList (Decimal.signText negative ++ n.text)).toList := rfl
  rw [hscan, String.toList_ofList]
  cases negative with
  | false => exact n.tokensOf_text false
  | true => exact n.tokensOf_minus_text

/-- A text of one number is evaluated to it in any session. -/
theorem Session.eval_result_of_number (s : Session) {text : String} {value : Binary64}
    (h : (Scanner.ofText text).tokens = [.number value]) :
    (s.eval text).result = .ok (some value) := by
  -- The number is the only statement.
  let tree : Statement := .sum (.single (.single (.number value)))
  have hnesting : tree.nesting ≤ nestingLimit := Nat.zero_le _
  have htokens : tokenize text = tree.tokens ++ [.endOfText, .endOfText] := by
    rw [tokenize, h]
    rfl
  exact s.eval_result_of_statement hnesting htokens

/-- A printed result can be typed back, in any session. What is entered has a value, which is
    printed as the same decimal, and that decimal is within half a millionth of the value that
    was printed first. A whole value is found again, a zero as that without a sign. -/
theorem Session.eval_resultText (s : Session) {x : Binary64} {q : ℚ} (h : x.value? = some q) :
    ∃ y r p, (s.eval x.resultText).result = .ok (some y) ∧ y.value? = some r ∧
      decimalValue? x.resultText = some p ∧ decimalValue? y.resultText = some p ∧
      |p - q| ≤ 5 / 10 ^ 7 ∧
      ∀ z : ℤ, q = z → r = q ∧ (q = 0 → y = .zero false) := by
  rcases Binary64.exists_finite_of_value? h with ⟨negative, units, hunits, rfl, rfl⟩
  rcases Binary64.exists_numeral_magnitudeText hunits with
    ⟨n, htext, -, units', hunits', hvalue, hmillionths, hwhole⟩
  generalize hsign : decide (signed negative (units / unitsPerOne) < 0) = sign
  have hentered : (s.eval (Binary64.finite negative units hunits).resultText).result =
      .ok (some (.finite sign units' hunits')) := by
    refine s.eval_result_of_number ?_
    rw [Binary64.resultText_finite, htext, n.tokens_ofText_signed, hvalue, hsign]
    cases sign <;> rfl
  refine ⟨_, _, _, hentered, Binary64.value?_finite sign units' hunits',
    Binary64.decimalValue?_resultText negative units hunits, ?_, ?_, fun z hz => ?_⟩
  · -- The sign that is not printed is that of a zero, which has no millionths either.
    rw [Binary64.decimalValue?_resultText, hmillionths, ← hsign,
      signed_decide negative (Binary64.magnitude_nonneg units) Binary64.millionths_eq_zero]
  · rw [abs_signed_sub]
    exact Binary64.abs_millionths_sub_le units
  · -- The magnitude is found again, and the sign too, unless it is that of a zero.
    have hfound := hwhole ⟨_, (Binary64.eq_natAbs_mul hz).trans (Nat.mul_comm _ _)⟩
    subst hfound
    refine ⟨?_, fun hzero => ?_⟩
    · rw [← hsign, signed_decide negative (Binary64.magnitude_nonneg units') id]
    · have hnone := abs_signed negative (Binary64.magnitude_nonneg units')
      rw [hzero, abs_zero, eq_comm, Binary64.magnitude_eq_zero_iff] at hnone
      subst hnone
      rw [hzero, decide_eq_false (lt_irrefl 0)] at hsign
      rw [← hsign]
      rfl

/-- The value -2⁻⁷ is printed as less than eight thousandths, and this is found again. -/
theorem Session.eval_resultText_sample :
    (Binary64.ofBits 0xbf80000000000000).value? = some (-1 / 128) ∧
      (Binary64.ofBits 0xbf80000000000000).resultText = "-0.007812" ∧
      ∃ y r p, (new.eval "-0.007812").result = .ok (some y) ∧ y.value? = some r ∧
        decimalValue? "-0.007812" = some p ∧ decimalValue? y.resultText = some p ∧
        |p - (-1 / 128)| ≤ 5 / 10 ^ 7 ∧
        ∀ z : ℤ, (-1 / 128 : ℚ) = z → r = -1 / 128 ∧ ((-1 / 128 : ℚ) = 0 → y = .zero false) := by
  have hvalue : (Binary64.ofBits 0xbf80000000000000).value? = some (-1 / 128) := by
    decide +kernel
  have htext : (Binary64.ofBits 0xbf80000000000000).resultText = "-0.007812" := by
    decide +kernel
  exact ⟨hvalue, htext, htext ▸ eval_resultText new hvalue⟩

end Calculator
