import Calculator.Decimal.Shortest
import Calculator.Proofs.Numerals

/-!
# The Text of a Number

The text of a finite number is a numeral, and it is read as that number.

A number is written in two steps. The first finds a decimal that rounds to the number: it
tries few digits before many, and what it tries last is the exact expansion, which needs no
rounding. Whatever it finds, the test that it has passed is the test of the reader. The
second step writes the decimal without a power of ten. It may leave out zeros at the end of
the fraction, which expands or reduces a quotient and does not change its rounding.

So nothing here depends on how the search goes about it, and a number of any size is written
with an optional minus sign, digits, and possibly a point with more digits.

## Main definitions

* `Decimal.abs`: A decimal without its sign.

## Theorems

* `Decimal.toBinary64_ofDigits_append`: Zeros at the end do not change the number.
* `Decimal.exists_numeral`: A decimal that rounds to a finite number is written as a numeral.
* `Binary64.exists_shortest`: The shortest decimal rounds to the number it is for.
* `Binary64.exists_numeral`: The text of a finite number is a numeral behind its sign.
* `Binary64.ofNumeral_text_of_isFinite`: A finite number is read back from its text.
* `Binary64.eq_finite_of_ofNumeral`: What is read has the sign that is written.
-/

namespace Calculator

namespace Decimal

/-- A decimal without its sign. -/
def abs (d : Decimal) : Decimal :=
  { d with negative := false }

theorem withSign_abs (d : Decimal) : d.abs.withSign d.negative = d := by
  rw [abs, withSign, Bool.xor_false]

/-- A decimal with some digits behind the point is rounded as one quotient. -/
theorem toBinary64_of_places {d : Decimal} {places : Nat}
    (h : d.exponent = -(places : Int)) :
    d.toBinary64 = .round d.negative (d.coefficient * unitsPerOne) (10 ^ places) := by
  rcases d with ⟨negative, coefficient, exponent⟩
  obtain rfl : exponent = -(places : Int) := h
  cases places with
  | zero =>
      have hwhole : toBinary64 ⟨negative, coefficient, -((0 : Nat) : Int)⟩ =
          .round negative (coefficient * 10 ^ 0 * unitsPerOne) 1 := rfl
      rw [hwhole, Nat.pow_zero, Nat.mul_one]
  | succ places => rfl

/-- Zeros at the end of the fraction do not change the number. -/
theorem toBinary64_ofDigits_append (whole fraction : List Char) (zeros : Nat) :
    (ofDigits whole (fraction ++ List.replicate zeros '0')).toBinary64 =
      (ofDigits whole fraction).toBinary64 := by
  have hplaces : (fraction ++ List.replicate zeros '0').length = zeros + fraction.length := by
    rw [List.length_append, List.length_replicate, Nat.add_comm]
  rw [toBinary64_of_places rfl, toBinary64_of_places rfl, hplaces, Nat.pow_add]
  simp only [ofDigits]
  rw [← List.append_assoc, Nat.ofDigitChars_append, Nat.ofDigitChars_replicate_zero,
    Nat.mul_assoc, Binary64.round_mul_mul (Nat.pow_pos (by decide))]

/-- The zeros that are dropped at the end are zeros. -/
theorem exists_append_replicate (digits : List Char) :
    ∃ zeros, digits = dropTrailingZeros digits ++ List.replicate zeros '0' := by
  refine ⟨(digits.reverse.takeWhile (· = '0')).length, ?_⟩
  have hzeros : digits.reverse.takeWhile (· = '0') =
      List.replicate (digits.reverse.takeWhile (· = '0')).length '0' :=
    List.eq_replicate_of_mem fun c hc =>
      of_decide_eq_true (List.all_eq_true.mp List.all_takeWhile c hc)
  rw [← List.reverse_replicate, ← hzeros, dropTrailingZeros, ← List.reverse_append,
    List.takeWhile_append_dropWhile, List.reverse_reverse]

theorem isDigit_toDigits (n : Nat) : (Nat.toDigits 10 n).all Char.isDigit = true :=
  List.all_eq_true.mpr fun _ hc => Nat.isDigit_of_mem_toDigits (by decide) (by decide) hc

theorem isDigit_fractionDigits (places fraction : Nat) :
    (fractionDigits places fraction).all Char.isDigit = true := by
  rw [fractionDigits, List.leftpad, List.all_append, isDigit_toDigits, Bool.and_true]
  refine List.all_eq_true.mpr fun c hc => ?_
  rw [List.eq_of_mem_replicate hc]
  decide

theorem length_fractionDigits_mod (coefficient places : Nat) :
    (fractionDigits (places + 1) (coefficient % 10 ^ (places + 1))).length = places + 1 :=
  fractionDigits_length (Nat.succ_pos places)
    (Nat.mod_lt coefficient (Nat.pow_pos (by decide : 0 < 10)))

/-- The zeros that lead the digits of a fraction do not change what they write. -/
theorem ofDigitChars_places (places fraction : Nat) :
    Nat.ofDigitChars 10 (fractionDigits places fraction) 0 = fraction := by
  rw [fractionDigits, List.leftpad, Nat.ofDigitChars_append, Nat.ofDigitChars_replicate_zero,
    Nat.mul_zero, Nat.ofDigitChars_ten_toDigits]

/-- The digits of a whole part and a fraction write the coefficient. -/
theorem ofDigitChars_fractionDigits (coefficient places : Nat) :
    Nat.ofDigitChars 10 (Nat.toDigits 10 (coefficient / 10 ^ (places + 1)) ++
      fractionDigits (places + 1) (coefficient % 10 ^ (places + 1))) 0 = coefficient := by
  rw [Nat.ofDigitChars_append, Nat.ofDigitChars_ten_toDigits,
    Nat.ofDigitChars_eq_ofDigitChars_zero, length_fractionDigits_mod, ofDigitChars_places,
    Nat.div_add_mod]

/-- The digits of a whole part and a fraction write the number, with or without the zeros
    at the end of the fraction. -/
theorem toBinary64_ofDigits_dropTrailingZeros (negative : Bool) (coefficient places : Nat) :
    (ofDigits (Nat.toDigits 10 (coefficient / 10 ^ (places + 1))) (dropTrailingZeros
      (fractionDigits (places + 1) (coefficient % 10 ^ (places + 1))))).toBinary64 =
      (abs ⟨negative, coefficient, .negSucc places⟩).toBinary64 := by
  obtain ⟨zeros, hzeros⟩ := exists_append_replicate
    (fractionDigits (places + 1) (coefficient % 10 ^ (places + 1)))
  have hplaces : (abs ⟨negative, coefficient, .negSucc places⟩).exponent =
      -((places + 1 : Nat) : Int) := rfl
  rw [← toBinary64_ofDigits_append _ _ zeros, ← hzeros, toBinary64_of_places rfl,
    length_fractionDigits_mod, toBinary64_of_places hplaces]
  simp only [ofDigits, ofDigitChars_fractionDigits, abs]

/-- A decimal is written with digits, and with a point among them or without one, behind its
    sign. -/
theorem exists_positional (d : Decimal) :
    ∃ whole fraction,
      d.positional = signText d.negative ++ (whole ++ Numeral.fractionText fraction) ∧
      whole ≠ [] ∧ whole.all Char.isDigit = true ∧
      (fraction.getD []).all Char.isDigit = true ∧
      (ofDigits whole (fraction.getD [])).toBinary64 = d.abs.toBinary64 := by
  -- A power of ten has no fraction, and places have one unless all of their digits are zeros.
  rcases d with ⟨negative, coefficient, power | places⟩
  · refine ⟨Nat.toDigits 10 (coefficient * 10 ^ power), none, ?_, Nat.toDigits_ne_nil,
      isDigit_toDigits _, rfl, ?_⟩
    · rw [Numeral.fractionText, List.append_nil]
      rfl
    · rw [toBinary64_of_places rfl, Option.getD_none]
      simp only [ofDigits, List.append_nil, Nat.ofDigitChars_ten_toDigits]
      rfl
  · obtain ⟨zeros, hzeros⟩ := exists_append_replicate
      (fractionDigits (places + 1) (coefficient % 10 ^ (places + 1)))
    have hdigits := isDigit_fractionDigits (places + 1) (coefficient % 10 ^ (places + 1))
    have hvalue := toBinary64_ofDigits_dropTrailingZeros negative coefficient places
    rw [hzeros, List.all_append, Bool.and_eq_true] at hdigits
    rw [positional]
    dsimp only
    split
    · next hnone =>
        rw [hnone] at hvalue
        refine ⟨_, none, ?_, Nat.toDigits_ne_nil, isDigit_toDigits _, rfl, hvalue⟩
        rw [Numeral.fractionText, List.append_nil]
    · exact ⟨_, some _, rfl, Nat.toDigits_ne_nil, isDigit_toDigits _, hdigits.1, hvalue⟩

/-- A decimal that rounds to a finite number is written as a numeral behind its sign. -/
theorem exists_numeral {d : Decimal} {units : Nat} {h : Representable units}
    (hfinite : d.toBinary64 = .finite d.negative units h) :
    ∃ n : Numeral, d.positional = signText d.negative ++ n.text ∧
      n.value = .finite false units h := by
  rcases d.exists_positional with ⟨whole, fraction, htext, hne, hwhole, hfraction, hvalue⟩
  -- Rounding does not look at the sign, so the digits alone have the value without it.
  have habs : d.abs.toBinary64 = .finite false units h := by
    have hsigned := toBinary64_withSign d.negative d.abs
    rw [withSign_abs, hfinite] at hsigned
    cases hnegative : d.negative with
    | false =>
        rw [hnegative, if_neg Bool.false_ne_true] at hsigned
        exact hsigned.symm
    | true =>
        rw [hnegative, if_pos rfl] at hsigned
        rw [← Binary64.neg_neg d.abs.toBinary64, ← hsigned]
        rfl
  rw [habs] at hvalue
  refine ⟨⟨whole, fraction, hwhole, hfraction, List.append_ne_nil_of_left_ne_nil hne _, ?_⟩,
    htext, hvalue⟩
  rw [hvalue]
  rfl

end Decimal

namespace Binary64

/-- The exact expansion of a magnitude to any number of places needs no rounding. -/
theorem round_expansion (negative : Bool) (units places : Nat) :
    round negative (units * 5 ^ places * 2 ^ places) (10 ^ places) =
      round negative units 1 := by
  have hten : 5 ^ places * 2 ^ places = 10 ^ places := (Nat.mul_pow 5 2 places).symm
  rw [Nat.mul_assoc, hten, Nat.mul_comm, ← Nat.mul_one (10 ^ places), Nat.mul_assoc,
    Nat.one_mul, round_mul_mul (Nat.pow_pos (by decide))]

/-- The exact expansion of a magnitude rounds to it. -/
theorem toBinary64_exactCoefficient (negative : Bool) (units : Nat) :
    Decimal.toBinary64 ⟨negative, exactCoefficient units, -1074⟩ = round negative units 1 := by
  have hplaces : (-1074 : Int) = -((1074 : Nat) : Int) := rfl
  rw [Decimal.toBinary64_of_places hplaces, exactCoefficient, unitsPerOne]
  exact round_expansion negative units 1074

theorem negative_of_mem_candidates {negative : Bool} {coefficient length count : Nat}
    {d : Decimal} (h : d ∈ candidates negative coefficient length count) :
    d.negative = negative := by
  unfold candidates at h
  dsimp only at h
  split at h <;> simp only [List.mem_cons, List.not_mem_nil, or_false] at h <;>
    rcases h with rfl | rfl <;> rfl

/-- The shortest decimal has the sign of the number it is for, and it rounds to it. It is
    given a name here, since whoever looks at its parts would have the search run. -/
theorem exists_shortest (negative : Bool) (units : Nat) :
    ∃ d, shortest negative units = d ∧ d.negative = negative ∧
      d.toBinary64 = round negative units 1 := by
  have hexact := toBinary64_exactCoefficient negative units
  unfold shortest
  dsimp only
  generalize hfound : List.findSome? _ _ = found
  cases found with
  | some d =>
      -- The search has tested what it has found.
      rcases List.exists_of_findSome?_eq_some hfound with ⟨count, _, hcount⟩
      have hmem := List.mem_of_find?_eq_some hcount
      have htested := List.find?_some hcount
      exact ⟨d, rfl, negative_of_mem_candidates hmem, eq_of_beq htested⟩
  | none => exact ⟨_, rfl, rfl, hexact⟩

/-- The text of a finite number is a numeral behind its sign. -/
theorem exists_numeral (negative : Bool) (units : Nat) (h : Representable units) :
    ∃ n : Numeral, (finite negative units h).text =
        String.ofList (Decimal.signText negative ++ n.text) ∧
      n.value = finite false units h := by
  rcases exists_shortest negative units with ⟨d, hd, rfl, hround⟩
  rw [round_of_representable d.negative h] at hround
  rcases Decimal.exists_numeral hround with ⟨n, htext, hvalue⟩
  refine ⟨n, ?_, hvalue⟩
  rw [text, hd, htext]

/-- A finite number is read back from its text, with the sign of a zero. -/
theorem ofNumeral_text_of_isFinite {x : Binary64} (h : x.isFinite = true) :
    ofNumeral x.text = .ok x := by
  cases x with
  | finite negative units hunits =>
      rcases exists_numeral negative units hunits with ⟨n, htext, hvalue⟩
      rw [htext, ofNumeral_text, hvalue]
      cases negative <;> rfl
  | infinite negative => cases h
  | nan => cases h

theorem exists_of_isFinite_round {negative : Bool} {num den : Nat}
    (h : (round negative num den).isFinite = true) :
    ∃ units hunits, round negative num den = finite negative units hunits := by
  unfold round at h ⊢
  split at h
  · next hlt => exact ⟨_, _, dif_pos hlt⟩
  · cases h

/-- What is read from a numeral has the sign that is written. -/
theorem eq_finite_of_ofNumeral {text : String} {x : Binary64} (h : ofNumeral text = .ok x) :
    ∃ units hunits, x = finite (Decimal.splitSign text.toList).1 units hunits := by
  rcases exists_of_ofNumeral h with ⟨d, hdecimal, rfl, hfinite⟩
  have hsign : d.negative = (Decimal.splitSign text.toList).1 := by
    unfold Decimal.ofNumeral? at hdecimal
    dsimp only at hdecimal
    split at hdecimal
    · cases hdecimal
    · rcases Option.map_eq_some_iff.mp hdecimal with ⟨_, _, rfl⟩
      rfl
  rw [← hsign]
  -- Either way the value is a rounded quotient, which keeps the sign.
  rcases d with ⟨negative, coefficient, power | places⟩
  · exact exists_of_isFinite_round hfinite
  · exact exists_of_isFinite_round hfinite

end Binary64

end Calculator
