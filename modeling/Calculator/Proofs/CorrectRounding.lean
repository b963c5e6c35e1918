import Calculator.Decimal.Basic
import Mathlib.Algebra.Order.Field.Rat
import Mathlib.Algebra.Order.Ring.Abs
import Mathlib.Tactic.Linarith
import Mathlib.Tactic.Ring

/-!
# Correct Rounding

Rounding as one would say it of exact values, and that the library does it so.

Values are rational numbers here. A whole number is the rounding of one if it is no farther
away than a half, and if it is even where it is exactly a half away. A binary number is the
rounding of a magnitude if no number of the format is nearer, and if its significand is even
where another one is as near. Either rule leaves no choice, so it is a definition of rounding,
and neither speaks of quotients and remainders as the computation does.

Rounding to a binary number counts the steps that numbers of that size are apart, and rounds
the count. What has to be shown is that nothing is lost by looking at these steps alone. Below
the binade of the steps there are finer ones, but the least number of the binade lies in
between and is nearer than all that is below it. Above it, the steps are multiples. Two numbers
that are equally near are one step apart, so one has an even significand and the other an odd
one.

The bound of the format comes last. A magnitude is rounded to 2¹⁰²⁴ from half a step below it
on, the half step included, since the largest number of the format has an odd significand.

## Main definitions

* `IsNearestEven`: The whole number that a rational one is rounded to.
* `Binary64.significand`: The number of steps in a magnitude.
* `Binary64.IsNearest`: The magnitude of the format that an exact one is rounded to.
* `Binary64.IsRounding`: The binary number that an exact magnitude with a sign is rounded to.
* `Decimal.magnitude`: The exact magnitude of a decimal.

## Theorems

* `isNearestEven_nearestEven`: A quotient is rounded to the nearest whole number.
* `IsNearestEven.of_abs_le`: A rounding stays one for whatever is nearer to it.
* `Binary64.abs_roundUnits_sub_le`: No magnitude of 53 bits is nearer than the rounded one.
* `Binary64.IsShort.significand_of_tie`: Where one is as near, it has the odd significand.
* `Binary64.roundUnits_lt_iff`: When the rounded magnitude stays below the end of a binade.
* `Binary64.round_eq_iff`, `Decimal.toBinary64_eq_iff`: Quotients and decimals are rounded
  correctly.
-/

namespace Calculator

/-- The whole number nearest to a rational one, and of two that are equally near the even one. -/
structure IsNearestEven (q : ℚ) (n : Nat) : Prop where
  near : |(n : ℚ) - q| ≤ 1 / 2
  even : |(n : ℚ) - q| = 1 / 2 → n % 2 = 0

/-- A quotient is rounded to the nearest whole number. -/
theorem isNearestEven_nearestEven (num : Nat) {den : Nat} (hden : 0 < den) :
    IsNearestEven ((num : ℚ) / den) (nearestEven num den) := by
  have hpos : (0 : ℚ) < den := Nat.cast_pos.mpr hden
  have hq : (num : ℚ) / den = (num / den : Nat) + ((num % den : Nat) : ℚ) / den := by
    rw [div_eq_iff hpos.ne', add_mul, div_mul_cancel₀ _ hpos.ne', mul_comm]
    exact_mod_cast (Nat.div_add_mod num den).symm
  have hrest : 0 ≤ ((num % den : Nat) : ℚ) / den := div_nonneg (Nat.cast_nonneg _) hpos.le
  have htie (h : ((num % den : Nat) : ℚ) / den = 1 / 2) : nearestEven num den % 2 = 0 := by
    refine nearestEven_mod_two ?_
    rw [div_eq_div_iff hpos.ne' two_ne_zero, one_mul, mul_comm] at h
    exact_mod_cast h
  -- The distance is what is left behind the quotient when it is kept, and what is missing to one
  -- when it is raised.
  rcases nearestEven_cases num den with ⟨hn, hle⟩ | ⟨hn, hge⟩
  · have hhalf : ((num % den : Nat) : ℚ) / den ≤ 1 / 2 := by
      rw [div_le_div_iff₀ hpos two_pos, one_mul, mul_comm]
      exact_mod_cast hle
    have hdistance : |(nearestEven num den : ℚ) - num / den| = ((num % den : Nat) : ℚ) / den := by
      rw [hn, hq, sub_add_cancel_left, abs_neg, abs_of_nonneg hrest]
    exact ⟨hdistance ▸ hhalf, fun h => htie (hdistance ▸ h)⟩
  · have hhalf : 1 / 2 ≤ ((num % den : Nat) : ℚ) / den := by
      rw [div_le_div_iff₀ two_pos hpos, one_mul, mul_comm _ (2 : ℚ)]
      exact_mod_cast hge
    have hlt : ((num % den : Nat) : ℚ) / den < 1 := by
      rw [div_lt_one₀ hpos]
      exact_mod_cast Nat.mod_lt num hden
    have hdistance : |(nearestEven num den : ℚ) - num / den| =
        1 - ((num % den : Nat) : ℚ) / den := by
      rw [hn, hq, Nat.cast_succ, add_sub_add_left_eq_sub, abs_of_pos (by linarith)]
    exact ⟨by linarith, fun h => htie (by linarith)⟩

/-- Two whole numbers cannot both be nearer than a half. -/
theorem one_le_abs_sub_add_abs_sub {m n : Nat} (h : m ≠ n) (q : ℚ) :
    1 ≤ |(m : ℚ) - q| + |(n : ℚ) - q| := by
  have hone : (1 : ℚ) ≤ |(m : ℚ) - n| := by
    exact_mod_cast Int.one_le_abs (sub_ne_zero.mpr (Int.ofNat_inj.not.mpr h))
  have htriangle := abs_sub_le (m : ℚ) q n
  rw [abs_sub_comm q] at htriangle
  exact hone.trans htriangle

namespace IsNearestEven

variable {q r : ℚ} {n m : Nat}

theorem nearest (h : IsNearestEven q n) (m : Nat) : |(n : ℚ) - q| ≤ |(m : ℚ) - q| := by
  by_cases heq : m = n
  · rw [heq]
  · have hboth := one_le_abs_sub_add_abs_sub heq q
    have hnear := h.near
    linarith

/-- If another whole number is as near, then it is a neighbour, and this one is even. -/
theorem of_tie (h : IsNearestEven q n) (hne : m ≠ n) (htie : |(m : ℚ) - q| = |(n : ℚ) - q|) :
    n % 2 = 0 ∧ (m = n + 1 ∨ n = m + 1) := by
  have hboth := one_le_abs_sub_add_abs_sub hne q
  have hnear := h.near
  refine ⟨h.even (by linarith), ?_⟩
  have htriangle := abs_sub_le (m : ℚ) q n
  rw [abs_sub_comm q] at htriangle
  -- Both are half a unit away at most, so they are neighbours.
  have hle : |(m : ℤ) - n| ≤ 1 := by
    have hle : |(m : ℚ) - n| ≤ 1 := by linarith
    exact_mod_cast hle
  rw [abs_le] at hle
  omega

/-- A number stays the nearest if it is approached. -/
theorem of_abs_le (h : IsNearestEven q n) (hle : |(n : ℚ) - r| ≤ |(n : ℚ) - q|) :
    IsNearestEven r n where
  near := hle.trans h.near
  even htie := h.even (le_antisymm h.near (htie ▸ hle))

theorem eq (hn : IsNearestEven q n) (hm : IsNearestEven q m) : n = m := by
  by_contra hne
  have htie := le_antisymm (hm.nearest n) (hn.nearest m)
  have hn' := hn.of_tie (Ne.symm hne) htie
  have hm' := hm.of_tie hne htie.symm
  omega

end IsNearestEven

namespace Binary64

/-- A magnitude of at most 53 significant bits, below the overflow bound or not. -/
def IsShort (units : Nat) : Prop :=
  2 ^ stepExponent units ∣ units

/-- The number of steps in a magnitude. -/
def significand (units : Nat) : Nat :=
  units / 2 ^ stepExponent units

theorem isShort_mul_two_pow {count : Nat} (hcount : count ≤ 2 ^ 53) (shift : Nat) :
    IsShort (count * 2 ^ shift) :=
  two_pow_dvd_mul_two_pow hcount

/-- The step of a magnitude that is given by its significand. -/
theorem stepExponent_mul_two_pow {count shift : Nat} (hlt : count < 2 ^ 53)
    (hnormal : shift = 0 ∨ 2 ^ 52 ≤ count) : stepExponent (count * 2 ^ shift) = shift := by
  unfold stepExponent
  rcases hnormal with rfl | hle
  · rw [Nat.pow_zero, Nat.mul_one]
    by_cases hzero : count = 0
    · rw [hzero, Nat.log2_zero]
    · have hlog := (Nat.log2_lt hzero).mpr hlt
      omega
  · -- With a full significand the leading bit tells the exponent.
    have hlog : (count * 2 ^ shift).log2 = 52 + shift := by
      have hpos := Nat.two_pow_pos shift
      rw [Nat.log2_eq_iff (Nat.mul_pos (by omega) hpos).ne']
      rw [Nat.pow_add, Nat.add_right_comm, Nat.pow_add]
      exact ⟨Nat.mul_le_mul_right _ hle, Nat.mul_lt_mul_of_pos_right hlt hpos⟩
    omega

/-- The significand of a magnitude that is given by it. -/
theorem significand_mul_two_pow {count shift : Nat} (hlt : count < 2 ^ 53)
    (hnormal : shift = 0 ∨ 2 ^ 52 ≤ count) : significand (count * 2 ^ shift) = count := by
  rw [significand, stepExponent_mul_two_pow hlt hnormal,
    Nat.mul_div_cancel _ (Nat.two_pow_pos shift)]

/-- The full count of steps is half as many steps of the next binade. -/
theorem significand_two_pow (shift : Nat) : significand (2 ^ 53 * 2 ^ shift) = 2 ^ 52 := by
  have hnext : 2 ^ 53 * 2 ^ shift = 2 ^ 52 * 2 ^ (shift + 1) := by
    rw [← Nat.pow_add, ← Nat.pow_add]
    congr 1
    omega
  rw [hnext, significand_mul_two_pow (by decide) (.inr (Nat.le_refl _))]

/-- A magnitude of 53 bits is a number of steps, or it is below the binade of the step. -/
theorem IsShort.dvd_or_lt {units : Nat} (h : IsShort units) (shift : Nat) :
    2 ^ shift ∣ units ∨ units < 2 ^ 52 * 2 ^ shift := by
  by_cases hle : shift ≤ stepExponent units
  · exact .inl ((Nat.pow_dvd_pow 2 hle).trans h)
  · refine .inr ?_
    rw [← Nat.pow_add]
    refine Nat.lt_of_lt_of_le Nat.lt_log2_self (Nat.pow_le_pow_right (by decide) ?_)
    unfold stepExponent at hle
    omega

/-- An even count of steps makes an even significand. -/
theorem significand_mod_two {count shift : Nat} (heven : count % 2 = 0) (hle : count ≤ 2 ^ 53)
    (hnormal : shift = 0 ∨ 2 ^ 52 ≤ count) : significand (count * 2 ^ shift) % 2 = 0 := by
  rcases Nat.eq_or_lt_of_le hle with rfl | hlt
  · rw [significand_two_pow]
  · rw [significand_mul_two_pow hlt hnormal]
    exact heven

/-- An odd count of steps is a significand. -/
theorem IsShort.significand_eq {count shift : Nat} (h : IsShort (count * 2 ^ shift))
    (hodd : count % 2 = 1) (hnormal : shift = 0 ∨ 2 ^ 52 ≤ count) :
    significand (count * 2 ^ shift) = count := by
  refine significand_mul_two_pow ?_ hnormal
  by_contra hle
  -- With more bits the magnitude would be a multiple of the next step.
  have hexponent : shift + 1 ≤ stepExponent (count * 2 ^ shift) := by
    have hpos := Nat.two_pow_pos shift
    have hlog : 53 + shift ≤ (count * 2 ^ shift).log2 := by
      rw [Nat.le_log2 (Nat.mul_pos (by omega) hpos).ne', Nat.pow_add]
      exact Nat.mul_le_mul_right _ (by omega)
    unfold stepExponent
    omega
  have hdvd : 2 ^ shift * 2 ∣ 2 ^ shift * count := by
    rw [← Nat.pow_succ, Nat.mul_comm _ count]
    exact (Nat.pow_dvd_pow 2 hexponent).trans h
  have htwo := Nat.dvd_of_mul_dvd_mul_left (Nat.two_pow_pos shift) hdvd
  omega

theorem abs_mul_sub_eq {step : ℚ} (hstep : 0 < step) (count q : ℚ) :
    |count * step - q| = |count - q / step| * step := by
  have hsteps : count * step - q = (count - q / step) * step := by
    rw [sub_mul, div_mul_cancel₀ q hstep.ne']
  rw [hsteps, abs_mul, abs_of_pos hstep]

section Steps

variable {num den : Nat}

/-- With a step of more than one unit, the quotient is in the binade of the step. -/
theorem binade_le (hstep : 0 < stepExponent (num / den)) :
    2 ^ 52 * 2 ^ stepExponent (num / den) ≤ num / den := by
  unfold stepExponent at hstep ⊢
  have hne : num / den ≠ 0 := by
    intro hzero
    rw [hzero, Nat.log2_zero] at hstep
    omega
  rw [← Nat.pow_add, Nat.add_sub_cancel' (by omega)]
  exact Nat.log2_self_le hne

/-- Rounding counts the steps in the quotient to the nearest whole number. -/
theorem isNearestEven_steps (num : Nat) (hden : 0 < den) (shift : Nat) :
    IsNearestEven ((num : ℚ) / den / (2 : ℚ) ^ shift) (nearestEven num (den * 2 ^ shift)) := by
  have hsteps := isNearestEven_nearestEven num (Nat.mul_pos hden (Nat.two_pow_pos shift))
  rw [Nat.cast_mul, Nat.cast_pow, Nat.cast_ofNat, ← div_div] at hsteps
  exact hsteps

/-- A rounded magnitude of more than one unit to the step has all 53 bits. -/
theorem two_pow_le_steps (hstep : 0 < stepExponent (num / den)) :
    2 ^ 52 ≤ nearestEven num (den * 2 ^ stepExponent (num / den)) := by
  refine Nat.le_trans ?_ (div_le_nearestEven _ _)
  rw [← Nat.div_div_eq_div_mul, Nat.le_div_iff_mul_le (Nat.two_pow_pos _)]
  exact binade_le hstep

theorem cast_roundUnits (num den : Nat) :
    (roundUnits num den : ℚ) =
      nearestEven num (den * 2 ^ stepExponent (num / den)) * 2 ^ stepExponent (num / den) := by
  rw [roundUnits, Nat.cast_mul, Nat.cast_pow, Nat.cast_ofNat]

/-- Below the binade of the step there is nothing as near as the rounded magnitude. -/
theorem abs_roundUnits_sub_lt (hden : 0 < den) (hstep : 0 < stepExponent (num / den))
    {other : Nat} (hlt : other < 2 ^ 52 * 2 ^ stepExponent (num / den)) :
    |(roundUnits num den : ℚ) - num / den| < |(other : ℚ) - num / den| := by
  have hpos : (0 : ℚ) < 2 ^ stepExponent (num / den) := by positivity
  have hbinade : (2 : ℚ) ^ 52 * 2 ^ stepExponent (num / den) ≤ num / den := by
    have hfloor := binade_le hstep
    rw [Nat.le_div_iff_mul_le hden] at hfloor
    rw [le_div_iff₀ (Nat.cast_pos.mpr hden)]
    exact_mod_cast hfloor
  have hlt' : (other : ℚ) < 2 ^ 52 * 2 ^ stepExponent (num / den) := by exact_mod_cast hlt
  -- The least magnitude of the binade lies between the other one and the quotient.
  calc |(roundUnits num den : ℚ) - num / den|
      ≤ |(2 : ℚ) ^ 52 * 2 ^ stepExponent (num / den) - num / den| := by
        rw [cast_roundUnits, abs_mul_sub_eq hpos, abs_mul_sub_eq hpos]
        refine mul_le_mul_of_nonneg_right ?_ hpos.le
        exact_mod_cast (isNearestEven_steps num hden _).nearest (2 ^ 52)
    _ = num / den - 2 ^ 52 * 2 ^ stepExponent (num / den) := by
        rw [abs_of_nonpos (by linarith), neg_sub]
    _ < num / den - other := by linarith
    _ = |(other : ℚ) - num / den| := by rw [abs_of_neg (by linarith), neg_sub]

/-- What is as near as the rounded magnitude is a number of steps. -/
theorem IsShort.exists_steps {other : Nat} (h : IsShort other) (hden : 0 < den)
    (hle : |(other : ℚ) - num / den| ≤ |(roundUnits num den : ℚ) - num / den|) :
    ∃ count, other = count * 2 ^ stepExponent (num / den) ∧
      (stepExponent (num / den) = 0 ∨ 2 ^ 52 ≤ count) := by
  by_cases hstep : stepExponent (num / den) = 0
  · exact ⟨other, by rw [hstep, Nat.pow_zero, Nat.mul_one], .inl hstep⟩
  · -- Below the binade of the quotient everything is further away than the rounded number.
    have hbinade : ¬ other < 2 ^ 52 * 2 ^ stepExponent (num / den) := by
      intro hlt
      exact absurd (abs_roundUnits_sub_lt hden (Nat.pos_of_ne_zero hstep) hlt) (not_lt.mpr hle)
    rcases h.dvd_or_lt (stepExponent (num / den)) with ⟨count, rfl⟩ | hlt
    · refine ⟨count, Nat.mul_comm _ _, .inr ?_⟩
      rw [Nat.mul_comm] at hbinade
      exact Nat.le_of_mul_le_mul_right (Nat.le_of_not_lt hbinade) (Nat.two_pow_pos _)
    · exact absurd hlt hbinade

/-- No magnitude of 53 bits is nearer than the rounded one. -/
theorem abs_roundUnits_sub_le (hden : 0 < den) {other : Nat} (h : IsShort other) :
    |(roundUnits num den : ℚ) - num / den| ≤ |(other : ℚ) - num / den| := by
  by_contra hlt
  rcases h.exists_steps hden (not_le.mp hlt).le with ⟨count, rfl, -⟩
  have hpos : (0 : ℚ) < 2 ^ stepExponent (num / den) := by positivity
  refine hlt ?_
  rw [cast_roundUnits, Nat.cast_mul, Nat.cast_pow, Nat.cast_ofNat, abs_mul_sub_eq hpos,
    abs_mul_sub_eq hpos]
  exact mul_le_mul_of_nonneg_right ((isNearestEven_steps num hden _).nearest count) hpos.le

/-- If another magnitude of 53 bits is as near as the rounded one, then its significand is odd
    and that of the rounded one is even. -/
theorem IsShort.significand_of_tie {other : Nat} (h : IsShort other) (hden : 0 < den)
    (hne : other ≠ roundUnits num den)
    (htie : |(other : ℚ) - num / den| = |(roundUnits num den : ℚ) - num / den|) :
    significand (roundUnits num den) % 2 = 0 ∧ significand other % 2 = 1 := by
  rcases h.exists_steps hden htie.le with ⟨count, rfl, hnormal⟩
  have hpos : (0 : ℚ) < 2 ^ stepExponent (num / den) := by positivity
  -- Counted in steps of the binade, the tie is one between whole numbers.
  have hsteps : count ≠ nearestEven num (den * 2 ^ stepExponent (num / den)) := by
    rintro rfl
    exact hne rfl
  rw [cast_roundUnits, Nat.cast_mul, Nat.cast_pow, Nat.cast_ofNat, abs_mul_sub_eq hpos,
    abs_mul_sub_eq hpos] at htie
  rcases (isNearestEven_steps num hden _).of_tie hsteps (mul_right_cancel₀ hpos.ne' htie) with
    ⟨heven, hneighbour⟩
  have hfull := Nat.eq_zero_or_pos (stepExponent (num / den)) |>.imp_right two_pow_le_steps
  have hodd : count % 2 = 1 := by omega
  rw [h.significand_eq hodd hnormal]
  exact ⟨significand_mod_two heven (nearestEven_step_le num den) hfull, hodd⟩

end Steps

/-- The magnitudes of 53 bits below the end of a binade end one step below it. -/
theorem IsShort.le_largest {units shift : Nat} (h : IsShort units)
    (hlt : units < 2 ^ 53 * 2 ^ shift) : units ≤ (2 ^ 53 - 1) * 2 ^ shift := by
  rcases h.dvd_or_lt shift with ⟨count, rfl⟩ | hbinade
  · rw [Nat.mul_comm] at hlt ⊢
    exact Nat.mul_le_mul_right _ (Nat.le_pred_of_lt (Nat.lt_of_mul_lt_mul_right hlt))
  · exact hbinade.le.trans (Nat.mul_le_mul_right _ (by decide))

/-- A quotient is rounded below the end of a binade if it is below the last half step. -/
theorem roundUnits_lt_iff {num den : Nat} (hden : 0 < den) (shift : Nat) :
    roundUnits num den < 2 ^ 53 * 2 ^ shift ↔
      (num : ℚ) / den < (2 ^ 53 - 1 / 2) * 2 ^ shift := by
  have hstep : (0 : ℚ) < 2 ^ shift := by positivity
  have hshort : IsShort (roundUnits num den) := isShort_mul_two_pow (nearestEven_step_le num den) _
  have hend : IsShort (2 ^ 53 * 2 ^ shift) := isShort_mul_two_pow (Nat.le_refl _) _
  have hlargest : IsShort ((2 ^ 53 - 1) * 2 ^ shift) := isShort_mul_two_pow (by decide) _
  have hbelow : |(roundUnits num den : ℚ) - num / den| ≤ _ := abs_roundUnits_sub_le hden hlargest
  have habove : |(roundUnits num den : ℚ) - num / den| ≤ _ := abs_roundUnits_sub_le hden hend
  push_cast at hbelow habove
  constructor
  · intro hlt
    have hle : (roundUnits num den : ℚ) ≤ ((2 ^ 53 - 1) * 2 ^ shift : Nat) :=
      Nat.cast_le.mpr (hshort.le_largest hlt)
    push_cast at hle
    by_contra hge
    rw [abs_of_neg (by linarith)] at habove
    rcases le_total ((num : ℚ) / den) (2 ^ 53 * 2 ^ shift) with hle' | hpast
    · rw [abs_of_nonneg (by linarith)] at habove
      -- Only a tie is left, in which the rounded magnitude has the odd significand.
      have hround : roundUnits num den = (2 ^ 53 - 1) * 2 ^ shift := by
        refine Nat.cast_injective (R := ℚ) ?_
        push_cast
        linarith
      have hne : 2 ^ 53 * 2 ^ shift ≠ roundUnits num den := hlt.ne'
      have htie := (hend.significand_of_tie hden hne ?_).1
      · rw [hround, significand_mul_two_pow (by decide) (.inr (by decide))] at htie
        exact absurd htie (by decide)
      · push_cast
        rw [abs_of_nonneg (by linarith), abs_of_neg (by linarith)]
        linarith
    · rw [abs_of_nonpos (by linarith)] at habove
      linarith
  · intro hlt
    by_contra hge
    have hge' : (2 ^ 53 * 2 ^ shift : ℚ) ≤ roundUnits num den := by
      exact_mod_cast not_lt.mp hge
    rw [abs_of_nonneg (by linarith)] at hbelow
    rcases le_total ((num : ℚ) / den) ((2 ^ 53 - 1) * 2 ^ shift) with hbefore | hpast
    · rw [abs_of_nonneg (by linarith)] at hbelow
      linarith
    · rw [abs_of_nonpos (by linarith)] at hbelow
      linarith

/-- The least magnitude that is rounded beyond the format: half a step below 2¹⁰²⁴. -/
def overflowBound : ℚ :=
  2 ^ 1024 - 2 ^ 970

/-- The overflow bound is the end of a binade with steps of more than one, and the last half
    step of that begins where magnitudes are rounded beyond the format. -/
theorem exists_overflow_binade : ∃ shift, overflowUnits = 2 ^ 53 * 2 ^ shift ∧
    overflowBound * unitsPerOne = (2 ^ 53 - 1 / 2) * 2 ^ shift ∧ unitsPerOne ≤ 2 ^ shift := by
  -- The exponents have names, since their powers are not to be computed.
  obtain ⟨one, hone⟩ : ∃ one, 1074 = one := ⟨_, rfl⟩
  obtain ⟨low, hlow⟩ : ∃ low, 970 + one = low := ⟨_, rfl⟩
  have hunits : 2098 = 53 + (low + 1) := by omega
  have hhigh : 1024 + one = 53 + (low + 1) := by omega
  refine ⟨low + 1, by rw [overflowUnits, hunits, Nat.pow_add], ?_, ?_⟩
  · rw [overflowBound, unitsPerOne, hone, Nat.cast_pow, Nat.cast_ofNat, sub_mul, ← pow_add,
      hhigh, ← pow_add, hlow, sub_mul, ← pow_add, pow_succ (2 : ℚ) low]
    ring
  · rw [unitsPerOne, hone]
    exact Nat.pow_le_pow_right (by decide) (by omega)

/-- A magnitude of the format that is nearest to `q` units. Of two such it is the one with the
    even significand. -/
structure IsNearest (q : ℚ) (units : Nat) : Prop where
  nearest : ∀ other, Representable other → |(units : ℚ) - q| ≤ |(other : ℚ) - q|
  even : ∀ other, Representable other → other ≠ units →
    |(other : ℚ) - q| = |(units : ℚ) - q| → significand units % 2 = 0

/-- The number to which a magnitude with a sign is rounded: the nearest one of the format, and of
    two that are equally near the one with the even significand; from half a step below 2¹⁰²⁴
    on the infinite one. The sign is kept, also by a zero. -/
def IsRounding (negative : Bool) (magnitude : ℚ) : Binary64 → Prop
  | .finite sign units _ =>
      sign = negative ∧ magnitude < overflowBound ∧ IsNearest (magnitude * unitsPerOne) units
  | .infinite sign => sign = negative ∧ overflowBound ≤ magnitude
  | .nan => False

/-- A quotient below the bound is rounded to the nearest magnitude of the format. -/
theorem isNearest_iff {num den units : Nat} (hden : 0 < den) (hunits : Representable units)
    (hlt : roundUnits num den < overflowUnits) :
    IsNearest ((num : ℚ) / den) units ↔ roundUnits num den = units := by
  have hround := representable_roundUnits hlt
  constructor
  · intro h
    by_contra hne
    -- Two nearest numbers are tied, and then only one of the two significands is even.
    have htie := le_antisymm (h.nearest _ hround) (abs_roundUnits_sub_le hden hunits.1)
    have hodd := (IsShort.significand_of_tie hunits.1 hden (Ne.symm hne) htie).2
    have heven := h.even _ hround hne htie.symm
    omega
  · rintro rfl
    exact
      { nearest other hother := abs_roundUnits_sub_le hden hother.1
        even other hother hne htie := (IsShort.significand_of_tie hother.1 hden hne htie).1 }

/-- Rounding is correct. -/
theorem round_eq_iff (negative : Bool) (num : Nat) {den : Nat} (hden : 0 < den) (x : Binary64) :
    round negative num den = x ↔ IsRounding negative ((num : ℚ) / den / unitsPerOne) x := by
  have hone : (0 : ℚ) < unitsPerOne := Nat.cast_pos.mpr unitsPerOne_pos
  have hbound : roundUnits num den < overflowUnits ↔
      (num : ℚ) / den / unitsPerOne < overflowBound := by
    rcases exists_overflow_binade with ⟨shift, hunits, hrational, -⟩
    rw [hunits, roundUnits_lt_iff hden, ← hrational, div_lt_iff₀ hone]
  -- The bound is tested on the rounded number of units, and the rule speaks of the exact value.
  unfold round
  split
  · next hlt =>
      cases x with
      | finite sign units hunits =>
          rw [finite.injEq, IsRounding, ← hbound, div_mul_cancel₀ _ hone.ne',
            isNearest_iff hden hunits hlt]
          exact ⟨fun h => ⟨h.1.symm, hlt, h.2⟩, fun h => ⟨h.1.symm, h.2.2⟩⟩
      | infinite sign =>
          simp only [IsRounding, reduceCtorEq, false_iff, not_and, not_le]
          exact fun _ => hbound.mp hlt
      | nan => simp only [IsRounding, reduceCtorEq]
  · next hge =>
      rw [hbound] at hge
      cases x with
      | finite sign units hunits =>
          simp only [IsRounding, reduceCtorEq, false_iff, not_and]
          exact fun _ hlt => absurd hlt hge
      | infinite sign =>
          rw [infinite.injEq, IsRounding]
          exact ⟨fun h => ⟨h.symm, not_lt.mp hge⟩, fun h => h.1.symm⟩
      | nan => simp only [IsRounding, reduceCtorEq]

end Binary64

namespace Decimal

/-- The magnitude of a decimal. -/
def magnitude (d : Decimal) : ℚ :=
  d.coefficient * 10 ^ d.exponent

/-- A decimal is rounded correctly. -/
theorem toBinary64_eq_iff (d : Decimal) (x : Binary64) :
    d.toBinary64 = x ↔ Binary64.IsRounding d.negative d.magnitude x := by
  have hone : (unitsPerOne : ℚ) ≠ 0 := Nat.cast_ne_zero.mpr unitsPerOne_pos.ne'
  -- A power of ten is a factor of the numerator or of the denominator, by the sign of its exponent.
  rcases d with ⟨negative, coefficient, power | places⟩
  · have hmagnitude : magnitude ⟨negative, coefficient, .ofNat power⟩ =
        ((coefficient * 10 ^ power * unitsPerOne : Nat) : ℚ) / (1 : Nat) / unitsPerOne := by
      rw [magnitude, Nat.cast_one, div_one, Nat.cast_mul, mul_div_cancel_right₀ _ hone,
        Int.ofNat_eq_natCast, zpow_natCast, Nat.cast_mul, Nat.cast_pow, Nat.cast_ofNat]
    rw [hmagnitude, ← Binary64.round_eq_iff _ _ Nat.one_pos]
    rfl
  · have hmagnitude : magnitude ⟨negative, coefficient, .negSucc places⟩ =
        ((coefficient * unitsPerOne : Nat) : ℚ) / (10 ^ (places + 1) : Nat) / unitsPerOne := by
      rw [magnitude, div_right_comm, Nat.cast_mul, mul_div_cancel_right₀ _ hone, zpow_negSucc,
        ← div_eq_mul_inv, Nat.cast_pow, Nat.cast_ofNat]
    rw [hmagnitude, ← Binary64.round_eq_iff _ _ (Nat.pow_pos (by decide))]
    rfl

/-- A decimal is rounded to a finite number if it is below the bound. -/
theorem isFinite_toBinary64_iff (d : Decimal) :
    d.toBinary64.isFinite = true ↔ d.magnitude < Binary64.overflowBound := by
  have hrounding := (d.toBinary64_eq_iff _).mp rfl
  cases hround : d.toBinary64 with
  | finite sign units hunits =>
      rw [hround] at hrounding
      exact iff_of_true rfl hrounding.2.1
  | infinite sign =>
      rw [hround] at hrounding
      exact iff_of_false Bool.false_ne_true (not_lt.mpr hrounding.2)
  | nan =>
      rw [hround] at hrounding
      exact hrounding.elim

end Decimal

end Calculator
