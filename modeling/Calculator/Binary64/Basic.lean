import Calculator.Rounding

/-!
# Binary Floating-Point Numbers

The numbers a calculation works with: the 64-bit binary format of IEEE 754,
as exact values rather than as words.

A finite number is a sign and a magnitude counted in units of 2⁻¹⁰⁷⁴, the
smallest step of the format. Counting in that unit makes every finite magnitude
a natural number, so arithmetic is arithmetic of `Nat` followed by one rounding.
Which natural numbers occur is `Representable`: at most 53 significant bits, and
below 2²⁰⁹⁸ units, which is 2¹⁰²⁴. The type carries that bound, so two finite
numbers are equal exactly when sign and magnitude are, and a signed zero is a
sign with no units.

All not-a-number words are one value, since no answer of the calculator tells
them apart.

## Main definitions

* `unitsPerOne`, `overflowUnits`: One and the overflow bound, in units.
* `Representable`: The magnitudes the format can hold.
* `Binary64`: A finite number, an infinity or not-a-number.
* `Binary64.round`: The number nearest to a quotient of units, ties to even.
* `Binary64.same`: Numerical equality, in which zeros agree and nothing equals
  not-a-number.
* `Binary64.ofBits`, `Binary64.bits`: The interchange word of a number.

## Theorems

* `representable_mul_two_pow`: At most 2⁵³ steps of a power of two are
  representable.
* `round_of_representable`: Rounding keeps a magnitude the format can hold.
* `round_mul_mul`: A quotient that is expanded rounds to the same number.
-/

namespace Calculator

-- Powers are those of core, also in a module that knows of other powers.
attribute [instance (high), default_instance 100000] instPowNat

/-- The units of 2⁻¹⁰⁷⁴ that make one. -/
def unitsPerOne : Nat := 2 ^ 1074

theorem unitsPerOne_pos : 0 < unitsPerOne := by
  unfold unitsPerOne
  exact Nat.two_pow_pos 1074

/-- The magnitude that no finite number reaches, 2¹⁰²⁴ in units. -/
def overflowUnits : Nat := 2 ^ 2098

/-- A magnitude, in units of 2⁻¹⁰⁷⁴, that the format can hold: its bits below
    the leading 53 are zero, and it is below the overflow bound. -/
def Representable (units : Nat) : Prop :=
  2 ^ (units.log2 - 52) ∣ units ∧ units < overflowUnits

instance (units : Nat) : Decidable (Representable units) :=
  inferInstanceAs (Decidable (_ ∧ _))

theorem representable_zero : Representable 0 :=
  ⟨Nat.dvd_zero _, by decide +kernel⟩

/-- A count of at most 2⁵³ steps of a power of two has at most 53 significant bits. The count
    2⁵³ itself is allowed because it is one bit in the next binade. -/
theorem two_pow_dvd_mul_two_pow {count shift : Nat} (hcount : count ≤ 2 ^ 53) :
    2 ^ ((count * 2 ^ shift).log2 - 52) ∣ count * 2 ^ shift := by
  rcases Nat.eq_or_lt_of_le hcount with rfl | hlt
  · -- The full count is a power of two, whose lower bits are all zero.
    rw [← Nat.pow_add, Nat.log2_two_pow]
    exact Nat.pow_dvd_pow 2 (by omega)
  · by_cases hzero : count * 2 ^ shift = 0
    · rw [hzero]
      exact Nat.dvd_zero _
    · -- A smaller count has at most 53 bits above the step, so the bits that have to
      -- be zero lie below it.
      have hsize : count * 2 ^ shift < 2 ^ (53 + shift) := by
        rw [Nat.pow_add]
        exact Nat.mul_lt_mul_of_pos_right hlt (Nat.two_pow_pos shift)
      have hlog : (count * 2 ^ shift).log2 < 53 + shift :=
        (Nat.log2_lt hzero).mpr hsize
      exact Nat.dvd_trans (Nat.pow_dvd_pow 2 (by omega)) (Nat.dvd_mul_left _ _)

/-- A count of at most 2⁵³ steps of a power of two is representable, if it is
    below the overflow bound. -/
theorem representable_mul_two_pow {count shift : Nat} (hcount : count ≤ 2 ^ 53)
    (hbound : count * 2 ^ shift < overflowUnits) : Representable (count * 2 ^ shift) :=
  ⟨two_pow_dvd_mul_two_pow hcount, hbound⟩

/-- A number of the 64-bit binary format. The magnitude of a finite number is
    `units` times 2⁻¹⁰⁷⁴. -/
inductive Binary64 where
  | finite (negative : Bool) (units : Nat) (representable : Representable units)
  | infinite (negative : Bool)
  | nan
  deriving DecidableEq

namespace Binary64

/-- The zero of a sign. -/
def zero (negative : Bool) : Binary64 :=
  .finite negative 0 representable_zero

instance : Inhabited Binary64 := ⟨zero false⟩

/-- The exponent of the step between neighbouring numbers of a magnitude whose
    whole part, in units, is `floor`: the step is one unit for up to 53 bits and
    doubles with every further bit. -/
def stepExponent (floor : Nat) : Nat :=
  floor.log2 - 52

/-- The magnitude nearest to `num / den` units that has at most 53 significant
    bits, ties to even, before the overflow bound is looked at. -/
def roundUnits (num den : Nat) : Nat :=
  let step := 2 ^ stepExponent (num / den)
  nearestEven num (den * step) * step

/-- Rounding leaves at most 2⁵³ steps. -/
theorem nearestEven_step_le (num den : Nat) :
    nearestEven num (den * 2 ^ stepExponent (num / den)) ≤ 2 ^ 53 := by
  -- Rounding adds at most one to the floor, so the floor must be below the bound.
  refine Nat.le_trans (nearestEven_le_succ _ _) ?_
  rw [← Nat.div_div_eq_div_mul]
  suffices h : num / den < 2 ^ 53 * 2 ^ stepExponent (num / den) from
    (Nat.div_lt_iff_lt_mul (Nat.two_pow_pos _)).mpr h
  -- The step was chosen to leave 53 of the bits of the floor.
  rw [← Nat.pow_add]
  refine Nat.lt_of_lt_of_le Nat.lt_log2_self (Nat.pow_le_pow_right (by decide) ?_)
  unfold stepExponent
  omega

/-- A rounded magnitude is representable unless it overflows. -/
theorem representable_roundUnits {num den : Nat} (h : roundUnits num den < overflowUnits) :
    Representable (roundUnits num den) :=
  representable_mul_two_pow (nearestEven_step_le num den) h

/-- The number nearest to `num / den` units with the given sign, ties to even. A
    magnitude that rounds to 2¹⁰²⁴ or more is infinite. -/
def round (negative : Bool) (num den : Nat) : Binary64 :=
  if h : roundUnits num den < overflowUnits then
    .finite negative (roundUnits num den) (representable_roundUnits h)
  else
    .infinite negative

/-- Rounding keeps a magnitude the format can hold. -/
theorem roundUnits_of_representable {units : Nat} (h : Representable units) :
    roundUnits units 1 = units := by
  -- The magnitude is a whole number of the steps that it is rounded to.
  obtain ⟨count, hcount⟩ := h.1
  have hpos : 0 < 2 ^ (units.log2 - 52) := Nat.two_pow_pos _
  unfold roundUnits stepExponent
  simp only [Nat.div_one, Nat.one_mul]
  generalize hstep : 2 ^ (units.log2 - 52) = step at *
  rw [hcount, Nat.mul_comm step count, nearestEven_mul count hpos]

/-- A number is the rounding of its own magnitude. -/
theorem round_of_representable (negative : Bool) {units : Nat} (h : Representable units) :
    round negative units 1 = .finite negative units h := by
  unfold round
  simp only [roundUnits_of_representable h, h.2, dif_pos]

/-- A quotient that is expanded rounds to the same magnitude. -/
theorem roundUnits_mul_mul {k : Nat} (hk : 0 < k) (num den : Nat) :
    roundUnits (k * num) (k * den) = roundUnits num den := by
  unfold roundUnits
  dsimp only
  rw [Nat.mul_div_mul_left _ _ hk, Nat.mul_assoc, nearestEven_mul_mul hk]

/-- A quotient that is expanded rounds to the same number. -/
theorem round_mul_mul {k : Nat} (hk : 0 < k) (negative : Bool) (num den : Nat) :
    round negative (k * num) (k * den) = round negative num den := by
  unfold round
  simp only [roundUnits_mul_mul hk]

/-- The value of a finite number in units, with its sign; nothing for an infinity
    or not-a-number. -/
def signedUnits? : Binary64 → Option Int
  | .finite negative units _ => some (if negative then -(units : Int) else units)
  | .infinite _ => none
  | .nan => none

/-- Whether a number is a zero of either sign. -/
def isZero (x : Binary64) : Bool :=
  x.signedUnits? == some 0

/-- Whether a number is neither infinite nor not-a-number. -/
def isFinite (x : Binary64) : Bool :=
  x.signedUnits?.isSome

/-- Numerical equality: the two zeros are equal, and not-a-number equals
    nothing. -/
def same : Binary64 → Binary64 → Bool
  | .infinite s, .infinite t => s == t
  | .finite s m hm, .finite t n hn =>
      (Binary64.finite s m hm).signedUnits? == (Binary64.finite t n hn).signedUnits?
  | _, _ => false

/-- The number that a 64-bit word stands for: a sign bit, eleven exponent bits and
    52 fraction bits. An exponent of zero has no hidden bit, and the largest one
    marks infinities and not-a-number. -/
def ofBits (word : UInt64) : Binary64 :=
  let negative := word.toNat / 2 ^ 63 % 2 == 1
  let exponent := word.toNat / 2 ^ 52 % 2 ^ 11
  let fraction := word.toNat % 2 ^ 52
  if exponent = 2047 then
    if fraction = 0 then .infinite negative else .nan
  else if exponent = 0 then
    round negative fraction 1
  else
    round negative ((2 ^ 52 + fraction) * 2 ^ (exponent - 1)) 1

/-- The word of a sign and the remaining 63 bits. -/
def word (negative : Bool) (rest : Nat) : UInt64 :=
  UInt64.ofNat ((if negative then 2 ^ 63 else 0) + rest)

/-- The 64-bit word of a number. The hidden bit of a magnitude of 53 bits falls
    into the exponent field, where it adds the one that the field counts from. -/
def bits : Binary64 → UInt64
  | .finite negative units _ =>
      let exponent := stepExponent units
      word negative (exponent * 2 ^ 52 + units / 2 ^ exponent)
  | .infinite negative => word negative (2047 * 2 ^ 52)
  | .nan => word false (2047 * 2 ^ 52 + 2 ^ 51)

end Binary64

end Calculator
