/-!
# Rounding a Quotient

The one rounding rule of the library: a quotient of natural numbers goes to the
nearest whole number, and a half goes to the even neighbour.

Both places where an exact value is cut short use it. Arithmetic rounds to the
grid of binary numbers, and fixed-point text rounds to the grid of six decimals;
each brings its value to a quotient whose unit is a step of its grid.

## Main definitions

* `nearestEven`: The whole number nearest to a quotient, ties to even.

## Theorems

* `nearestEven_cases`: The result is the floor or its successor, whichever is no
  farther away.
* `nearestEven_le_succ`: The result exceeds the floor by at most one.
* `nearestEven_mod_two`: A half goes to the even neighbour.
* `nearestEven_mul`: A whole quotient is its own rounding.
* `nearestEven_mul_mul`: A quotient that is expanded rounds to the same.
-/

namespace Calculator

/-- The whole number nearest to `num / den`, a half going to the even neighbour.
    The test compares twice the remainder with the divisor, so no fraction is
    ever formed. -/
def nearestEven (num den : Nat) : Nat :=
  let floor := num / den
  let rest := 2 * (num % den)
  if rest < den then floor
  else if den < rest then floor + 1
  else if floor % 2 = 0 then floor
  else floor + 1

/-- The result is the floor when at most half a step is left over, and the
    successor of the floor when at least half a step is. -/
theorem nearestEven_cases (num den : Nat) :
    (nearestEven num den = num / den ∧ 2 * (num % den) ≤ den) ∨
      (nearestEven num den = num / den + 1 ∧ den ≤ 2 * (num % den)) := by
  unfold nearestEven
  dsimp only
  split
  · exact .inl ⟨rfl, by omega⟩
  · split
    · exact .inr ⟨rfl, by omega⟩
    · split
      · exact .inl ⟨rfl, by omega⟩
      · exact .inr ⟨rfl, by omega⟩

/-- Rounding never goes below the floor. -/
theorem div_le_nearestEven (num den : Nat) : num / den ≤ nearestEven num den := by
  rcases nearestEven_cases num den with h | h <;> omega

/-- Rounding exceeds the floor by at most one. -/
theorem nearestEven_le_succ (num den : Nat) : nearestEven num den ≤ num / den + 1 := by
  rcases nearestEven_cases num den with h | h <;> omega

/-- A half goes to the even neighbour. -/
theorem nearestEven_mod_two {num den : Nat} (h : 2 * (num % den) = den) :
    nearestEven num den % 2 = 0 := by
  unfold nearestEven
  dsimp only
  rw [if_neg (by omega), if_neg (by omega)]
  split <;> omega

/-- A whole quotient is its own rounding. -/
theorem nearestEven_mul (n : Nat) {den : Nat} (h : 0 < den) :
    nearestEven (n * den) den = n := by
  have hrest : 2 * (n * den % den) < den := by
    rw [Nat.mul_mod_left]
    exact h
  unfold nearestEven
  dsimp only
  rw [if_pos hrest, Nat.mul_div_cancel n h]

/-- A quotient that is expanded rounds to the same. -/
theorem nearestEven_mul_mul {k : Nat} (hk : 0 < k) (num den : Nat) :
    nearestEven (k * num) (k * den) = nearestEven num den := by
  have hrest : 2 * (k * num % (k * den)) = k * (2 * (num % den)) := by
    rw [Nat.mul_mod_mul_left, Nat.mul_left_comm]
  unfold nearestEven
  dsimp only
  rw [Nat.mul_div_mul_left _ _ hk, hrest]
  simp only [Nat.mul_lt_mul_left hk]

end Calculator
