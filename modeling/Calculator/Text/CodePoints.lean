/-!
# Ranges of Code Points

How a character property is stored: as a list of ranges of code points.

## Main definitions

* `CodePointRange`: A range with both ends.
* `inRanges`: Whether a character lies in one of some ranges.

## Theorems

* `inRanges_iff`: Membership is lying between the ends of a listed range.
-/

namespace Calculator

/-- The first and the last code point of a range. -/
abbrev CodePointRange := Nat × Nat

/-- Whether a character lies in one of the ranges. -/
def inRanges (ranges : List CodePointRange) (c : Char) : Bool :=
  ranges.any fun range => range.1 ≤ c.toNat && c.toNat ≤ range.2

/-- Membership is lying between the ends of a listed range. -/
theorem inRanges_iff {ranges : List CodePointRange} {c : Char} :
    inRanges ranges c = true ↔
      ∃ range ∈ ranges, range.1 ≤ c.toNat ∧ c.toNat ≤ range.2 := by
  simp only [inRanges, List.any_eq_true, Bool.and_eq_true, decide_eq_true_eq]

end Calculator
