import Calculator.Text.CodePoints

/-!
# Blank Characters

The characters that count as blank at the two ends of a line: those with the
Unicode property White_Space. Between the words of a statement fewer characters
separate, and that smaller set belongs to the tokens.

## Main definitions

* `blankRanges`: The code points with the property.
* `isBlank`: Whether a character has the property.
* `trimBlank`: A text without the blanks at its ends.
-/

namespace Calculator

/-- The code points with the property White_Space: the controls from tab to
    carriage return, next line, the spaces of all widths, and the line and paragraph
    separators. -/
def blankRanges : List CodePointRange :=
  [(0x9, 0xD), (0x20, 0x20), (0x85, 0x85), (0xA0, 0xA0), (0x1680, 0x1680),
   (0x2000, 0x200A), (0x2028, 0x2029), (0x202F, 0x202F), (0x205F, 0x205F),
   (0x3000, 0x3000)]

/-- Whether a character has the property White_Space. -/
def isBlank (c : Char) : Bool :=
  inRanges blankRanges c

/-- A text without the blanks at its ends. -/
def trimBlank (text : List Char) : List Char :=
  ((text.dropWhile isBlank).reverse.dropWhile isBlank).reverse

end Calculator
