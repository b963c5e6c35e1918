import Calculator.Proofs.Recognition
import Calculator.Text.Blank

/-!
# Unknown Characters

A text with a character that belongs to nothing has no value.

Such a character is no separator, so it is not skipped, and it can be part of no other
piece, so wherever it stands it is a malformed token by itself. No statement is derived with
a malformed token in it, so the text is refused, if not at that token then before it.

The blanks that end a line are more than those that separate tokens. The others are unknown
characters, since no blank is part of a numeral or of a word.

## Main definitions

* `IsUnknown`: A character that separates nothing and is part of no token.

## Theorems

* `IsUnknown.eval_failed`: A text with an unknown character fails.
* `isUnknown_of_isBlank`: A blank is unknown if it is no separator.
-/

namespace Calculator

/-- A character that separates nothing and is part of no numeral, no word and no
    punctuation. -/
structure IsUnknown (c : Char) : Prop where
  separator : isSeparator c = false
  numeral : isNumeralChar c = false
  word : isAlphabetic c = false
  punctuation : Token.ofPunctuation? c = none

variable {c : Char}

namespace IsUnknown

/-- An unknown character is a malformed token by itself. -/
theorem malformed_mem (h : IsUnknown c) (afterOperand : Bool) {text : List Char}
    (hmem : c ∈ text) :
    .malformed (unknownCharacterMessage c) ∈ Scanner.tokensOf afterOperand text := by
  rcases List.append_of_mem hmem with ⟨front, back, rfl⟩
  have hnext : (c :: back).dropWhile isSeparator = c :: back :=
    List.dropWhile_cons_of_neg (ne_true_of_eq_false h.separator)
  rw [Scanner.tokensOf_append_stop h.numeral h.word]
  refine List.mem_append_right _ ?_
  -- Behind the text before it, it is scanned whatever has ended there.
  generalize operandAfter afterOperand (Scanner.tokensOf afterOperand front) = ended
  have hstarts : startsNumeral ended c back = false := by
    have hminus : c ≠ '-' := by
      rintro rfl
      exact absurd h.punctuation (by decide)
    rw [startsNumeral, h.numeral, beq_eq_false_iff_ne.mpr hminus]
    rfl
  have hlexeme : scanLexeme ended c back = (.malformed (unknownCharacterMessage c), back) := by
    rw [scanLexeme, hstarts, if_neg Bool.false_ne_true, h.punctuation]
    dsimp only
    rw [h.word, if_neg Bool.false_ne_true]
  rw [Scanner.tokensOf_of_dropWhile_cons hnext, hlexeme]
  exact List.mem_cons_self

/-- A text with an unknown character fails. -/
theorem eval_failed (h : IsUnknown c) (s : Session) {text : String} (hmem : c ∈ text.toList) :
    ∃ e, (s.eval text).result = .error e := by
  have hmalformed := h.malformed_mem false hmem
  have hmark := Scanner.endOfText_notMem_tokensOf false text.toList
  -- What the parser reads is derived, and nothing malformed is.
  have hparse : parseProgram (tokenize text) = none :=
    Option.eq_none_iff_forall_ne_some.mpr fun trees htrees =>
      malformed_notMem_of_derives (derives_of_parseProgram hmark htrees) _ hmalformed
  exact evaluateFrom_failed_of_parseProgram (endOfText_mem_tokenize text) hparse
    (.ofStore s.store) none

end IsUnknown

/-- Blanks lie below the printed characters of ASCII, or beyond ASCII. -/
theorem toNat_of_isBlank (h : isBlank c = true) : c.toNat ≤ 0x20 ∨ 0x80 ≤ c.toNat := by
  rcases inRanges_iff.mp h with ⟨range, hrange, hlower, hupper⟩
  have hranges : ∀ range ∈ blankRanges, range.2 ≤ 0x20 ∨ 0x80 ≤ range.1 := by decide
  have hbounds := hranges range hrange
  omega

/-- Letters of ASCII lie beyond the digits. -/
theorem le_toNat_of_isAlpha (h : c.isAlpha = true) : 0x41 ≤ c.toNat := by
  have htoNat : c.val.toNat = c.toNat := rfl
  have hupper : 'A'.val.toNat = 0x41 := rfl
  have hlower : 'a'.val.toNat = 0x61 := rfl
  rcases Bool.or_eq_true_iff.mp h with hcase | hcase
  · have hbounds := of_decide_eq_true hcase
    have hfirst := UInt32.le_iff_toNat_le.mp hbounds.1
    omega
  · have hbounds := Bool.and_eq_true_iff.mp hcase
    have hfirst := UInt32.le_iff_toNat_le.mp (of_decide_eq_true hbounds.1)
    omega

/-- No blank is part of a word. -/
theorem isAlphabetic_of_isBlank (h : isBlank c = true) : isAlphabetic c = false := by
  refine eq_false_of_ne_true fun hword => ?_
  rw [isAlphabetic] at hword
  split at hword
  · -- An ASCII letter lies beyond the blanks of ASCII.
    next hascii =>
      have hbounds := toNat_of_isBlank h
      have hletter := le_toNat_of_isAlpha hword
      omega
  · -- Beyond ASCII no range of blanks meets a range of letters.
    have hapart : ∀ blank ∈ blankRanges, ∀ letter ∈ alphabeticRanges,
        blank.2 < letter.1 ∨ letter.2 < blank.1 := by decide +kernel
    rcases inRanges_iff.mp h with ⟨blank, hblank, hlower, hupper⟩
    rcases inRanges_iff.mp hword with ⟨letter, hletter, hlower', hupper'⟩
    have hbounds := hapart blank hblank letter hletter
    omega

/-- A blank is unknown if it is no separator. -/
theorem isUnknown_of_isBlank (h : isBlank c = true) (hseparator : isSeparator c = false) :
    IsUnknown c where
  separator := hseparator
  numeral := by
    refine eq_false_of_ne_true fun hnumeral => ?_
    -- No blank has a number between those of the digits.
    have hbounds := toNat_of_isBlank h
    rw [isNumeralChar, Bool.or_eq_true, beq_iff_eq] at hnumeral
    rcases hnumeral with hdigit | rfl
    · have hzero : '0'.toNat = 0x30 := rfl
      have hnine : '9'.toNat = 0x39 := rfl
      have hdigits := Char.isDigit_iff_toNat.mp hdigit
      omega
    · exact absurd h (by decide)
  word := isAlphabetic_of_isBlank h
  punctuation := by
    cases hpunctuation : Token.ofPunctuation? c with
    | none => rfl
    | some token =>
        unfold Token.ofPunctuation? at hpunctuation
        split at hpunctuation
        case h_8 => cases hpunctuation
        all_goals exact absurd h (by decide)

theorem isUnknown_backslash : IsUnknown '\\' where
  separator := by decide
  numeral := by decide
  word := by decide
  punctuation := rfl

end Calculator
