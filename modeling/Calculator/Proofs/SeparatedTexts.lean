import Calculator.Proofs.Lexemes
import Calculator.Proofs.Numerals
import Calculator.Proofs.Separators

/-!
# Separated Texts

The tokens of two texts with a separator between them.

They are the tokens of the first text and those of the second, but for one sign. If the first
text ends with an operand and the second begins with a signed numeral, the sign is a token of its
own in the two together, while in the second text alone it belongs to the numeral. Behind the
numeral the tokens are the same again.

That they are is not a matter of course. What follows a numeral is scanned behind an operand if
the numeral is read as a number, and otherwise behind a malformed piece. With the sign the numeral
is another text, and it is read as another number or refused with another complaint. But whether
it is refused does not depend on the sign, and the scanner remembers no more than that.

## Main definitions

* `tokensBeforeEnd`: The tokens of a text without the marks of its end.
* `BeginsSigned`: The text begins with a minus sign that touches some digits and points.

## Theorems

* `endsOperand_ofNumeral_minus`: A numeral ends an operand with a sign and without it.
* `exists_beginsSigned_iff`: A text begins so if a minus sign comes first and a digit or a point
  next.
* `Scanner.exists_tokensOf_beginsSigned`: Behind an operand the sign is a token, elsewhere it is
  not, and the tokens behind the numeral are the same.
* `tokensBeforeEnd_append`: What the second of two texts is scanned behind.
* `tokensBeforeEnd_append_separator`: The tokens of two texts with a separator between them.
-/

namespace Calculator

/-- The tokens of a text without the marks of its end. -/
def tokensBeforeEnd (text : String) : List Token :=
  (tokenize text).dropLast.dropLast

theorem tokensBeforeEnd_eq (text : String) :
    tokensBeforeEnd text = Scanner.tokensOf false text.toList := by
  have htext : tokenize text =
      Scanner.tokensOf false text.toList ++ [.endOfText] ++ [.endOfText] := by
    rw [List.append_assoc]
    rfl
  rw [tokensBeforeEnd, htext, List.dropLast_concat, List.dropLast_concat]

/-- A text begins, behind separators, with a minus sign that touches the digits and points
    `digits`, which are followed by no other. -/
def BeginsSigned (digits text : List Char) : Prop :=
  ∃ gap following, IsGap gap ∧ MaximalRun isNumeralChar digits following ∧
    text = gap ++ '-' :: (digits ++ following)

theorem endsOperand_ofNumeral (text : String) :
    (Token.ofNumeral text).endsOperand = (Binary64.ofNumeral text).isOk := by
  unfold Token.ofNumeral
  split
  · next hread => rw [hread]; rfl
  · next hread => rw [hread]; rfl

/-- The token of a numeral ends an operand with a minus sign and without it, or neither way. -/
theorem endsOperand_ofNumeral_minus {digits following : List Char}
    (h : MaximalRun isNumeralChar digits following) :
    (Token.ofNumeral (String.ofList ('-' :: digits))).endsOperand =
      (Token.ofNumeral (String.ofList digits)).endsOperand := by
  rw [endsOperand_ofNumeral, endsOperand_ofNumeral]
  exact Binary64.isOk_ofNumeral_signed h.all h.ne_nil true

/-- A text begins with a signed numeral if the first character that is no separator is a minus
    sign and the one behind it a digit or a point. -/
theorem exists_beginsSigned_iff {text : List Char} :
    (∃ digits, BeginsSigned digits text) ↔
      ∃ rest, text.dropWhile isSeparator = '-' :: rest ∧ rest.head?.any isNumeralChar = true := by
  constructor
  · rintro ⟨digits, gap, following, hgap, hrun, rfl⟩
    refine ⟨digits ++ following, List.dropWhile_append_of_pos hgap, ?_⟩
    rcases hrun.exists_cons with ⟨first, rest, rfl, hfirst, -⟩
    exact hfirst
  · -- The gap and the run of digits are the longest ones.
    rintro ⟨rest, hdrop, hhead⟩
    cases rest with
    | nil => cases hhead
    | cons c rest =>
        refine ⟨c :: rest.takeWhile isNumeralChar, text.takeWhile isSeparator,
          rest.dropWhile isNumeralChar, List.all_eq_true.mp List.all_takeWhile,
          .of_takeWhile hhead rest, ?_⟩
        rw [List.cons_append, List.takeWhile_append_dropWhile, ← hdrop,
          List.takeWhile_append_dropWhile]

/-- A signed numeral at the beginning of a text is one token where no operand has ended, and a
    minus sign with a numeral behind an operand. What follows is scanned to the same tokens. -/
theorem Scanner.exists_tokensOf_beginsSigned {digits text : List Char}
    (h : BeginsSigned digits text) :
    ∃ rest,
      tokensOf false text = .ofNumeral (String.ofList ('-' :: digits)) :: rest ∧
        tokensOf true text = .minus :: .ofNumeral (String.ofList digits) :: rest := by
  rcases h with ⟨gap, following, hgap, hrun, rfl⟩
  refine ⟨tokensOf (Token.ofNumeral (String.ofList digits)).endsOperand following, ?_, ?_⟩
  · rw [tokensOf_append_of_separators hgap, tokensOf_signedNumeral hrun,
      endsOperand_ofNumeral_minus hrun]
  · have hstarts : startsNumeral true '-' (digits ++ following) = false := rfl
    rw [tokensOf_append_of_separators hgap, tokensOf_punctuation rfl hstarts,
      tokensOf_numeral hrun]

/-- The second of two texts with a separator between them is scanned behind an operand if the
    last token of the first ends one. -/
theorem tokensBeforeEnd_append {s : Char} (hs : isSeparator s = true) (front back : String) :
    tokensBeforeEnd (front ++ String.singleton s ++ back) =
      tokensBeforeEnd front ++
        Scanner.tokensOf ((tokensBeforeEnd front).getLast?.any Token.endsOperand)
          back.toList := by
  have htext : (front ++ String.singleton s ++ back).toList =
      front.toList ++ s :: back.toList := by
    rw [String.toList_append, String.toList_append, String.toList_singleton, List.append_assoc]
    rfl
  have hafter (tokens : List Token) :
      operandAfter false tokens = tokens.getLast?.any Token.endsOperand := by
    unfold operandAfter
    cases tokens.getLast? <;> rfl
  rw [tokensBeforeEnd_eq, tokensBeforeEnd_eq, htext, Scanner.tokensOf_append_separator hs, hafter]

/-- The tokens of two texts with a separator between them are the tokens of the first and those
    of the second, unless the first ends with an operand and the second begins with a signed
    numeral. Then the sign is a minus sign of its own and the numeral is read without it, and
    all other tokens are the same. -/
theorem tokensBeforeEnd_append_separator {s : Char} (hs : isSeparator s = true)
    (front back : String) :
    (¬ ((tokensBeforeEnd front).getLast?.any Token.endsOperand = true ∧
          ∃ digits, BeginsSigned digits back.toList) →
        tokensBeforeEnd (front ++ String.singleton s ++ back) =
          tokensBeforeEnd front ++ tokensBeforeEnd back) ∧
      ∀ digits, (tokensBeforeEnd front).getLast?.any Token.endsOperand = true →
        BeginsSigned digits back.toList →
          ∃ rest,
            tokensBeforeEnd back = .ofNumeral (String.ofList ('-' :: digits)) :: rest ∧
              tokensBeforeEnd (front ++ String.singleton s ++ back) =
                tokensBeforeEnd front ++ [.minus, .ofNumeral (String.ofList digits)] ++ rest := by
  rw [tokensBeforeEnd_append hs, tokensBeforeEnd_eq back]
  constructor
  · intro hnot
    -- Either no operand has ended, as before a text alone, or the second text does not ask for it.
    by_cases hoperand : (tokensBeforeEnd front).getLast?.any Token.endsOperand = true
    · have hsign : ∀ rest, back.toList.dropWhile isSeparator = '-' :: rest →
          rest.head?.any isNumeralChar = false := by
        intro rest hrest
        refine eq_false_of_ne_true fun hhead => ?_
        exact hnot ⟨hoperand, exists_beginsSigned_iff.mpr ⟨rest, hrest, hhead⟩⟩
      rw [Scanner.tokensOf_eq_of_not_sign hsign]
    · rw [eq_false_of_ne_true hoperand]
  · intro digits hoperand hsigned
    -- The second text is scanned once alone and once behind the operand.
    rcases Scanner.exists_tokensOf_beginsSigned hsigned with ⟨rest, halone, hbehind⟩
    refine ⟨rest, halone, ?_⟩
    rw [hoperand, hbehind, List.append_assoc]
    rfl

/-- A signed numeral with a point too many behind an operand, and a signed numeral behind an
    equals sign. -/
theorem tokensBeforeEnd_append_separator_sample :
    isSeparator ';' = true ∧
      (tokensBeforeEnd "x").getLast?.any Token.endsOperand = true ∧
      BeginsSigned "1.1.1".toList " -1.1.1-2".toList ∧
      (∃ rest,
        tokensBeforeEnd " -1.1.1-2" = .ofNumeral (String.ofList ('-' :: "1.1.1".toList)) :: rest ∧
          tokensBeforeEnd ("x" ++ String.singleton ';' ++ " -1.1.1-2") =
            tokensBeforeEnd "x" ++
              [.minus, .ofNumeral (String.ofList "1.1.1".toList)] ++ rest) ∧
      ¬ ((tokensBeforeEnd "x =").getLast?.any Token.endsOperand = true ∧
          ∃ digits, BeginsSigned digits "-1".toList) ∧
      tokensBeforeEnd ("x =" ++ String.singleton ';' ++ "-1") =
        tokensBeforeEnd "x =" ++ tokensBeforeEnd "-1" := by
  have hs : isSeparator ';' = true := by decide
  have hoperand : (tokensBeforeEnd "x").getLast?.any Token.endsOperand = true := by
    decide +kernel
  have hrun : MaximalRun isNumeralChar "1.1.1".toList "-2".toList :=
    ⟨by decide, List.all_eq_true.mp (by decide), fun c hc => Option.some.inj hc ▸ rfl⟩
  have hsigned : BeginsSigned "1.1.1".toList " -1.1.1-2".toList :=
    ⟨" ".toList, "-2".toList, List.all_eq_true.mp (by decide), hrun, by decide⟩
  have hnone : ¬ ((tokensBeforeEnd "x =").getLast?.any Token.endsOperand = true ∧
      ∃ digits, BeginsSigned digits "-1".toList) :=
    fun h => absurd h.1 (by decide +kernel)
  exact ⟨hs, hoperand, hsigned,
    (tokensBeforeEnd_append_separator hs "x" " -1.1.1-2").2 _ hoperand hsigned, hnone,
    (tokensBeforeEnd_append_separator hs "x =" "-1").1 hnone⟩

end Calculator
