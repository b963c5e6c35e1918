import Calculator.Token.Scan

/-!
# Scanning Piece by Piece

The tokens of a text that is put together from parts.

A token ends at the first character that cannot go on with it, and a separator goes on
with nothing. So the tokens of two texts with a separator between them are the tokens of
the first, followed by those of the second as they are scanned behind the first. What
the second text knows of the first is one bit, whether an operand has just ended, and it
asks for that bit only if it begins with a minus sign.

The same holds without a separator wherever the second text begins with a character that
belongs to no numeral and to no word, a parenthesis say.

## Main definitions

* `Scanner.tokensOf`: The tokens of a text behind an operand or elsewhere.
* `operandAfter`: Whether an operand has just ended behind some tokens.
* `Scanner.tokensOfLexemes`: The tokens of some texts, scanned one after the other.

## Theorems

* `tokensOf_append_stop`: A text is scanned in two parts where no numeral and no word
  goes on.
* `tokensOf_append_separator`: A separator divides a text into two that are scanned one
  after the other.
* `tokensOf_eq_of_not_sign`: Only a minus sign that touches a digit or a point asks whether an
  operand has ended.
* `forall_mem_tokensOf`: What every piece has, every token of a text has.
-/

namespace Calculator

theorem isNumeralChar_of_isSeparator {c : Char} (h : isSeparator c = true) :
    isNumeralChar c = false := by
  simp only [isSeparator, Bool.or_eq_true, beq_iff_eq] at h
  rcases h with (((rfl | rfl) | rfl) | rfl) | rfl <;> decide

theorem isAlphabetic_of_isSeparator {c : Char} (h : isSeparator c = true) :
    isAlphabetic c = false := by
  simp only [isSeparator, Bool.or_eq_true, beq_iff_eq] at h
  rcases h with (((rfl | rfl) | rfl) | rfl) | rfl <;> decide

theorem isSeparator_eq_false {c : Char} (h : isNumeralChar c = true ∨ isAlphabetic c = true) :
    isSeparator c = false := by
  refine eq_false_of_ne_true fun hc => ?_
  rw [isNumeralChar_of_isSeparator hc, isAlphabetic_of_isSeparator hc] at h
  exact h.elim Bool.false_ne_true Bool.false_ne_true

/-- A punctuation character is of no other kind. -/
theorem kinds_of_ofPunctuation? {c : Char} {token : Token}
    (h : Token.ofPunctuation? c = some token) :
    isSeparator c = false ∧ isNumeralChar c = false ∧ isAlphabetic c = false := by
  unfold Token.ofPunctuation? at h
  split at h
  case h_8 => cases h
  all_goals decide

/-- A numeral starts with a minus sign or with a character of its own. -/
theorem eq_minus_or_of_startsNumeral {afterOperand : Bool} {first : Char} {rest : List Char}
    (h : startsNumeral afterOperand first rest = true) :
    first = '-' ∨ isNumeralChar first = true := by
  simp only [startsNumeral, Bool.or_eq_true, Bool.and_eq_true, beq_iff_eq] at h
  exact h.elim .inr fun hsign => .inl hsign.1.1

theorem takeWhile_append_stop {p : Char → Bool} {c : Char} (h : p c = false)
    (front back : List Char) : (front ++ c :: back).takeWhile p = front.takeWhile p := by
  induction front with
  | nil => rw [List.nil_append, List.takeWhile_cons, h]; rfl
  | cons d rest ih =>
      rw [List.cons_append, List.takeWhile_cons, List.takeWhile_cons, ih]

theorem dropWhile_append_stop {p : Char → Bool} {c : Char} (h : p c = false)
    (front back : List Char) :
    (front ++ c :: back).dropWhile p = front.dropWhile p ++ c :: back := by
  induction front with
  | nil => rw [List.nil_append, List.dropWhile_cons, h]; rfl
  | cons d rest ih =>
      rw [List.cons_append, List.dropWhile_cons, List.dropWhile_cons, ih]
      split <;> rfl

/-- A character that goes on with no numeral and no word ends every token. -/
theorem scanLexeme_append_stop {c : Char} (hnumeral : isNumeralChar c = false)
    (hword : isAlphabetic c = false) (afterOperand : Bool) (first : Char)
    (front back : List Char) :
    scanLexeme afterOperand first (front ++ c :: back) =
      ((scanLexeme afterOperand first front).1,
        (scanLexeme afterOperand first front).2 ++ c :: back) := by
  -- The character behind a minus may be `c` now, which does not make it a sign either.
  have hstarts : startsNumeral afterOperand first (front ++ c :: back) =
      startsNumeral afterOperand first front := by
    cases front with
    | nil =>
        rw [startsNumeral, startsNumeral, List.nil_append, List.head?_cons, Option.any_some,
          hnumeral]
        rfl
    | cons d rest => rfl
  unfold scanLexeme
  rw [hstarts]
  split
  · rw [scanNumeral, scanNumeral, takeWhile_append_stop hnumeral, dropWhile_append_stop hnumeral]
  split
  · rfl
  split
  · rw [scanWord, scanWord, takeWhile_append_stop hword, dropWhile_append_stop hword]
  · rfl

namespace Scanner

/-- The tokens of a text behind an operand or elsewhere. -/
def tokensOf (afterOperand : Bool) (text : List Char) : List Token :=
  tokens { afterOperand, rest := text }

theorem tokensOf_of_dropWhile_nil {text : List Char} (h : text.dropWhile isSeparator = [])
    (afterOperand : Bool) : tokensOf afterOperand text = [] :=
  tokens_of_dropWhile_nil h

theorem tokensOf_nil (afterOperand : Bool) : tokensOf afterOperand [] = [] :=
  tokensOf_of_dropWhile_nil rfl afterOperand

theorem tokensOf_of_dropWhile_cons {text rest : List Char} {first : Char}
    (h : text.dropWhile isSeparator = first :: rest) (afterOperand : Bool) :
    tokensOf afterOperand text =
      (scanLexeme afterOperand first rest).1 ::
        tokensOf (scanLexeme afterOperand first rest).1.endsOperand
          (scanLexeme afterOperand first rest).2 := by
  rw [tokensOf, tokens_of_dropWhile_cons h, next_of_dropWhile_cons h]
  rfl

/-- The separators before a text do not matter. -/
theorem tokensOf_eq_of_dropWhile {text text' : List Char}
    (h : text.dropWhile isSeparator = text'.dropWhile isSeparator) (afterOperand : Bool) :
    tokensOf afterOperand text = tokensOf afterOperand text' := by
  cases htext : text'.dropWhile isSeparator with
  | nil =>
      rw [tokensOf_of_dropWhile_nil htext, tokensOf_of_dropWhile_nil (h.trans htext)]
  | cons first rest =>
      rw [tokensOf_of_dropWhile_cons htext, tokensOf_of_dropWhile_cons (h.trans htext)]

theorem tokensOf_cons_separator {c : Char} (hc : isSeparator c = true) (afterOperand : Bool)
    (text : List Char) : tokensOf afterOperand (c :: text) = tokensOf afterOperand text :=
  tokensOf_eq_of_dropWhile (List.dropWhile_cons_of_pos hc) afterOperand

theorem tokensOf_append_of_separators {gap : List Char} (hgap : ∀ c ∈ gap, isSeparator c = true)
    (afterOperand : Bool) (text : List Char) :
    tokensOf afterOperand (gap ++ text) = tokensOf afterOperand text :=
  tokensOf_eq_of_dropWhile (List.dropWhile_append_of_pos hgap) afterOperand

end Scanner

/-- Whether an operand has just ended behind some tokens that begin behind an operand or
    elsewhere. -/
def operandAfter (afterOperand : Bool) (tokens : List Token) : Bool :=
  (tokens.getLast?.map Token.endsOperand).getD afterOperand

theorem operandAfter_append (afterOperand : Bool) (front back : List Token) :
    operandAfter afterOperand (front ++ back) =
      operandAfter (operandAfter afterOperand front) back := by
  rw [operandAfter, operandAfter, operandAfter, List.getLast?_append]
  cases back.getLast? <;> rfl

theorem operandAfter_nil (afterOperand : Bool) : operandAfter afterOperand [] = afterOperand :=
  rfl

theorem operandAfter_cons (afterOperand : Bool) (token : Token) (tokens : List Token) :
    operandAfter afterOperand (token :: tokens) = operandAfter token.endsOperand tokens := by
  cases tokens with
  | nil => rfl
  | cons next rest =>
      rw [operandAfter, operandAfter, List.getLast?_cons_cons,
        List.getLast?_eq_some_getLast (List.cons_ne_nil next rest)]
      rfl

namespace Scanner

/-- The tokens of some texts, scanned one after the other. -/
def tokensOfLexemes (afterOperand : Bool) : List (List Char) → List Token
  | [] => []
  | lexeme :: lexemes =>
      tokensOf afterOperand lexeme ++
        tokensOfLexemes (operandAfter afterOperand (tokensOf afterOperand lexeme)) lexemes

/-- Texts are scanned one after the other. -/
theorem tokensOfLexemes_append (afterOperand : Bool) (front back : List (List Char)) :
    tokensOfLexemes afterOperand (front ++ back) =
      tokensOfLexemes afterOperand front ++
        tokensOfLexemes (operandAfter afterOperand (tokensOfLexemes afterOperand front))
          back := by
  induction front generalizing afterOperand with
  | nil => rfl
  | cons lexeme lexemes ih =>
      simp only [List.cons_append, tokensOfLexemes, ih, operandAfter_append, List.append_assoc]

/-- A text is scanned in two parts, if the second begins with a character that goes on
    with no numeral and no word. -/
theorem tokensOf_append_stop {c : Char} (hnumeral : isNumeralChar c = false)
    (hword : isAlphabetic c = false) (afterOperand : Bool) (front back : List Char) :
    tokensOf afterOperand (front ++ c :: back) =
      tokensOf afterOperand front ++
        tokensOf (operandAfter afterOperand (tokensOf afterOperand front)) (c :: back) := by
  -- Each token of the first part is taken with the second part behind it.
  induction hlength : front.length using Nat.strongRecOn generalizing afterOperand front with
  | _ length ih =>
      have hdrop : (front ++ c :: back).dropWhile isSeparator = _ := List.dropWhile_append
      cases hfront : front.dropWhile isSeparator with
      | nil =>
          rw [hfront] at hdrop
          rw [tokensOf_of_dropWhile_nil hfront, operandAfter_nil, List.nil_append]
          exact tokensOf_eq_of_dropWhile hdrop afterOperand
      | cons first rest =>
          rw [hfront, List.isEmpty_cons, if_neg Bool.false_ne_true, List.cons_append] at hdrop
          have hlt := scanLexeme_length_lt hfront afterOperand
          rw [tokensOf_of_dropWhile_cons hdrop, tokensOf_of_dropWhile_cons hfront,
            operandAfter_cons, scanLexeme_append_stop hnumeral hword, List.cons_append,
            ih _ (hlength ▸ hlt) _ _ rfl]

/-- A separator divides a text into two that are scanned one after the other. -/
theorem tokensOf_append_separator {c : Char} (hc : isSeparator c = true) (afterOperand : Bool)
    (front back : List Char) :
    tokensOf afterOperand (front ++ c :: back) =
      tokensOf afterOperand front ++
        tokensOf (operandAfter afterOperand (tokensOf afterOperand front)) back := by
  rw [tokensOf_append_stop (isNumeralChar_of_isSeparator hc) (isAlphabetic_of_isSeparator hc),
    tokensOf_cons_separator hc]

/-- Separators behind a text have no tokens. -/
theorem tokensOf_append_separators {gap : List Char} (hgap : ∀ c ∈ gap, isSeparator c = true)
    (afterOperand : Bool) (text : List Char) :
    tokensOf afterOperand (text ++ gap) = tokensOf afterOperand text := by
  cases gap with
  | nil => rw [List.append_nil]
  | cons c rest =>
      rw [List.forall_mem_cons] at hgap
      have hrest := tokensOf_append_of_separators hgap.2
        (operandAfter afterOperand (tokensOf afterOperand text)) []
      rw [List.append_nil, tokensOf_nil] at hrest
      rw [tokensOf_append_separator hgap.1, hrest, List.append_nil]

/-- Only a minus sign that touches a digit or a point asks whether an operand has ended. -/
theorem tokensOf_eq_of_not_sign {text : List Char}
    (h : ∀ rest, text.dropWhile isSeparator = '-' :: rest → rest.head?.any isNumeralChar = false)
    (afterOperand : Bool) : tokensOf afterOperand text = tokensOf false text := by
  cases htext : text.dropWhile isSeparator with
  | nil => rw [tokensOf_of_dropWhile_nil htext, tokensOf_of_dropWhile_nil htext]
  | cons first rest =>
      have hsign : (first == '-' && rest.head?.any isNumeralChar) = false := by
        by_cases hminus : first = '-'
        · rw [h rest (hminus ▸ htext), Bool.and_false]
        · rw [beq_eq_false_iff_ne.mpr hminus, Bool.false_and]
      -- What came before is looked at only to tell a sign, and there is none.
      have hstarts (operand : Bool) : startsNumeral operand first rest = isNumeralChar first := by
        rw [startsNumeral, Bool.and_right_comm, hsign, Bool.false_and, Bool.or_false]
      have hlexeme : scanLexeme afterOperand first rest = scanLexeme false first rest := by
        unfold scanLexeme
        rw [hstarts, hstarts]
      rw [tokensOf_of_dropWhile_cons htext, tokensOf_of_dropWhile_cons htext, hlexeme]

/-- A text that does not begin with a minus sign does not ask whether an operand has ended. -/
theorem tokensOf_eq_of_head?_ne_minus {text : List Char}
    (h : (text.dropWhile isSeparator).head? ≠ some '-') (afterOperand : Bool) :
    tokensOf afterOperand text = tokensOf false text :=
  tokensOf_eq_of_not_sign (fun _ hrest => absurd (by rw [hrest, List.head?_cons]) h) afterOperand

-- What is scanned is never the mark of the end, and it is a minus sign only at one.
theorem scanLexeme_ne (afterOperand : Bool) (first : Char) (rest : List Char) :
    (scanLexeme afterOperand first rest).1 ≠ .endOfText ∧
      ((scanLexeme afterOperand first rest).1 = .minus → first = '-') := by
  rw [scanLexeme]
  split
  · rw [scanNumeral, Token.ofNumeral]
    split <;> exact ⟨(nomatch ·), (nomatch ·)⟩
  split
  · next token htoken =>
      unfold Token.ofPunctuation? at htoken
      split at htoken <;> cases htoken <;> refine ⟨(nomatch ·), fun h => ?_⟩ <;>
        first | rfl | cases h
  split
  · rw [scanWord, Token.ofWord]
    split <;> exact ⟨(nomatch ·), (nomatch ·)⟩
  · exact ⟨(nomatch ·), (nomatch ·)⟩

/-- What every piece has that is scanned by itself, every token of a text has. -/
theorem forall_mem_tokensOf {P : Token → Prop}
    (h : ∀ afterOperand first rest, P (scanLexeme afterOperand first rest).1)
    (afterOperand : Bool) (text : List Char) : ∀ token ∈ tokensOf afterOperand text, P token := by
  -- The induction is on the length, since what is left behind a lexeme is no tail of the text.
  induction hlength : text.length using Nat.strongRecOn generalizing afterOperand text with
  | _ length ih =>
      cases htext : text.dropWhile isSeparator with
      | nil =>
          rw [tokensOf_of_dropWhile_nil htext]
          exact List.forall_mem_nil P
      | cons first rest =>
          have hlt := scanLexeme_length_lt htext afterOperand
          rw [tokensOf_of_dropWhile_cons htext, List.forall_mem_cons]
          exact ⟨h afterOperand first rest, ih _ (hlength ▸ hlt) _ _ rfl⟩

theorem endOfText_notMem_tokensOf (afterOperand : Bool) (text : List Char) :
    Token.endOfText ∉ tokensOf afterOperand text :=
  fun hmem => forall_mem_tokensOf (P := (· ≠ .endOfText))
    (fun afterOperand first rest => (scanLexeme_ne afterOperand first rest).1)
    afterOperand text _ hmem rfl

-- A number is scanned only from a numeral, and no numeral is out of range.
theorem isFinite_of_scanLexeme (afterOperand : Bool) (first : Char) (rest : List Char)
    {value : Binary64} (h : (scanLexeme afterOperand first rest).1 = .number value) :
    value.isFinite = true := by
  rw [scanLexeme] at h
  split at h
  · rw [scanNumeral, Token.ofNumeral] at h
    split at h
    · next hnumeral =>
        rw [← Token.number.inj h]
        exact Binary64.ofNumeral_isFinite hnumeral
    · cases h
  split at h
  · next token htoken =>
      unfold Token.ofPunctuation? at htoken
      split at htoken <;> cases htoken <;> cases h
  split at h
  · rw [scanWord, Token.ofWord] at h
    split at h <;> cases h
  · cases h

theorem isFinite_of_mem_tokensOf {afterOperand : Bool} {text : List Char} {value : Binary64}
    (h : .number value ∈ tokensOf afterOperand text) : value.isFinite = true :=
  forall_mem_tokensOf (P := fun token => ∀ value, token = .number value → value.isFinite = true)
    (fun afterOperand first rest _ => isFinite_of_scanLexeme afterOperand first rest)
    afterOperand text _ h value rfl

/-- A text that does not begin with a minus sign has no minus sign for its first token. -/
theorem head?_tokensOf_ne_minus {text : List Char}
    (h : (text.dropWhile isSeparator).head? ≠ some '-') (afterOperand : Bool) :
    (tokensOf afterOperand text).head? ≠ some .minus := by
  cases htext : text.dropWhile isSeparator with
  | nil =>
      rw [tokensOf_of_dropWhile_nil htext]
      exact (nomatch ·)
  | cons first rest =>
      rw [tokensOf_of_dropWhile_cons htext, List.head?_cons]
      intro htoken
      rw [htext, List.head?_cons] at h
      exact h (congrArg some ((scanLexeme_ne afterOperand first rest).2 (Option.some.inj htoken)))

/-- A punctuation character is a token of its own, unless it starts a numeral. -/
theorem tokensOf_punctuation {c : Char} {token : Token}
    (htoken : Token.ofPunctuation? c = some token) {afterOperand : Bool} {text : List Char}
    (hstarts : startsNumeral afterOperand c text = false) :
    tokensOf afterOperand (c :: text) = token :: tokensOf token.endsOperand text := by
  have hsep : isSeparator c = false := (kinds_of_ofPunctuation? htoken).1
  have hlexeme : scanLexeme afterOperand c text = (token, text) := by
    rw [scanLexeme, if_neg (ne_true_of_eq_false hstarts), htoken]
  rw [tokensOf_of_dropWhile_cons (List.dropWhile_cons_of_neg (ne_true_of_eq_false hsep)), hlexeme]

/-- A run of numeral characters alone is a numeral, and so is one behind a first character
    that starts it. -/
theorem tokensOf_of_startsNumeral {afterOperand : Bool} {first : Char} {rest : List Char}
    (hstarts : startsNumeral afterOperand first rest = true)
    (hrest : ∀ c ∈ rest, isNumeralChar c = true) :
    tokensOf afterOperand (first :: rest) =
      [Token.ofNumeral (String.ofList (first :: rest))] := by
  have hfirst : isSeparator first = false := by
    rcases eq_minus_or_of_startsNumeral hstarts with rfl | hnumeral
    · decide
    · exact isSeparator_eq_false (.inl hnumeral)
  have hdrop : (first :: rest).dropWhile isSeparator = first :: rest :=
    List.dropWhile_cons_of_neg (ne_true_of_eq_false hfirst)
  have hlexeme : scanLexeme afterOperand first rest =
      (Token.ofNumeral (String.ofList (first :: rest)), []) := by
    have htake : (rest ++ []).takeWhile isNumeralChar = rest ++ [].takeWhile isNumeralChar :=
      List.takeWhile_append_of_pos hrest
    have hrun : (rest ++ []).dropWhile isNumeralChar = [].dropWhile isNumeralChar :=
      List.dropWhile_append_of_pos hrest
    simp only [List.append_nil, List.takeWhile_nil, List.dropWhile_nil] at htake hrun
    rw [scanLexeme, if_pos hstarts, scanNumeral, htake, hrun]
  rw [tokensOf_of_dropWhile_cons hdrop, hlexeme, tokensOf_nil]

end Scanner

end Calculator
