import Calculator.Proofs.Lexemes
import Calculator.Proofs.ShortestText

/-!
# Printing Tokens

The tokens of a text, printed with blanks between them, are scanned as the same tokens.

A printed token is a lexeme of its own kind again. A word is printed as it was written, and
the word for assignment in lower case. A number is printed as another numeral of the same
number, and with the same sign, so a numeral without a minus sign stays without one.

What decides about a minus sign is not printed: whether an operand has ended, and whether a
numeral follows directly. The first is the same as in the text, because the tokens before it
are. As for the second, a negative numeral still begins with its minus sign, so it is cut at
that place again; and a minus sign of its own is printed with a blank behind it, where it
is no sign of a numeral, however close the numeral was in the text.

## Main definitions

* `Token.printed`: A token with a blank before it, as a piece of text.

## Theorems

* `Token.exists_numeral_of_ofNumeral`: The number of a numeral is printed as a numeral with
  the same sign.
* `Lexeme.printed`: The text of a lexeme's token is a lexeme of the same token.
* `WellCut.printed`: The printed tokens of a text are cut where the blanks are.
* `tokenize_print`: The printed tokens of a text are scanned as the tokens of the text.
-/

namespace Calculator

/-- A token with a blank before it, as a piece of text. -/
def Token.printed (token : Token) : Piece :=
  ⟨[' '], token.text.toList, token⟩

/-- The number of a numeral is printed as a numeral with the same sign. -/
theorem Token.exists_numeral_of_ofNumeral (negative : Bool) {digits : List Char}
    (hdigits : ∀ c ∈ digits, isNumeralChar c = true)
    (hvalid : ∀ message,
      Token.ofNumeral (String.ofList (Decimal.signText negative ++ digits)) ≠
        .malformed message) :
    ∃ n : Numeral,
      (Token.ofNumeral (String.ofList (Decimal.signText negative ++ digits))).text.toList =
          Decimal.signText negative ++ n.text ∧
        Token.ofNumeral (String.ofList (Decimal.signText negative ++ n.text)) =
          Token.ofNumeral (String.ofList (Decimal.signText negative ++ digits)) := by
  cases hread : Binary64.ofNumeral (String.ofList (Decimal.signText negative ++ digits)) with
  | error e =>
      refine absurd ?_ (hvalid e.message)
      rw [Token.ofNumeral, hread]
  | ok x =>
      have htoken :
          Token.ofNumeral (String.ofList (Decimal.signText negative ++ digits)) = .number x := by
        rw [Token.ofNumeral, hread]
      -- What is read is finite, and the printed text of a finite number is read as that number.
      rcases Binary64.eq_finite_of_ofNumeral hread with ⟨units, hunits, hx⟩
      rw [String.toList_ofList, Decimal.splitSign_append negative hdigits] at hx
      rcases Binary64.exists_numeral negative units hunits with ⟨n, htext, -⟩
      have hback := Binary64.ofNumeral_text_of_isFinite (Binary64.ofNumeral_isFinite hread)
      rw [htoken, Token.text, hx, htext, String.toList_ofList]
      refine ⟨n, rfl, ?_⟩
      rw [Token.ofNumeral, ← htext, ← hx, hback]

section Stop

variable {back : List Char} (hback : ∀ c ∈ back.head?, isSeparator c = true)
include hback

/-- A run of characters that are no separators ends before a separator. -/
theorem maximalRun_of_separator {p : Char → Bool}
    (hp : ∀ {c}, isSeparator c = true → p c = false) {run : List Char} (hne : run ≠ [])
    (hall : ∀ c ∈ run, p c = true) : MaximalRun p run back :=
  ⟨hne, hall, fun c hc => hp (hback c hc)⟩

/-- A minus sign before a separator is not the sign of a numeral. -/
theorem isSign_of_separator (previous : Option Token) : isSign previous back = false := by
  have hhead : back.head?.any isNumeralChar = false := by
    cases hc : back.head? with
    | none => rfl
    | some c =>
        rw [Option.any_some]
        exact isNumeralChar_of_isSeparator (hback c hc)
  rw [isSign, hhead, Bool.false_and]

/-- The text of a lexeme's token is a lexeme of the same token, if a separator follows. -/
theorem Lexeme.printed {previous : Option Token} {following lexeme : List Char} {token : Token}
    (h : Lexeme previous following lexeme token)
    (hvalid : ∀ message, token ≠ .malformed message) :
    Lexeme previous back token.text.toList token := by
  have hrun (n : Numeral) : MaximalRun isNumeralChar n.text back :=
    maximalRun_of_separator hback isNumeralChar_of_isSeparator n.text_ne_nil
      fun _ hc => n.isNumeralChar_of_mem hc
  -- A separator follows, so each printed text is a run of its own. A numeral may be written anew,
  -- and is then read as the same number.
  cases h with
  | numeral hdigits =>
      obtain ⟨n, htext, htoken⟩ :
          ∃ n : Numeral, (Token.ofNumeral (String.ofList lexeme)).text.toList = n.text ∧
            Token.ofNumeral (String.ofList n.text) = Token.ofNumeral (String.ofList lexeme) :=
        Token.exists_numeral_of_ofNumeral false hdigits.all hvalid
      rw [htext, ← htoken]
      exact .numeral (hrun n)
  | negative hdigits hprevious =>
      rename_i digits
      obtain ⟨n, htext, htoken⟩ :
          ∃ n : Numeral,
            (Token.ofNumeral (String.ofList ('-' :: digits))).text.toList = '-' :: n.text ∧
              Token.ofNumeral (String.ofList ('-' :: n.text)) =
                Token.ofNumeral (String.ofList ('-' :: digits)) :=
        Token.exists_numeral_of_ofNumeral true hdigits.all hvalid
      rw [htext, ← htoken]
      exact .negative (hrun n) hprevious
  | letWord hletters hlet =>
      have hall : ∀ c ∈ ['l', 'e', 't'], isAlphabetic c = true :=
        List.all_eq_true.mp (by decide)
      exact .letWord (maximalRun_of_separator hback isAlphabetic_of_isSeparator
        (List.cons_ne_nil _ _) hall) (by decide)
  | name hletters hname =>
      rw [Token.text, String.toList_ofList]
      exact .name (maximalRun_of_separator hback isAlphabetic_of_isSeparator hletters.ne_nil
        hletters.all) hname
  | punctuation htoken hsign =>
      rw [Token.text_ofPunctuation htoken, String.toList_singleton]
      exact .punctuation htoken fun _ => isSign_of_separator hback previous
  | unknown hc hnumeral hword hpunctuation => exact absurd rfl (hvalid _)

end Stop

/-- Behind a printed token there is a blank, or nothing. -/
theorem head?_flatMap_printed (tokens : List Token) :
    ∀ c ∈ ((tokens.map Token.printed).flatMap Piece.text ++ []).head?, isSeparator c = true := by
  cases tokens with
  | nil => exact fun c hc => nomatch hc
  | cons token rest =>
      intro c hc
      rw [← Option.some.inj hc]
      decide

/-- The printed tokens of a text are cut where the blanks are. -/
theorem WellCut.printed {previous : Option Token} {trailing : List Char} {pieces : List Piece}
    (h : WellCut previous trailing pieces)
    (hvalid : ∀ message, Token.malformed message ∉ pieces.map Piece.token) :
    WellCut previous [] ((pieces.map Piece.token).map Token.printed) := by
  induction pieces generalizing previous with
  | nil => exact fun c hc => nomatch hc
  | cons piece rest ih =>
      rcases h with ⟨-, hlexeme, hrest⟩
      have hpiece (message : String) : piece.token ≠ .malformed message := by
        intro heq
        exact hvalid message (heq ▸ List.mem_cons_self)
      refine ⟨List.forall_mem_singleton.mpr (by decide), ?_, ih hrest fun message hmem => ?_⟩
      · exact hlexeme.printed (head?_flatMap_printed _) hpiece
      · exact hvalid message (List.mem_cons_of_mem _ hmem)

/-- Printed tokens with a blank between them are printed tokens with a blank before each. -/
theorem cons_toList_intercalate {tokens : List Token} (h : tokens ≠ []) :
    ' ' :: (String.intercalate " " (tokens.map Token.text)).toList =
      (tokens.map Token.printed).flatMap Piece.text ++ [] := by
  -- With one blank more in front, every token has its blank, and the list is a concatenation.
  induction tokens with
  | nil => exact absurd rfl h
  | cons token rest ih =>
      by_cases hrest : rest = []
      · rw [hrest, List.map_singleton, String.intercalate_singleton, List.map_singleton,
          List.flatMap_singleton, List.append_nil]
        rfl
      · have hne : rest.map Token.text ≠ [] := fun heq => hrest (List.map_eq_nil_iff.mp heq)
        rw [List.map_cons, String.intercalate_cons_of_ne_nil hne, String.toList_append,
          String.toList_append, List.append_assoc, List.map_cons, List.flatMap_cons,
          List.append_assoc, ← ih hrest]
        rfl

/-- Tokens are scanned from their printed form, if that is cut where the blanks are. -/
theorem tokens_print {tokens : List Token}
    (h : WellCut none [] (tokens.map Token.printed)) :
    (Scanner.ofText (String.intercalate " " (tokens.map Token.text))).tokens = tokens := by
  have htokens : (tokens.map Token.printed).map Piece.token = tokens := by
    rw [List.map_map]
    exact List.map_id tokens
  by_cases hnone : tokens = []
  · rw [hnone]
    exact Scanner.tokensOf_nil false
  · -- A blank before the first token does not matter.
    have hblank : ∀ c ∈ [' '], isSeparator c = true := List.forall_mem_singleton.mpr (by decide)
    have hscan := h.tokensOf
    rw [htokens, ← cons_toList_intercalate hnone] at hscan
    exact (Scanner.tokensOf_append_of_separators hblank false _).symm.trans hscan

/-- The tokens of a text without malformed pieces, printed with blanks between them, are
    scanned as the tokens of the text. -/
theorem tokenize_print (text : String)
    (h : ∀ message, Token.malformed message ∉ tokenize text) :
    tokenize (String.intercalate " " ((Scanner.ofText text).tokens.map Token.text)) =
      tokenize text := by
  rcases exists_wellCut none text.toList with ⟨pieces, trailing, htext, hcut⟩
  have htokens : (Scanner.ofText text).tokens = pieces.map Piece.token := by
    rw [Scanner.ofText, htext]
    exact hcut.tokensOf
  have hvalid (message : String) : Token.malformed message ∉ pieces.map Piece.token := by
    intro hmem
    rw [← htokens] at hmem
    exact h message (List.mem_append_left _ hmem)
  rw [tokenize, tokenize, htokens, tokens_print (hcut.printed hvalid)]

/-- A zero keeps its sign, and the minus sign before a numeral is scanned as a subtraction
    with the blank and without it. -/
theorem tokenize_print_sample :
    (∀ message, Token.malformed message ∉ tokenize "LET x=(-0)*2-.50") ∧
      tokenize "let x = ( -0 ) * 2 - 0.5" = tokenize "LET x=(-0)*2-.50" := by
  have hvalid : ∀ message, Token.malformed message ∉ tokenize "LET x=(-0)*2-.50" := by
    have htokens : tokenize "LET x=(-0)*2-.50" =
        [.letWord, .name "x", .equals, .openParen, .number (.zero true), .closeParen, .times,
          .number (.ofBits 0x4000000000000000), .minus, .number (.ofBits 0x3fe0000000000000),
          .endOfText, .endOfText] := by
      decide +kernel
    intro message hmem
    rw [htokens] at hmem
    simp only [List.mem_cons, List.not_mem_nil, reduceCtorEq, or_self] at hmem
  have hprint : String.intercalate " "
      ((Scanner.ofText "LET x=(-0)*2-.50").tokens.map Token.text) =
        "let x = ( -0 ) * 2 - 0.5" := by
    decide +kernel
  have hback := tokenize_print "LET x=(-0)*2-.50" hvalid
  rw [hprint] at hback
  exact ⟨hvalid, hback⟩

end Calculator
