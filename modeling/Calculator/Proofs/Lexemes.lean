import Calculator.Proofs.Scanning
import Mathlib.Data.List.TakeWhile

/-!
# Lexemes

A text is its lexemes with separators between them, and each lexeme is as long as it can be.

What the scanner takes at a time is described here without it. A lexeme is a run of numeral
characters or of alphabetic characters, ended by a character of another kind, or else it is
a single character. Which token it is depends on the lexeme alone, except for a minus sign:
it is the sign of a numeral if it touches one and no operand stands before it, and otherwise
it is a lexeme of its own.

The rules look forward by one character and back by one token, so a text that is cut by them
can be cut in one way only. From the cut one reads off the tokens, and each token is found
again in the text.

## Main definitions

* `MaximalRun`: A run of characters of one kind that is not followed by another of them.
* `isSign`: Whether a minus sign is the sign of a numeral.
* `Lexeme`: What stands for a token behind another token and before some text.
* `Piece`: A lexeme with the separators before it and the token it stands for.
* `WellCut`: Pieces that are cut by the rules.

## Theorems

* `lexeme_of_scanLexeme`: What the scanner takes is a lexeme.
* `Lexeme.exists_scanLexeme`: A lexeme is what the scanner takes.
* `Lexeme.tokensOf`: It is scanned as its token.
* `Scanner.tokensOf_numeral`, `Scanner.tokensOf_signedNumeral`: A run of digits and points is
  scanned as one numeral, and with a minus sign where no operand has ended.
* `exists_wellCut`: Every text can be cut by the rules.
* `WellCut.tokensOf`: Its tokens are those of any such cut.
* `WellCut.exists_minus`: Where the minus signs of a text are found.
* `exists_pieces`: A text is made of its lexemes and separators, and nothing is lost.
-/

namespace Calculator

/-- No character belongs to a numeral and to a word. -/
theorem isNumeralChar_of_isAlphabetic {c : Char} (h : isAlphabetic c = true) :
    isNumeralChar c = false := by
  refine eq_false_of_ne_true fun hnumeral => ?_
  rw [isNumeralChar, Bool.or_eq_true, beq_iff_eq] at hnumeral
  rcases hnumeral with hdigit | rfl
  · -- A digit is an ASCII character, where the alphabetic ones are the letters.
    simp only [Char.isDigit, Bool.and_eq_true, decide_eq_true_eq, UInt32.le_iff_toNat_le,
      ge_iff_le] at hdigit
    have hascii : c.toNat < 0x80 := Nat.lt_of_le_of_lt hdigit.2 (by decide)
    have hletter : c.isAlpha =
        (decide ('A'.val ≤ c.val ∧ c.val ≤ 'Z'.val) ||
          decide ('a'.val ≤ c.val) && decide (c.val ≤ 'z'.val)) := rfl
    rw [isAlphabetic_ascii hascii, hletter] at h
    simp only [Bool.or_eq_true, Bool.and_eq_true, decide_eq_true_eq,
      UInt32.le_iff_toNat_le] at h
    have hnine : '9'.val.toNat = 57 := rfl
    have hupper : 'A'.val.toNat = 65 := rfl
    have hlower : 'a'.val.toNat = 97 := rfl
    omega
  · exact absurd h (by decide)

/-- A run of characters of one kind, one at least, that is not followed by another. -/
structure MaximalRun (p : Char → Bool) (run following : List Char) : Prop where
  ne_nil : run ≠ []
  all : ∀ c ∈ run, p c = true
  maximal : ∀ c ∈ following.head?, p c = false

/-- Whether a minus sign behind a token and before some text is the sign of a numeral: the
    numeral follows it directly, and the token does not end an operand. -/
def isSign (previous : Option Token) (following : List Char) : Bool :=
  following.head?.any isNumeralChar && !previous.any Token.endsOperand

/-- What stands for a token behind the token `previous` and before the text `following`. -/
inductive Lexeme (previous : Option Token) (following : List Char) :
    List Char → Token → Prop where
  | numeral {digits : List Char} (hrun : MaximalRun isNumeralChar digits following) :
      Lexeme previous following digits (.ofNumeral (String.ofList digits))
  | negative {digits : List Char} (hrun : MaximalRun isNumeralChar digits following)
      (hprevious : previous.any Token.endsOperand = false) :
      Lexeme previous following ('-' :: digits) (.ofNumeral (String.ofList ('-' :: digits)))
  | letWord {letters : List Char} (hrun : MaximalRun isAlphabetic letters following)
      (hlet : letters.map Char.toLower = ['l', 'e', 't']) :
      Lexeme previous following letters .letWord
  | name {letters : List Char} (hrun : MaximalRun isAlphabetic letters following)
      (hname : letters.map Char.toLower ≠ ['l', 'e', 't']) :
      Lexeme previous following letters (.name (String.ofList letters))
  | punctuation {c : Char} {token : Token} (htoken : Token.ofPunctuation? c = some token)
      (hsign : c = '-' → isSign previous following = false) :
      Lexeme previous following [c] token
  | unknown {c : Char} (hseparator : isSeparator c = false)
      (hnumeral : isNumeralChar c = false) (hword : isAlphabetic c = false)
      (hpunctuation : Token.ofPunctuation? c = none) :
      Lexeme previous following [c] (.malformed ("unknown character " ++ String.singleton c))

namespace MaximalRun

variable {p : Char → Bool}

/-- A run that is taken from the front of a text is maximal. -/
theorem of_takeWhile {first : Char} (hfirst : p first = true) (rest : List Char) :
    MaximalRun p (first :: rest.takeWhile p) (rest.dropWhile p) where
  ne_nil := List.cons_ne_nil _ _
  all := List.forall_mem_cons.mpr ⟨hfirst, List.all_eq_true.mp List.all_takeWhile⟩
  maximal c hc := by
    have hstop := List.head?_dropWhile_not p rest
    rw [hc] at hstop
    exact hstop

/-- A maximal run is what is taken from the front of a text. -/
theorem takeWhile_eq {run following : List Char} (h : MaximalRun p run following) :
    (run ++ following).takeWhile p = run ∧ (run ++ following).dropWhile p = following := by
  rw [List.takeWhile_append_of_pos h.all, List.dropWhile_append_of_pos h.all]
  cases following with
  | nil => exact ⟨List.append_nil run, rfl⟩
  | cons c rest =>
      have hstop : ¬ p c = true := ne_true_of_eq_false (h.maximal c rfl)
      rw [List.takeWhile_cons_of_neg hstop, List.dropWhile_cons_of_neg hstop]
      exact ⟨List.append_nil run, rfl⟩

/-- The first character of a maximal run, and the rest as it is taken. -/
theorem exists_cons {run following : List Char} (h : MaximalRun p run following) :
    ∃ first rest, run = first :: rest ∧ p first = true ∧
      (rest ++ following).takeWhile p = rest ∧ (rest ++ following).dropWhile p = following := by
  cases run with
  | nil => exact absurd rfl h.ne_nil
  | cons first rest =>
      have hfirst := h.all first List.mem_cons_self
      have htake := h.takeWhile_eq
      rw [List.cons_append, List.takeWhile_cons_of_pos hfirst,
        List.dropWhile_cons_of_pos hfirst] at htake
      exact ⟨first, rest, rfl, hfirst, (List.cons.inj htake.1).2, htake.2⟩

end MaximalRun

/-- A minus sign is the sign of a numeral that follows, unless an operand has ended. -/
theorem isSign_of_maximalRun {previous : Option Token} {digits following : List Char}
    (hrun : MaximalRun isNumeralChar digits following)
    (hprevious : previous.any Token.endsOperand = false) :
    isSign previous (digits ++ following) = true := by
  rcases hrun.exists_cons with ⟨first, rest, rfl, hfirst, -⟩
  rw [isSign, hprevious, List.cons_append, List.head?_cons, Option.any_some, hfirst]
  rfl

/-- A minus sign starts a numeral exactly where it is the sign of one. -/
theorem startsNumeral_minus (previous : Option Token) (following : List Char) :
    startsNumeral (previous.any Token.endsOperand) '-' following =
      isSign previous following := by
  have hminus : isNumeralChar '-' = false := by decide
  rw [startsNumeral, isSign, hminus, Bool.false_or, beq_self_eq_true, Bool.true_and,
    Bool.and_comm]

/-- A word is started by an alphabetic character, which is no numeral character and no
    punctuation. -/
theorem scanLexeme_of_isAlphabetic {first : Char} (h : isAlphabetic first = true)
    (afterOperand : Bool) (rest : List Char) :
    scanLexeme afterOperand first rest = scanWord first rest := by
  -- The scanner asks for a word last, so each kind that it asks for before is excluded.
  have hminus : (first == '-') = false := by
    refine beq_eq_false_iff_ne.mpr fun heq => ?_
    rw [heq] at h
    exact absurd h (by decide)
  have hpunctuation : Token.ofPunctuation? first = none := by
    cases htoken : Token.ofPunctuation? first with
    | none => rfl
    | some token =>
        rw [(kinds_of_ofPunctuation? htoken).2.2] at h
        cases h
  rw [scanLexeme, startsNumeral, isNumeralChar_of_isAlphabetic h, hminus, hpunctuation,
    Bool.false_and, Bool.false_and, Bool.or_self, if_neg Bool.false_ne_true]
  dsimp only
  rw [if_pos h]

/-- What the scanner takes at a character that is no separator is a lexeme. -/
theorem lexeme_of_scanLexeme (previous : Option Token) {first : Char} (rest : List Char)
    (hfirst : isSeparator first = false) :
    ∃ lexeme, first :: rest =
        lexeme ++ (scanLexeme (previous.any Token.endsOperand) first rest).2 ∧
      Lexeme previous (scanLexeme (previous.any Token.endsOperand) first rest).2 lexeme
        (scanLexeme (previous.any Token.endsOperand) first rest).1 := by
  -- The cases are those of the scanner.
  have hwhole (p : Char → Bool) : first :: rest =
      (first :: rest.takeWhile p) ++ rest.dropWhile p := by
    rw [List.cons_append, List.takeWhile_append_dropWhile]
  rw [scanLexeme]
  split
  · next hstarts =>
      refine ⟨first :: rest.takeWhile isNumeralChar, hwhole isNumeralChar, ?_⟩
      by_cases hdigit : isNumeralChar first = true
      · exact .numeral (.of_takeWhile hdigit rest)
      · -- Only a minus sign starts a numeral without being part of one.
        rw [startsNumeral, eq_false_of_ne_true hdigit, Bool.false_or, Bool.and_eq_true,
          Bool.and_eq_true, beq_iff_eq, Bool.not_eq_true'] at hstarts
        rcases hstarts with ⟨⟨rfl, hprevious⟩, hhead⟩
        refine .negative ?_ hprevious
        cases rest with
        | nil => cases hhead
        | cons c rest =>
            have hc : isNumeralChar c = true := hhead
            rw [scanNumeral, List.takeWhile_cons_of_pos hc, List.dropWhile_cons_of_pos hc]
            exact .of_takeWhile hc rest
  · next hstarts =>
      split
      · next token htoken =>
          refine ⟨[first], rfl, .punctuation htoken ?_⟩
          rintro rfl
          rw [startsNumeral_minus] at hstarts
          exact eq_false_of_ne_true hstarts
      · next hpunctuation =>
          split
          · next hword =>
              refine ⟨first :: rest.takeWhile isAlphabetic, hwhole isAlphabetic, ?_⟩
              rw [scanWord, Token.ofWord]
              split
              · next hlet => exact .letWord (.of_takeWhile hword rest) hlet
              · next hname => exact .name (.of_takeWhile hword rest) hname
          · next hword =>
              rw [startsNumeral, Bool.or_eq_true, not_or] at hstarts
              exact ⟨[first], rfl, .unknown hfirst (eq_false_of_ne_true hstarts.1)
                (eq_false_of_ne_true hword) hpunctuation⟩

/-- A lexeme is what the scanner takes, and it does not begin with a separator. -/
theorem Lexeme.exists_scanLexeme {previous : Option Token} {following lexeme : List Char}
    {token : Token} (h : Lexeme previous following lexeme token) :
    ∃ first rest, lexeme = first :: rest ∧ isSeparator first = false ∧
      scanLexeme (previous.any Token.endsOperand) first (rest ++ following) =
        (token, following) := by
  cases h with
  | numeral hrun =>
      rcases hrun.exists_cons with ⟨first, rest, rfl, hfirst, htake, hdrop⟩
      refine ⟨first, rest, rfl, isSeparator_eq_false (.inl hfirst), ?_⟩
      rw [scanLexeme, startsNumeral, hfirst, Bool.true_or, if_pos rfl, scanNumeral,
        htake, hdrop]
  | negative hrun hprevious =>
      rename_i digits
      refine ⟨'-', digits, rfl, by decide, ?_⟩
      rw [scanLexeme, startsNumeral_minus, if_pos (isSign_of_maximalRun hrun hprevious),
        scanNumeral, hrun.takeWhile_eq.1, hrun.takeWhile_eq.2]
  | letWord hrun hlet =>
      rcases hrun.exists_cons with ⟨first, rest, rfl, hfirst, htake, hdrop⟩
      refine ⟨first, rest, rfl, isSeparator_eq_false (.inr hfirst), ?_⟩
      rw [scanLexeme_of_isAlphabetic hfirst, scanWord, htake, hdrop, Token.ofWord, if_pos hlet]
  | name hrun hname =>
      rcases hrun.exists_cons with ⟨first, rest, rfl, hfirst, htake, hdrop⟩
      refine ⟨first, rest, rfl, isSeparator_eq_false (.inr hfirst), ?_⟩
      rw [scanLexeme_of_isAlphabetic hfirst, scanWord, htake, hdrop, Token.ofWord, if_neg hname]
  | punctuation htoken hsign =>
      rename_i c
      rcases kinds_of_ofPunctuation? htoken with ⟨hc, hnumeral, -⟩
      -- A minus is the only punctuation that could begin a numeral.
      have hstarts : startsNumeral (previous.any Token.endsOperand) c following = false := by
        by_cases hminus : c = '-'
        · rw [hminus, startsNumeral_minus]
          exact hsign hminus
        · rw [startsNumeral, hnumeral, beq_eq_false_iff_ne.mpr hminus]
          rfl
      refine ⟨c, [], rfl, hc, ?_⟩
      rw [List.nil_append, scanLexeme, hstarts, htoken,
        if_neg Bool.false_ne_true]
  | unknown hc hnumeral hletter hpunctuation =>
      rename_i c
      have hminus : (c == '-') = false := by
        refine beq_eq_false_iff_ne.mpr fun heq => ?_
        rw [heq] at hpunctuation
        cases hpunctuation
      refine ⟨c, [], rfl, hc, ?_⟩
      rw [List.nil_append, scanLexeme, startsNumeral, hnumeral, hminus,
        hpunctuation, Bool.false_and, Bool.false_and, Bool.or_self, if_neg Bool.false_ne_true]
      dsimp only
      rw [if_neg (ne_true_of_eq_false hletter)]
      rfl

namespace Lexeme

variable {previous : Option Token} {following lexeme : List Char} {token : Token}

/-- A lexeme is scanned as its token, and what follows it is scanned behind that. -/
theorem tokensOf (h : Lexeme previous following lexeme token) :
    Scanner.tokensOf (previous.any Token.endsOperand) (lexeme ++ following) =
      token :: Scanner.tokensOf token.endsOperand following := by
  rcases h.exists_scanLexeme with ⟨first, rest, rfl, hfirst, hscan⟩
  have hdrop : (first :: (rest ++ following)).dropWhile isSeparator =
      first :: (rest ++ following) := List.dropWhile_cons_of_neg (ne_true_of_eq_false hfirst)
  rw [List.cons_append, Scanner.tokensOf_of_dropWhile_cons hdrop, hscan]

/-- Behind its first character a lexeme is a run of numeral or of alphabetic characters. -/
theorem exists_cons (h : Lexeme previous following lexeme token) :
    ∃ first rest, lexeme = first :: rest ∧
      ∀ c ∈ rest, isNumeralChar c = true ∨ isAlphabetic c = true := by
  have hrun {p : Char → Bool} {run : List Char} (hrun : MaximalRun p run following) :
      ∃ first rest, run = first :: rest ∧ ∀ c ∈ rest, p c = true := by
    rcases hrun.exists_cons with ⟨first, rest, rfl, -⟩
    exact ⟨first, rest, rfl, fun c hc => hrun.all c (List.mem_cons_of_mem first hc)⟩
  cases h with
  | numeral hdigits =>
      rcases hrun hdigits with ⟨first, rest, heq, hrest⟩
      exact ⟨first, rest, heq, fun c hc => .inl (hrest c hc)⟩
  | negative hdigits hprevious => exact ⟨'-', _, rfl, fun c hc => .inl (hdigits.all c hc)⟩
  | letWord hletters hlet =>
      rcases hrun hletters with ⟨first, rest, heq, hrest⟩
      exact ⟨first, rest, heq, fun c hc => .inr (hrest c hc)⟩
  | name hletters hname =>
      rcases hrun hletters with ⟨first, rest, heq, hrest⟩
      exact ⟨first, rest, heq, fun c hc => .inr (hrest c hc)⟩
  | punctuation htoken hsign => exact ⟨_, [], rfl, fun c hc => nomatch hc⟩
  | unknown hc hnumeral hword hpunctuation => exact ⟨_, [], rfl, fun c hc => nomatch hc⟩

theorem not_separator (h : Lexeme previous following lexeme token) :
    ∀ c ∈ lexeme, isSeparator c = false := by
  rcases h.exists_cons with ⟨first, rest, rfl, hrest⟩
  rcases h.exists_scanLexeme with ⟨_, _, heq, hfirst, -⟩
  rw [← (List.cons.inj heq).1] at hfirst
  exact List.forall_mem_cons.mpr ⟨hfirst, fun c hc => isSeparator_eq_false (hrest c hc)⟩

/-- A minus sign is the first character of its lexeme. -/
theorem eq_nil_of_minus {front back : List Char} (h : Lexeme previous following lexeme token)
    (heq : lexeme = front ++ '-' :: back) : front = [] := by
  rcases h.exists_cons with ⟨first, rest, rfl, hrest⟩
  cases front with
  | nil => rfl
  | cons c front =>
      rw [List.cons_append] at heq
      have hmem : '-' ∈ rest :=
        (List.cons.inj heq).2 ▸ List.mem_append_right front List.mem_cons_self
      exact absurd (hrest '-' hmem) (by decide)

/-- A lexeme that begins with a minus sign is a negative numeral where the minus sign is a
    sign, and otherwise it is the minus sign alone. -/
theorem of_minus {rest : List Char} (h : Lexeme previous following ('-' :: rest) token) :
    (isSign previous (rest ++ following) = true ∧ MaximalRun isNumeralChar rest following ∧
        token = .ofNumeral (String.ofList ('-' :: rest))) ∨
      (isSign previous (rest ++ following) = false ∧ rest = [] ∧ token = .minus) := by
  have hnone {p : Char → Bool} (hrun : MaximalRun p ('-' :: rest) following)
      (hminus : p '-' = false) : False := by
    have hall := hrun.all '-' List.mem_cons_self
    rw [hminus] at hall
    cases hall
  -- Only a negative number and punctuation begin with a minus.
  cases h with
  | numeral hrun => exact (hnone hrun (by decide)).elim
  | negative hrun hprevious =>
      exact .inl ⟨isSign_of_maximalRun hrun hprevious, hrun, rfl⟩
  | letWord hrun hlet => exact (hnone hrun (by decide)).elim
  | name hrun hname => exact (hnone hrun (by decide)).elim
  | punctuation htoken hsign => exact .inr ⟨hsign rfl, rfl, (Option.some.inj htoken).symm⟩
  | unknown hc hnumeral hword hpunctuation => cases hpunctuation

end Lexeme

namespace Scanner

variable {digits following : List Char}

/-- A maximal run of digits and points is scanned as one numeral. -/
theorem tokensOf_numeral (h : MaximalRun isNumeralChar digits following) (afterOperand : Bool) :
    tokensOf afterOperand (digits ++ following) =
      .ofNumeral (String.ofList digits) ::
        tokensOf (Token.ofNumeral (String.ofList digits)).endsOperand following := by
  cases afterOperand with
  | false =>
      have hlexeme : Lexeme none following digits _ := .numeral h
      exact hlexeme.tokensOf
  | true =>
      have hlexeme : Lexeme (some .closeParen) following digits _ := .numeral h
      exact hlexeme.tokensOf

/-- Where no operand has ended, it is scanned as one numeral with a minus sign that touches it. -/
theorem tokensOf_signedNumeral (h : MaximalRun isNumeralChar digits following) :
    tokensOf false ('-' :: (digits ++ following)) =
      .ofNumeral (String.ofList ('-' :: digits)) ::
        tokensOf (Token.ofNumeral (String.ofList ('-' :: digits))).endsOperand following := by
  have hlexeme : Lexeme none following ('-' :: digits) _ := .negative h rfl
  exact hlexeme.tokensOf

end Scanner

/-- A lexeme with the separators before it and the token it stands for. -/
structure Piece where
  gap : List Char
  lexeme : List Char
  token : Token

/-- The part of a text that a piece is. -/
def Piece.text (piece : Piece) : List Char :=
  piece.gap ++ piece.lexeme

/-- Pieces that are cut by the rules, behind the token `previous` and before the separators
    `trailing`. -/
def WellCut (previous : Option Token) (trailing : List Char) : List Piece → Prop
  | [] => ∀ c ∈ trailing, isSeparator c = true
  | piece :: rest =>
      (∀ c ∈ piece.gap, isSeparator c = true) ∧
        Lexeme previous (rest.flatMap Piece.text ++ trailing) piece.lexeme piece.token ∧
        WellCut (some piece.token) trailing rest

/-- Every text can be cut by the rules, whatever stands before it. -/
theorem exists_wellCut (previous : Option Token) (text : List Char) :
    ∃ pieces trailing, text = pieces.flatMap Piece.text ++ trailing ∧
      WellCut previous trailing pieces := by
  -- A lexeme is not empty, so the induction is on the length of the text behind it.
  induction hlength : text.length using Nat.strongRecOn generalizing previous text with
  | _ length ih =>
      cases htext : text.dropWhile isSeparator with
      | nil => exact ⟨[], text, rfl, List.dropWhile_eq_nil_iff.mp htext⟩
      | cons first rest =>
          have hfirst : isSeparator first = false := by
            have hstop := List.head?_dropWhile_not isSeparator text
            rw [htext] at hstop
            exact hstop
          have hlt := scanLexeme_length_lt htext (previous.any Token.endsOperand)
          rcases lexeme_of_scanLexeme previous rest hfirst with ⟨lexeme, hsplit, hlexeme⟩
          rcases ih _ (hlength ▸ hlt)
            (some (scanLexeme (previous.any Token.endsOperand) first rest).1) _ rfl with
            ⟨pieces, trailing, hpieces, hcut⟩
          refine ⟨⟨text.takeWhile isSeparator, lexeme, _⟩ :: pieces, trailing, ?_,
            List.all_eq_true.mp List.all_takeWhile, hpieces ▸ hlexeme, hcut⟩
          rw [List.flatMap_cons, Piece.text, List.append_assoc, List.append_assoc, ← hpieces,
            ← hsplit, ← htext, List.takeWhile_append_dropWhile]

/-- A character of two texts in a row is in the one or in the other. -/
theorem append_eq_append_cons {xs ys front back : List Char} {c : Char}
    (h : xs ++ ys = front ++ c :: back) :
    (∃ tail, xs = front ++ c :: tail ∧ back = tail ++ ys) ∨
      ∃ head, front = xs ++ head ∧ ys = head ++ c :: back := by
  rcases List.append_eq_append_iff.mp h with ⟨head, hfront, hys⟩ | ⟨tail, hxs, hback⟩
  · exact .inr ⟨head, hfront, hys⟩
  · rcases List.cons_eq_append_iff.mp hback with ⟨rfl, hys⟩ | ⟨tail, rfl, hback⟩
    · exact .inr ⟨[], by rw [hxs, List.append_nil, List.append_nil], hys⟩
    · exact .inl ⟨tail, hxs, (List.cons.inj hback).2⟩

namespace WellCut

variable {previous : Option Token} {trailing : List Char}

/-- The tokens of a text are those of its pieces. -/
theorem tokensOf {pieces : List Piece} (h : WellCut previous trailing pieces) :
    Scanner.tokensOf (previous.any Token.endsOperand)
      (pieces.flatMap Piece.text ++ trailing) = pieces.map Piece.token := by
  induction pieces generalizing previous with
  | nil => exact Scanner.tokensOf_of_dropWhile_nil (List.dropWhile_eq_nil_iff.mpr h) _
  | cons piece rest ih =>
      rcases h with ⟨hgap, hlexeme, hrest⟩
      rw [List.flatMap_cons, Piece.text, List.append_assoc, List.append_assoc,
        Scanner.tokensOf_append_of_separators hgap, hlexeme.tokensOf, List.map_cons]
      exact congrArg (piece.token :: ·) (ih hrest)

/-- Behind the pieces there are separators alone. -/
theorem forall_trailing {pieces : List Piece} (h : WellCut previous trailing pieces) :
    ∀ c ∈ trailing, isSeparator c = true := by
  induction pieces generalizing previous with
  | nil => exact h
  | cons piece rest ih => exact ih h.2.2

/-- A piece stands behind the token of the piece before it, and before the text of the pieces
    after it. -/
theorem lexeme_at {before after : List Piece} {piece : Piece}
    (h : WellCut previous trailing (before ++ piece :: after)) :
    (∀ c ∈ piece.gap, isSeparator c = true) ∧
      Lexeme ((before.getLast?.map Piece.token).or previous)
        (after.flatMap Piece.text ++ trailing) piece.lexeme piece.token := by
  induction before generalizing previous with
  | nil => exact ⟨h.1, h.2.1⟩
  | cons first before ih =>
      have hlast : ((first :: before).getLast?.map Piece.token).or previous =
          (before.getLast?.map Piece.token).or (some first.token) := by
        rw [List.getLast?_cons]
        cases before.getLast? <;> rfl
      rw [hlast]
      exact ih h.2.2

/-- A minus sign of a text is the first character of a lexeme. -/
theorem exists_minus {pieces : List Piece} (h : WellCut previous trailing pieces)
    {front back : List Char}
    (htext : pieces.flatMap Piece.text ++ trailing = front ++ '-' :: back) :
    ∃ before piece after rest, pieces = before ++ piece :: after ∧
      front = before.flatMap Piece.text ++ piece.gap ∧ piece.lexeme = '-' :: rest ∧
      back = rest ++ (after.flatMap Piece.text ++ trailing) := by
  have hnone {gap head tail : List Char} (hgap : ∀ c ∈ gap, isSeparator c = true)
      (heq : gap = head ++ '-' :: tail) : False := by
    have hmem : '-' ∈ gap := heq ▸ List.mem_append_right head List.mem_cons_self
    exact absurd (hgap '-' hmem) (by decide)
  induction pieces generalizing previous front with
  | nil => exact (hnone h htext).elim
  | cons piece rest ih =>
      rcases h with ⟨hgap, hlexeme, hrest⟩
      rw [List.flatMap_cons, Piece.text, List.append_assoc, List.append_assoc] at htext
      -- It is not in the gap, so it is in the lexeme or behind it.
      rcases append_eq_append_cons htext with ⟨tail, heq, -⟩ | ⟨inside, rfl, hinside⟩
      · exact (hnone hgap heq).elim
      · rcases append_eq_append_cons hinside with ⟨tail, heq, hback⟩ | ⟨behind, rfl, hbehind⟩
        · obtain rfl := hlexeme.eq_nil_of_minus heq
          exact ⟨[], piece, rest, tail, rfl, List.append_nil _, heq, hback⟩
        · rcases ih hrest hbehind with ⟨before, found, after, tail, rfl, rfl, hfound⟩
          refine ⟨piece :: before, found, after, tail, rfl, ?_, hfound⟩
          rw [List.flatMap_cons, Piece.text, List.append_assoc, List.append_assoc]

end WellCut

/-- A text is made of separators and of the lexemes of its tokens, and nothing is lost. Each
    lexeme is the longest that can stand where it stands, and a minus sign is the sign of a
    numeral exactly where a digit or a point follows and no operand has ended; elsewhere it
    is a token of its own. -/
theorem exists_pieces (text : String) :
    ∃ pieces trailing,
      tokenize text = pieces.map Piece.token ++ [.endOfText, .endOfText] ∧
        text.toList = pieces.flatMap Piece.text ++ trailing ∧
        (∀ c ∈ trailing, isSeparator c = true) ∧
        (∀ before piece after, pieces = before ++ piece :: after →
          (∀ c ∈ piece.gap, isSeparator c = true) ∧
            (∀ c ∈ piece.lexeme, isSeparator c = false) ∧
            Lexeme (before.getLast?.map Piece.token) (after.flatMap Piece.text ++ trailing)
              piece.lexeme piece.token) ∧
        ∀ front back, text.toList = front ++ '-' :: back →
          ∃ before piece after, pieces = before ++ piece :: after ∧
            front = before.flatMap Piece.text ++ piece.gap ∧
            if isSign (before.getLast?.map Piece.token) back then
              ∃ digits, piece.lexeme = '-' :: digits ∧
                MaximalRun isNumeralChar digits (after.flatMap Piece.text ++ trailing) ∧
                piece.token = .ofNumeral (String.ofList ('-' :: digits))
            else piece.lexeme = ['-'] ∧ piece.token = .minus := by
  rcases exists_wellCut none text.toList with ⟨pieces, trailing, htext, hcut⟩
  refine ⟨pieces, trailing, ?_, htext, hcut.forall_trailing, fun before piece after heq => ?_,
    fun front back hminus => ?_⟩
  · rw [tokenize, Scanner.ofText, htext]
    exact congrArg (· ++ [.endOfText, .endOfText]) hcut.tokensOf
  · rcases (heq ▸ hcut).lexeme_at with ⟨hgap, hlexeme⟩
    rw [Option.or_none] at hlexeme
    exact ⟨hgap, hlexeme.not_separator, hlexeme⟩
  · -- A minus is no separator, so it stands in a lexeme, and it can only be its first character.
    rcases hcut.exists_minus (htext ▸ hminus) with
      ⟨before, piece, after, digits, heq, hfront, hdigits, hback⟩
    refine ⟨before, piece, after, heq, hfront, ?_⟩
    have hlexeme := (heq ▸ hcut).lexeme_at.2
    rw [Option.or_none, hdigits] at hlexeme
    rw [hback, hdigits]
    rcases hlexeme.of_minus with ⟨hsign, hrun, htoken⟩ | ⟨hsign, rfl, htoken⟩
    · rw [if_pos hsign]
      exact ⟨digits, rfl, hrun, htoken⟩
    · rw [if_neg (ne_true_of_eq_false hsign)]
      exact ⟨rfl, htoken⟩

end Calculator
