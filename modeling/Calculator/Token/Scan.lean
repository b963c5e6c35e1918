import Calculator.Decimal.Numeral
import Calculator.Text.Alphabetic
import Calculator.Token.Basic

/-!
# Scanning

How text is cut into tokens.

Scanning looks at the first character that separates nothing and takes the longest
piece that can start there: a run of digits and points is a numeral, a run of
alphabetic characters is a word, a punctuation character is a token of its own,
and anything else is malformed.

A minus sign directly before a digit or a point belongs to the numeral, but only
where a subtraction is impossible, which is to say when the token before it does
not end an operand. That one bit is all the scanner remembers of what it has read,
and it outlives the separators in between.

## Main definitions

* `isSeparator`: The characters that separate tokens and are otherwise ignored.
* `Token.ofNumeral`, `Token.ofWord`: The tokens of a numeral and of a word.
* `scanLexeme`: The token at the start of a text without leading separators.
* `Scanner`: The text still to be read and whether an operand has just ended.
* `Scanner.next`: The next token; the end of the text is repeated for ever.
* `Scanner.tokens`: The tokens of the remaining text.
* `tokenize`: The tokens of a text, followed by two marks of its end.

## Theorems

* `scanLexeme_length_lt`: Every token takes at least one character.
* `next_of_dropWhile_nil`, `next_of_dropWhile_cons`: The next token of a text, where only
  separators are left and elsewhere.
* `tokens_of_dropWhile_nil`, `tokens_of_dropWhile_cons`: The tokens of a text are the
  next token and those after it, until only separators are left.
-/

namespace Calculator

/-- The characters that separate tokens: blanks, line ends and the semicolon. -/
def isSeparator (c : Char) : Bool :=
  c == ' ' || c == '\t' || c == '\r' || c == '\n' || c == ';'

/-- The characters of an unsigned numeral. -/
def isNumeralChar (c : Char) : Bool :=
  c.isDigit || c == '.'

/-- The complaint about a character that starts no token. -/
def unknownCharacterMessage (c : Char) : String :=
  "unknown character " ++ String.singleton c

namespace Token

/-- The token of a numeral: its number, or the complaint about it. -/
def ofNumeral (text : String) : Token :=
  match Binary64.ofNumeral text with
  | .ok value => .number value
  | .error e => .malformed e.message

/-- The token of a word. The word for assignment is recognised in any case. -/
def ofWord (word : List Char) : Token :=
  if word.map Char.toLower = ['l', 'e', 't'] then .letWord else .name (String.ofList word)

end Token

/-- The token of a signed or unsigned numeral that starts with `first`, and the text
    after it. -/
def scanNumeral (first : Char) (rest : List Char) : Token × List Char :=
  (Token.ofNumeral (String.ofList (first :: rest.takeWhile isNumeralChar)),
    rest.dropWhile isNumeralChar)

/-- The token of a word that starts with `first`, and the text after it. -/
def scanWord (first : Char) (rest : List Char) : Token × List Char :=
  (Token.ofWord (first :: rest.takeWhile isAlphabetic), rest.dropWhile isAlphabetic)

/-- Whether a numeral starts here. A minus sign starts one before a digit or a point,
    unless an operand has just ended. -/
def startsNumeral (afterOperand : Bool) (first : Char) (rest : List Char) : Bool :=
  isNumeralChar first ||
    (first == '-' && !afterOperand && (rest.head?.any isNumeralChar))

/-- The token that starts with the character `first`, which is no separator, and the
    text after the token. -/
def scanLexeme (afterOperand : Bool) (first : Char) (rest : List Char) :
    Token × List Char :=
  if startsNumeral afterOperand first rest then
    scanNumeral first rest
  else
    match Token.ofPunctuation? first with
    | some token => (token, rest)
    | none =>
        if isAlphabetic first then scanWord first rest
        else (.malformed (unknownCharacterMessage first), rest)

theorem length_dropWhile_le (p : Char → Bool) (text : List Char) :
    (text.dropWhile p).length ≤ text.length :=
  (List.dropWhile_suffix p).length_le

/-- A token takes its first character and no character twice. -/
theorem scanLexeme_length_le (afterOperand : Bool) (first : Char) (rest : List Char) :
    (scanLexeme afterOperand first rest).2.length ≤ rest.length := by
  unfold scanLexeme
  split
  · exact length_dropWhile_le _ _
  split
  · exact Nat.le_refl _
  split
  · exact length_dropWhile_le _ _
  · exact Nat.le_refl _

/-- What is left after a token is shorter than the text with the separators before
    the token. -/
theorem scanLexeme_length_lt {text rest : List Char} {first : Char}
    (h : text.dropWhile isSeparator = first :: rest) (afterOperand : Bool) :
    (scanLexeme afterOperand first rest).2.length < text.length := by
  have hle := scanLexeme_length_le afterOperand first rest
  have hdrop := length_dropWhile_le isSeparator text
  rw [h, List.length_cons] at hdrop
  omega

/-- The text still to be read, and whether an operand has just ended. -/
structure Scanner where
  afterOperand : Bool
  rest : List Char
  deriving DecidableEq

namespace Scanner

/-- A scanner at the start of a text. -/
def ofText (text : String) : Scanner :=
  { afterOperand := false, rest := text.toList }

/-- The next token, and the scanner after it. At the end of the text the answer is
    the mark of the end, however often it is asked for. -/
def next (s : Scanner) : Token × Scanner :=
  match s.rest.dropWhile isSeparator with
  | [] => (.endOfText, { afterOperand := false, rest := [] })
  | first :: rest =>
      let found := scanLexeme s.afterOperand first rest
      (found.1, { afterOperand := found.1.endsOperand, rest := found.2 })

/-- The tokens of the remaining text, up to its end. -/
def tokens (s : Scanner) : List Token :=
  match h : s.rest.dropWhile isSeparator with
  | [] => []
  | first :: rest =>
      let found := scanLexeme s.afterOperand first rest
      have : found.2.length < s.rest.length := scanLexeme_length_lt h s.afterOperand
      found.1 :: tokens { afterOperand := found.1.endsOperand, rest := found.2 }
termination_by s.rest.length
decreasing_by exact this

/-- A text of separators alone has no tokens. -/
theorem tokens_of_dropWhile_nil {s : Scanner} (h : s.rest.dropWhile isSeparator = []) :
    s.tokens = [] := by
  unfold tokens
  split
  · rfl
  · next h' =>
      rw [h] at h'
      exact nomatch h'

/-- Where only separators are left the next token is the mark of the end. -/
theorem next_of_dropWhile_nil {s : Scanner} (h : s.rest.dropWhile isSeparator = []) :
    s.next = (.endOfText, { afterOperand := false, rest := [] }) := by
  rw [next, h]

/-- Behind the separators the next token is what starts with the first character. -/
theorem next_of_dropWhile_cons {s : Scanner} {first : Char} {rest : List Char}
    (h : s.rest.dropWhile isSeparator = first :: rest) :
    s.next =
      ((scanLexeme s.afterOperand first rest).1,
        { afterOperand := (scanLexeme s.afterOperand first rest).1.endsOperand
          rest := (scanLexeme s.afterOperand first rest).2 }) := by
  rw [next, h]

/-- The tokens of a text with anything but separators are the next token and the tokens
    after it. -/
theorem tokens_of_dropWhile_cons {s : Scanner} {first : Char} {rest : List Char}
    (h : s.rest.dropWhile isSeparator = first :: rest) :
    s.tokens = s.next.1 :: s.next.2.tokens := by
  rw [next_of_dropWhile_cons h, tokens]
  split
  · next h' =>
      rw [h] at h'
      exact nomatch h'
  · next h' =>
      rw [h] at h'
      cases h'
      rfl

/-- The first tokens that a scanner yields, with the end of the text repeated as
    often as they ask for it. -/
def take : Nat → Scanner → List Token
  | 0, _ => []
  | count + 1, s => s.next.1 :: take count s.next.2

end Scanner

/-- The tokens of a text, followed by two marks of its end. The second mark is there
    to be looked at when the first is the next token. -/
def tokenize (text : String) : List Token :=
  (Scanner.ofText text).tokens ++ [.endOfText, .endOfText]

end Calculator
