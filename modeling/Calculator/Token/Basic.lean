import Calculator.Decimal.Shortest

/-!
# Tokens

The words of the calculator's language.

A malformed piece of text is a token too, which carries its own message. Scanning
therefore never fails: the complaint is made when evaluation reaches the token,
after the statements before it have taken effect.

## Main definitions

* `Token`: A number, a name, the word for assignment, a sign, the end of the text,
  or a malformed piece.
* `Token.text`: A token as messages write it.
* `Token.ofPunctuation?`: The token that a single character is.
* `Token.endsOperand`: Whether an operand can end with a token.
* `Token.same`: Equality, numerical on numbers.

## Theorems

* `text_ofPunctuation`: A punctuation token is written as its character.
-/

namespace Calculator

/-- A word of the calculator's language. -/
inductive Token where
  | number (value : Binary64)
  | name (word : String)
  | letWord
  | equals
  | plus
  | minus
  | times
  | over
  | openParen
  | closeParen
  | endOfText
  | malformed (message : String)
  deriving DecidableEq

namespace Token

/-- A token as messages write it. -/
def text : Token → String
  | .number value => value.text
  | .name word => word
  | .letWord => "let"
  | .equals => "="
  | .plus => "+"
  | .minus => "-"
  | .times => "*"
  | .over => "/"
  | .openParen => "("
  | .closeParen => ")"
  | .endOfText => "EOF"
  | .malformed message => message

/-- The token that a single punctuation character is. -/
def ofPunctuation? : Char → Option Token
  | '=' => some .equals
  | '+' => some .plus
  | '-' => some .minus
  | '*' => some .times
  | '/' => some .over
  | '(' => some .openParen
  | ')' => some .closeParen
  | _ => none

/-- A punctuation token is written as its character. -/
theorem text_ofPunctuation {c : Char} {t : Token} (h : ofPunctuation? c = some t) :
    t.text = String.singleton c := by
  unfold ofPunctuation? at h
  split at h
  case h_8 => exact nomatch h
  all_goals
    rw [← Option.some.inj h]
    decide

/-- Whether an operand can end with a token. A minus sign after such a token
    subtracts; after any other it may be the sign of a numeral. -/
def endsOperand : Token → Bool
  | .number _ => true
  | .name _ => true
  | .closeParen => true
  | _ => false

/-- Whether a token marks the end of the text. -/
def isEnd : Token → Bool
  | .endOfText => true
  | _ => false

/-- A token is the end of the text exactly when it says so. -/
theorem isEnd_iff {t : Token} : t.isEnd = true ↔ t = .endOfText := by
  cases t <;> simp only [isEnd, reduceCtorEq, Bool.false_eq_true]

/-- Equality of tokens, in which numbers are compared as numbers. -/
def same : Token → Token → Bool
  | .number x, .number y => x.same y
  | s, t => s == t

end Token

end Calculator
