import Calculator.Token.Scan

/-!
# Scanning by Position

The scanner as it works on its characters: it holds all of them, and knows the position of the
one it reads next.

A scanner that is given the characters left over takes the first of them before it asks how far
the token goes, so no token of it can be empty. This account asks first. It looks at a character
by its position, and at the one behind it; it moves the position on for as long as the
characters are of one kind, which may be not at all; and it cuts the text of a token out of the
input afterwards. Of what it has read it remembers the last token, all of it.

That a token moves the position, and that the tokens come to an end, is not seen from the way it
is written.

## Main definitions

* `Lexer`: The characters of a text, the position of the next one, and the last token.
* `Lexer.skipWhile`: The lexer behind the characters of one kind.
* `Lexer.scanNumeral`, `Lexer.scanWord`, `Lexer.scanAt`: One token, which starts at the position.
* `Lexer.scan`: One token, with the separators before it.
* `Lexer.next`: The next token, which is remembered.
* `Lexer.take`, `Lexer.after`: The tokens of some calls, and the lexer behind them.
* `Lexer.drain`: The tokens of a text, if so many calls come to its end.

## Theorems

* `Lexer.advance_left_lt`: A character that is taken leaves fewer.
* `Lexer.skipWhile_of_current_eq_some`, `Lexer.scan_of_current_eq_some`: The loops, one character
  at a time.
-/

namespace Calculator

/-- The characters of a text, the position of the one that is read next, and the last token. -/
structure Lexer where
  input : List Char
  position : Nat
  previous : Option Token
  deriving DecidableEq

namespace Lexer

/-- A lexer at the start of a text. -/
def ofText (text : String) : Lexer :=
  { input := text.toList, position := 0, previous := none }

/-- The character that is read next. -/
def current (l : Lexer) : Option Char :=
  l.input[l.position]?

/-- The character behind the one that is read next. -/
def lookahead (l : Lexer) : Option Char :=
  l.input[l.position + 1]?

/-- The lexer one character further. -/
def advance (l : Lexer) : Lexer :=
  { l with position := l.position + 1 }

/-- A character that is read next is not behind the end, so it leaves fewer when it is taken. -/
theorem advance_left_lt {l : Lexer} {c : Char} (h : l.current = some c) :
    l.advance.input.length - l.advance.position < l.input.length - l.position := by
  have hlt : l.position < l.input.length := (List.getElem?_eq_some_iff.mp h).1
  simp only [advance]
  omega

/-- Whether a numeral starts with the character `c`, which is read next. -/
def startsNumeral (l : Lexer) (c : Char) : Bool :=
  if isNumeralChar c then
    true
  else if c != '-' || l.previous.any Token.endsOperand then
    false
  else
    l.lookahead.any isNumeralChar

/-- The lexer behind all characters of one kind that follow each other from here. -/
def skipWhile (p : Char → Bool) (l : Lexer) : Lexer :=
  match _h : l.current with
  | none => l
  | some c => if p c then skipWhile p l.advance else l
termination_by l.input.length - l.position
decreasing_by exact advance_left_lt _h

theorem skipWhile_of_current_eq_none {p : Char → Bool} {l : Lexer} (h : l.current = none) :
    l.skipWhile p = l := by
  unfold skipWhile
  split
  · rfl
  · next h' => rw [h] at h'; cases h'

/-- A character is skipped if it is of the kind. -/
theorem skipWhile_of_current_eq_some {p : Char → Bool} {l : Lexer} {c : Char}
    (h : l.current = some c) : l.skipWhile p = if p c then l.advance.skipWhile p else l := by
  rw [skipWhile]
  split
  · next h' => rw [h] at h'; cases h'
  · next h' => rw [Option.some.inj (h.symm.trans h')]

/-- The characters from a position on to the one of the lexer. -/
def textFrom (l : Lexer) (start : Nat) : List Char :=
  (l.input.drop start).take (l.position - start)

/-- The token of a numeral, which may begin with a minus sign. -/
def scanNumeral (l : Lexer) : Token × Lexer :=
  let unsigned := if l.current = some '-' then l.advance else l
  let behind := unsigned.skipWhile isNumeralChar
  (.ofNumeral (String.ofList (behind.textFrom l.position)), behind)

/-- The token of a word. -/
def scanWord (l : Lexer) : Token × Lexer :=
  let behind := l.skipWhile isAlphabetic
  (.ofWord (behind.textFrom l.position), behind)

/-- The token that starts with the character `c`, which is read next and is no separator. A
    character that starts no token is taken all the same. -/
def scanAt (l : Lexer) (c : Char) : Token × Lexer :=
  if l.startsNumeral c then
    l.scanNumeral
  else
    match Token.ofPunctuation? c with
    | some token => (token, l.advance)
    | none =>
        if isAlphabetic c then l.scanWord
        else (.malformed (unknownCharacterMessage c), l.advance)

/-- The token behind the separators, or the mark of the end if nothing else is left. -/
def scan (l : Lexer) : Token × Lexer :=
  match _h : l.current with
  | none => (.endOfText, l)
  | some c => if isSeparator c then scan l.advance else l.scanAt c
termination_by l.input.length - l.position
decreasing_by exact advance_left_lt _h

theorem scan_of_current_eq_none {l : Lexer} (h : l.current = none) :
    l.scan = (.endOfText, l) := by
  unfold scan
  split
  · rfl
  · next h' => rw [h] at h'; cases h'

/-- A separator is passed, and with any other character a token begins. -/
theorem scan_of_current_eq_some {l : Lexer} {c : Char} (h : l.current = some c) :
    l.scan = if isSeparator c then l.advance.scan else l.scanAt c := by
  rw [scan]
  split
  · next h' => rw [h] at h'; cases h'
  · next h' => rw [Option.some.inj (h.symm.trans h')]

/-- The next token, and the lexer that remembers it. -/
def next (l : Lexer) : Token × Lexer :=
  (l.scan.1, { l.scan.2 with previous := some l.scan.1 })

/-- The tokens of the first calls. -/
def take : Nat → Lexer → List Token
  | 0, _ => []
  | count + 1, l => l.next.1 :: take count l.next.2

/-- The lexer behind the first calls. -/
def after : Nat → Lexer → Lexer
  | 0, l => l
  | count + 1, l => after count l.next.2

/-- The tokens of the calls before the one that yields the mark of the end, or nothing if none of
    so many calls yields it. -/
def drain : Nat → Lexer → Option (List Token)
  | 0, _ => none
  | count + 1, l =>
      if l.next.1.isEnd then some []
      else (drain count l.next.2).map (l.next.1 :: ·)

end Lexer

end Calculator
