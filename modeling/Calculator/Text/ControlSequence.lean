/-!
# Control Sequences of a Terminal

What can be read of a text that also steers a terminal.

A terminal takes an escape character and some characters behind it as an order, such
as the one to write in red. Where a text is quoted in a message such orders are left
out, and so is every control character, but for those that only lay a text out.

An order has one of a few forms, told apart by the character behind the escape:

* a bracket `[` opens a control sequence: parameters, then a final letter;
* a bracket `]` opens a command, which ends at a bell;
* `P` opens a device control: parameters, then a string;
* `X`, `^` and `_` open a string at once;
* any other character is the whole order, or its end after some intermediates.

A string goes on until it is cancelled or the next escape begins. A character beyond
ASCII ends it too if the string terminator is one of the bytes it is encoded with,
since a terminal takes that byte for the end.

A layout control inside an order that opens no string and no command is not lost: it
is shown, and with it the run of text up to the next control. Only then does the order
go on.

## Main definitions

* `isShown`: Whether a character belongs to the text and not to an order.
* `SequencePhase`: How much of an order has been read.
* `SequencePhase.next`, `SequencePhase.shows`: What a character does to an order, and
  whether it is seen.
* `readable`, `withoutControlSequences`: What can be read of a text.
-/

namespace Calculator

/-- Whether a control character lays a text out: tab, line feed, form feed and
    carriage return. -/
def isLayout (c : Char) : Bool :=
  c = '\t' || c = '\n' || c = '\x0C' || c = '\r'

/-- Whether a character belongs to the text: it lays the text out, or it is no
    control of ASCII. -/
def isShown (c : Char) : Bool :=
  isLayout c || (0x20 ≤ c.toNat && c.toNat != 0x7F)

/-- Whether a character beyond ASCII ends a string, because the string terminator is
    among its bytes. -/
def endsString (c : Char) : Bool :=
  (String.utf8EncodeChar c).contains 0x9C

/-- How much of an order to a terminal has been read. -/
inductive SequencePhase where
  /-- No order is open. -/
  | text
  /-- The escape character. -/
  | escape
  /-- The escape character and intermediates. -/
  | intermediates
  /-- The beginning of a control sequence, whose final letter is to come. -/
  | controlSequence
  /-- The opening of a device control. -/
  | deviceControl
  /-- A device control up to some of its parameters. -/
  | deviceParameters
  /-- A device control up to some of its intermediates. -/
  | deviceIntermediates
  /-- The beginning of a string. -/
  | string
  /-- The beginning of a command. -/
  | command
  deriving DecidableEq, Repr

namespace SequencePhase

/-- An order after one more character that is neither a control nor beyond ASCII.
    Intermediates lie below the digits, parameters from there up to below `@`, and
    everything above is final. -/
def nextPrintable (phase : SequencePhase) (c : Char) : SequencePhase :=
  match phase with
  | .text => .text
  | .escape =>
      if c < '0' then .intermediates
      else if c = '[' then .controlSequence
      else if c = ']' then .command
      else if c = 'P' then .deviceControl
      else if c = 'X' || c = '^' || c = '_' then .string
      else .text
  | .intermediates => if c < '0' then .intermediates else .text
  | .controlSequence => if c < '@' then .controlSequence else .text
  | .deviceControl =>
      if c < '0' then .deviceIntermediates
      else if c < '@' then .deviceParameters
      else .string
  | .deviceParameters =>
      if c < '0' then .deviceIntermediates
      -- A private parameter counts only where it comes first.
      else if c < '<' then .deviceParameters
      else .string
  | .deviceIntermediates => if c < '0' then .deviceIntermediates else .string
  | .string => .string
  | .command => .command

/-- An order after one more character. An escape begins another one in any phase, and
    the two cancelling controls end it. -/
def next (phase : SequencePhase) (c : Char) : SequencePhase :=
  if c = '\x1B' then .escape
  else if c = '\x18' || c = '\x1A' then .text
  else if c.toNat < 0x20 || c.toNat = 0x7F then
    if phase = .command && c = '\x07' then .text else phase
  else if c.toNat < 0x80 then phase.nextPrintable c
  else if phase = .string && endsString c then .text
  else phase

/-- Whether a character is seen although it is read as part of an order. Outside of
    an order the whole text is; inside, a layout control is, unless it could be part
    of a string. -/
def shows (phase : SequencePhase) (c : Char) : Bool :=
  match phase with
  | .text => isShown c
  | .escape | .intermediates | .controlSequence => isLayout c
  | _ => false

end SequencePhase

/-- What can be read of a text, given the order that is open, and whether a run of
    text has interrupted it. A character beyond ASCII within that run closes the
    order; any other leaves it open behind the run. -/
def readableFrom (phase : SequencePhase) (interrupted : Bool) : List Char → List Char
  | [] => []
  | c :: rest =>
      if interrupted && isShown c then
        c :: readableFrom (if c.toNat < 0x80 then phase else .text) true rest
      else if phase.shows c then c :: readableFrom (phase.next c) true rest
      else readableFrom (phase.next c) false rest

/-- What can be read of a text. -/
def readable (text : List Char) : List Char :=
  readableFrom .text false text

/-- A text without the control sequences that are in it. -/
def withoutControlSequences (text : String) : String :=
  String.ofList (readable text.toList)

end Calculator
