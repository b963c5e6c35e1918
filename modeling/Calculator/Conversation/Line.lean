import Calculator.Text.Blank

/-!
# Lines

What the calculator takes as one line of input.

A line that ends with a backslash is continued by the next one. The text that has
been gathered then keeps its line ends, and only when it is complete each backslash
before a line feed becomes a space. Whether a line is continued is decided without
its line end, which is a line feed with or without a carriage return before it.

The lines are read by a reader for inputs that are no terminals. It is not part of the
calculator, and this is what is assumed of it. It adds one physical line at a time to what
is gathered, takes off the line end behind the whole, and then lets each backspace erase
what stands before it, line ends that were gathered earlier included. If the text that is
left is to be continued, the line end is put back as it was. If the input ends, what is
gathered is dropped. How much one backspace erases is up to the reader: `LineReader` asks
only that a text without backspaces is left as it is. `LineReader.byCharacter` is the reader
that erases one character.

An input is a text here. One that is not, because its bytes are no UTF-8, is not read any
further: the calculator logs an error and leaves with its farewell, as it does at the end of
the input.

## Main definitions

* `physicalLines`: The lines of an input, each with its line end.
* `LineReader`: A reader of lines, up to what it erases.
* `LineReader.gather`: What one more physical line makes of the text gathered so far.
* `LineReader.logicalLines`: The complete lines of an input.
* `tidyLine`: A complete line as it is evaluated.
* `asksToQuit`: Whether a line asks to leave.

## Theorems

* `flatten_physicalLines`: The physical lines are the whole input.
* `withoutLineEnd_append_lineEnd`: A text is what is left of it and its line end.
* `eraseCharacters_of_notMem`: Nothing is erased without a backspace.
-/

namespace Calculator

/-- The lines of an input, each with the line feed that ends it. The last one may lack
    it. -/
def physicalLines : List Char → List (List Char)
  | [] => []
  | c :: rest =>
      if c = '\n' then
        [c] :: physicalLines rest
      else
        match physicalLines rest with
        | [] => [[c]]
        | line :: lines => (c :: line) :: lines

/-- The physical lines are the whole input. -/
theorem flatten_physicalLines (text : List Char) : (physicalLines text).flatten = text := by
  induction text with
  | nil => rfl
  | cons c rest ih =>
      unfold physicalLines
      split
      · -- A line feed is a line of its own until something stands before it.
        rw [List.flatten_cons, ih]
        rfl
      · -- Any other character joins the line behind it, or begins the last one.
        split
        · next h =>
            rw [h] at ih
            rw [← ih]
            rfl
        · next h =>
            rw [h] at ih
            rw [← ih]
            rfl

/-- A text without the line end behind it, if it has one. -/
def withoutLineEnd (text : List Char) : List Char :=
  match text.reverse with
  | '\n' :: '\r' :: rest => rest.reverse
  | '\n' :: rest => rest.reverse
  | _ => text

/-- The line end behind a text, if it has one. -/
def lineEnd (text : List Char) : List Char :=
  match text.reverse with
  | '\n' :: '\r' :: _ => ['\r', '\n']
  | '\n' :: _ => ['\n']
  | _ => []

theorem withoutLineEnd_append_lineEnd (text : List Char) :
    withoutLineEnd text ++ lineEnd text = text := by
  rw [withoutLineEnd, lineEnd]
  split
  · next rest heq =>
      rw [← List.reverse_reverse text, heq, List.reverse_cons, List.reverse_cons,
        List.append_assoc, List.singleton_append]
  · next rest heq =>
      rw [← List.reverse_reverse text, heq, List.reverse_cons]
  · exact List.append_nil text

/-- The character that erases what stands before it. -/
def backspace : Char :=
  '\x08'

/-- A reader of lines, up to what it erases. -/
structure LineReader where
  /-- What is left of a text when its backspaces have erased what stands before them. -/
  erase : List Char → List Char
  /-- Nothing is erased without a backspace. -/
  erase_of_notMem : ∀ {text : List Char}, backspace ∉ text → erase text = text

/-- What is left of a text when each backspace has erased the character before it. -/
def eraseCharacters (text : List Char) : List Char :=
  (text.foldl (fun kept c => if c = backspace then kept.tail else c :: kept) []).reverse

/-- Nothing is erased without a backspace. -/
theorem eraseCharacters_of_notMem {text : List Char} (h : backspace ∉ text) :
    eraseCharacters text = text := by
  have hkept (kept : List Char) :
      text.foldl (fun kept c => if c = backspace then kept.tail else c :: kept) kept =
        text.reverse ++ kept := by
    induction text generalizing kept with
    | nil => rfl
    | cons c rest ih =>
        rw [List.mem_cons, not_or] at h
        rw [List.foldl_cons, if_neg (Ne.symm h.1), ih h.2, List.reverse_cons, List.append_assoc]
        rfl
  rw [eraseCharacters, hkept, List.append_nil, List.reverse_reverse]

/-- The reader whose backspaces erase one character. -/
def LineReader.byCharacter : LineReader where
  erase := eraseCharacters
  erase_of_notMem := eraseCharacters_of_notMem

/-- What a physical line makes of the text gathered before it. -/
inductive Gathered where
  /-- The text is to be continued by the next line. -/
  | continued (text : List Char)
  /-- The text is a line. -/
  | complete (line : List Char)
  deriving DecidableEq

namespace LineReader

variable (reader : LineReader)

/-- What one more physical line makes of the text gathered so far. -/
def gather (gathered physical : List Char) : Gathered :=
  let text := gathered ++ physical
  let line := reader.erase (withoutLineEnd text)
  if line.getLast? = some '\\' then .continued (line ++ lineEnd text) else .complete line

/-- The complete lines that begin with a gathered text and go on with some physical
    lines. A text that is still to be continued at the end of the input is dropped. -/
def logicalLinesFrom (gathered : List Char) : List (List Char) → List (List Char)
  | [] => []
  | physical :: rest =>
      match reader.gather gathered physical with
      | .continued text => logicalLinesFrom text rest
      | .complete line => line :: logicalLinesFrom [] rest

/-- The complete lines of an input. -/
def logicalLines (input : List Char) : List (List Char) :=
  reader.logicalLinesFrom [] (physicalLines input)

end LineReader

/-- A text in which each backslash before a line feed is, together with it, a space. -/
def joinContinued : List Char → List Char
  | '\\' :: '\n' :: rest => ' ' :: joinContinued rest
  | c :: rest => c :: joinContinued rest
  | [] => []

/-- A complete line as it is evaluated: continued lines are joined, and blanks at the
    ends are dropped. -/
def tidyLine (line : String) : String :=
  String.ofList (trimBlank (joinContinued line.toList))

/-- Whether a line asks to leave. Only the beginning of the line counts. -/
def asksToQuit (line : String) : Bool :=
  "exit".toList.isPrefixOf line.toList || "quit".toList.isPrefixOf line.toList

end Calculator
