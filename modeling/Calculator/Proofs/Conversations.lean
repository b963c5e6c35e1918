import Calculator.CommandLine.Program
import Calculator.Proofs.Evaluators
import Calculator.Proofs.Lines
import Calculator.Proofs.ShortestText

/-!
# Conversations in Pieces

What a conversation prints, from the lines of its input.

A line that does not ask to leave is evaluated, whether the lines before it have failed or
not, and all that it hands on is the store. So a conversation is cut behind any whole lines:
what is printed for them comes first, and the rest is a conversation of its own, which starts
with the store that they leave. That store is the one of an evaluator that evaluates the lines
one after another, without a conversation around it.

There are two ways to the end. A line that asks to leave ends the conversation where it
stands, so that nothing behind it is read and no farewell is said. Otherwise the input ends,
and the farewell is said once, behind the results. A text that is still to be continued then
is no line, and is not evaluated. No result looks like the farewell, which is why it can be
counted in what is printed.

Nothing here depends on what the reader of the lines erases. Where whole lines end, and what
is still to be continued, is told by what the reader has left of the text, so everything is
stated for any reader and for inputs with any backspaces.

## Main definitions

* `Session.answers`: The answers to texts one after another.
* `printed`: What the results of answers print.
* `LineReader.conversation`: What an input prints when it is read with a store.
* `LineReader.enteredTexts`: The lines of an input as they are evaluated.
* `LineReader.Unfinished`: A text that is still to be continued on each of its lines.
* `Output.farewells`: How often the farewell is printed.

## Theorems

* `converse_append`: Lines that do not ask to leave come before the others.
* `converse_of_quit`: Nothing is printed from the first line on that asks to leave.
* `converse_eq_of_store`: A conversation depends on the store it starts with only.
* `LineReader.logicalLines_unfinished`: An unfinished text has no lines.
* `farewells_printed`: Results do not look like the farewell.
* `runProgram_wholeLines`: A conversation behind whole lines.
-/

namespace Calculator

/-- The answers to texts that are evaluated one after another. -/
def Session.answers (s : Session) : List String → List Answer
  | [] => []
  | text :: rest => s.eval text :: (s.eval text).session.answers rest

/-- What the results of answers print. -/
def printed : List Answer → Output
  | [] => .none
  | answer :: rest => resultOutput answer.result ++ printed rest

namespace LineReader

variable (reader : LineReader)

/-- The lines of an input. -/
def enteredLines (input : String) : List String :=
  (reader.logicalLines input.toList).map String.ofList

/-- The lines of an input as they are evaluated. -/
def enteredTexts (input : String) : List String :=
  (reader.enteredLines input).map tidyLine

/-- What an input prints when it is read with a store. -/
def conversation (store : Store) (input : String) : Output :=
  converse { Session.new with store } (reader.enteredLines input)

/-- Whether no physical line completes what is gathered. -/
def staysOpen (gathered : List Char) : List (List Char) → Bool
  | [] => true
  | physical :: rest =>
      match reader.gather gathered physical with
      | .continued text => staysOpen text rest
      | .complete _ => false

/-- A text that is still to be continued on each of its lines. -/
def Unfinished (text : List Char) : Prop :=
  reader.staysOpen [] (physicalLines text) = true

instance (text : List Char) : Decidable (reader.Unfinished text) :=
  inferInstanceAs (Decidable (_ = true))

end LineReader

variable {reader : LineReader}

/-- What is printed before any line is read. -/
def opening : Output :=
  { stdout := banner, stderr := "" }

/-- What is printed when the input ends. -/
def closing : Output :=
  { stdout := farewell, stderr := "" }

/-- A line that does not ask to leave is evaluated. -/
theorem respond_of_stays {line : String} (h : asksToQuit (tidyLine line) = false)
    (s : Session) :
    respond s line =
      some ((s.eval (tidyLine line)).session, resultOutput (s.eval (tidyLine line)).result) := by
  rw [respond, if_neg (ne_true_of_eq_false h)]

/-- Lines that do not ask to leave come before the others: their results are printed, and the
    others are read in the session behind them. -/
theorem converse_append {front : List String}
    (h : ∀ line ∈ front, asksToQuit (tidyLine line) = false) (s : Session)
    (back : List String) :
    converse s (front ++ back) =
      printed (s.answers (front.map tidyLine)) ++
        converse (s.afterAll ((front.map tidyLine).map .eval)) back := by
  induction front generalizing s with
  | nil => exact (Output.none_append _).symm
  | cons line rest ih =>
      rw [List.forall_mem_cons] at h
      rw [List.cons_append, converse, respond_of_stays h.1]
      dsimp only
      rw [ih h.2, ← Output.append_assoc]
      rfl

/-- Nothing is printed from the first line on that asks to leave. -/
theorem converse_of_quit {lines : List String}
    (h : ∃ line ∈ lines, asksToQuit (tidyLine line) = true) (s : Session)
    (back : List String) :
    converse s (lines ++ back) =
      printed (s.answers ((lines.map tidyLine).takeWhile fun text => !asksToQuit text)) := by
  rw [List.takeWhile_map]
  have hsplit := List.takeWhile_append_dropWhile
    (p := (fun text => !asksToQuit text) ∘ tidyLine) (l := lines)
  have hstays : ∀ line ∈ lines.takeWhile ((fun text => !asksToQuit text) ∘ tidyLine),
      asksToQuit (tidyLine line) = false := fun line hline => by
    simpa only [Function.comp_apply, Bool.not_eq_true'] using
      List.all_eq_true.mp List.all_takeWhile line hline
  cases hrest : lines.dropWhile ((fun text => !asksToQuit text) ∘ tidyLine) with
  | nil =>
      -- The line that asks to leave is among those before it.
      rcases h with ⟨line, hline, hquit⟩
      rw [hrest, List.append_nil] at hsplit
      rw [hsplit] at hstays
      rw [hstays line hline] at hquit
      cases hquit
  | cons line rest =>
      have hquit : asksToQuit (tidyLine line) = true := by
        have hhead := List.head?_dropWhile_not
          (p := (fun text => !asksToQuit text) ∘ tidyLine) (l := lines)
        rw [hrest] at hhead
        simpa only [List.head?_cons, Function.comp_apply, Bool.not_eq_false'] using hhead
      rw [hrest] at hsplit
      conv => lhs; rw [← hsplit, List.append_assoc, List.cons_append]
      rw [converse_append hstays, converse_quit hquit, Output.append_none]

/-- A conversation depends on the store it starts with only. -/
theorem converse_eq_of_store {s s' : Session} (h : s.store = s'.store) (lines : List String) :
    converse s lines = converse s' lines := by
  cases lines with
  | nil => rfl
  | cons line rest =>
      have heval (text : String) : s.eval text = s'.eval text := by
        rw [Session.eval, Session.eval, Session.load, Session.load, h]
      rw [converse, converse, respond, respond, heval]

namespace LineReader

theorem enteredLines_append {front : String} (h : reader.WholeLines front.toList)
    (back : String) :
    reader.enteredLines (front ++ back) =
      reader.enteredLines front ++ reader.enteredLines back := by
  rw [enteredLines, String.toList_append, logicalLines_append h, List.map_append]
  rfl

/-- Physical lines that complete nothing have no lines. -/
theorem logicalLinesFrom_of_staysOpen {gathered : List Char} {lines : List (List Char)}
    (h : reader.staysOpen gathered lines = true) :
    reader.logicalLinesFrom gathered lines = [] := by
  induction lines generalizing gathered with
  | nil => rfl
  | cons physical rest ih =>
      rw [staysOpen] at h
      cases hgather : reader.gather gathered physical with
      | continued text =>
          rw [hgather] at h
          rw [logicalLinesFrom_of_continued hgather]
          exact ih h
      | complete line =>
          rw [hgather] at h
          cases h

/-- An unfinished text has no lines. -/
theorem logicalLines_unfinished {text : List Char} (h : reader.Unfinished text) :
    reader.logicalLines text = [] :=
  logicalLinesFrom_of_staysOpen h

end LineReader

/-- How often the farewell is printed. -/
def Output.farewells (output : Output) : Nat :=
  (physicalLines output.stdout.toList).count farewell.toList

/-- The results that are printed end behind a line feed. -/
def Output.IsWhole (output : Output) : Prop :=
  output.stdout.toList = [] ∨ output.stdout.toList.getLast? = some '\n'

theorem Output.farewells_append {x : Output} (h : x.IsWhole) (y : Output) :
    (x ++ y).farewells = x.farewells + y.farewells := by
  have hstdout : (x ++ y).stdout.toList = x.stdout.toList ++ y.stdout.toList :=
    String.toList_append
  rw [farewells, hstdout, physicalLines_append h, List.count_append]
  rfl

theorem Output.IsWhole.append {x y : Output} (hx : x.IsWhole) (hy : y.IsWhole) :
    (x ++ y).IsWhole := by
  have hstdout : (x ++ y).stdout.toList = x.stdout.toList ++ y.stdout.toList :=
    String.toList_append
  rw [IsWhole, hstdout]
  rcases hy with hnil | hlast
  · rw [hnil, List.append_nil]
    exact hx
  · refine .inr ?_
    rw [List.getLast?_append, hlast]
    rfl

/-- A number is printed with digits, a sign, a point and the letters of the numbers that have
    no digits. -/
theorem Binary64.mem_resultText {value : Binary64} {c : Char} (h : c ∈ value.resultText.toList) :
    c.isDigit = true ∨ c ∈ ['-', '.', 'i', 'n', 'f', 'N', 'a'] := by
  have hdigits (n : Nat) (hc : c ∈ Nat.toDigits 10 n) : c.isDigit = true :=
    List.all_eq_true.mp (Decimal.isDigit_toDigits n) c hc
  have hsign (negative : Bool) (hc : c ∈ Decimal.signText negative) : c = '-' := by
    cases negative with
    | false => exact absurd hc List.not_mem_nil
    | true => exact List.mem_singleton.mp hc
  cases value with
  | finite negative units _ =>
      rw [resultText, String.toList_ofList] at h
      by_cases hwhole : (isWhole units && units < 2 ^ 63 * unitsPerOne) = true
      · rw [if_pos hwhole, wholeText, List.mem_append] at h
        rcases h with hc | hc
        · rw [hsign _ hc]
          exact .inr List.mem_cons_self
        · exact .inl (hdigits _ hc)
      · rw [if_neg hwhole, sixPlaces, List.mem_append, List.mem_append, List.mem_cons] at h
        rcases h with (hc | hc) | rfl | hc
        · rw [hsign _ hc]
          exact .inr List.mem_cons_self
        · exact .inl (hdigits _ hc)
        · exact .inr (List.mem_cons_of_mem _ List.mem_cons_self)
        · exact .inl (List.all_eq_true.mp (Decimal.isDigit_fractionDigits 6 _) c hc)
  | infinite negative =>
      have hletters : (infinityText negative).toList ⊆ ['-', '.', 'i', 'n', 'f', 'N', 'a'] := by
        cases negative <;> decide
      exact .inr (hletters h)
  | nan =>
      have hletters : nanText.toList ⊆ ['-', '.', 'i', 'n', 'f', 'N', 'a'] := by decide
      exact .inr (hletters h)

/-- A result is a line of its own, or nothing, and does not look like the farewell. -/
theorem farewells_resultOutput (result : Except EvalError (Option Binary64)) :
    (resultOutput result).IsWhole ∧ (resultOutput result).farewells = 0 := by
  match result with
  | .error e => exact ⟨.inl rfl, rfl⟩
  | .ok none => exact ⟨.inl rfl, rfl⟩
  | .ok (some value) =>
      have hnone {c : Char} (hdigit : c.isDigit = false)
          (hc : c ∉ ['-', '.', 'i', 'n', 'f', 'N', 'a']) : c ∉ value.resultText.toList := by
        intro hmem
        rcases Binary64.mem_resultText hmem with h | h
        · rw [hdigit] at h
          cases h
        · exact hc h
      have hstdout : (resultOutput (.ok (some value))).stdout.toList =
          value.resultText.toList ++ ['\n'] := String.toList_append
      refine ⟨.inr ?_, ?_⟩
      · rw [hstdout, List.getLast?_concat]
      · rw [Output.farewells, hstdout, physicalLines_line (hnone (by decide) (by decide)) [],
          List.count_eq_zero]
        intro hmem
        have hline : farewell.toList = value.resultText.toList ++ ['\n'] :=
          List.mem_singleton.mp hmem
        have hq : 'q' ∈ value.resultText.toList ++ ['\n'] := hline ▸ List.mem_cons_self
        rw [List.mem_append, List.mem_singleton] at hq
        exact hnone (by decide) (by decide) (hq.resolve_right (by decide))

/-- The results that are printed do not look like the farewell. -/
theorem farewells_printed (answers : List Answer) :
    (printed answers).IsWhole ∧ (printed answers).farewells = 0 := by
  induction answers with
  | nil => exact ⟨.inl rfl, rfl⟩
  | cons answer rest ih =>
      rcases farewells_resultOutput answer.result with ⟨hwhole, hnone⟩
      refine ⟨hwhole.append ih.1, ?_⟩
      rw [printed, Output.farewells_append hwhole, hnone, ih.2]

/-- The farewell is not printed when a line asks to leave, and once when the input ends. -/
theorem farewells_of_printed (answers : List Answer) :
    (opening ++ printed answers).farewells = 0 ∧
      (opening ++ (printed answers ++ closing)).farewells = 1 := by
  have hopening : opening.IsWhole ∧ opening.farewells = 0 :=
    ⟨.inr (by decide +kernel), by decide +kernel⟩
  have hclosing : closing.farewells = 1 := by decide +kernel
  rcases farewells_printed answers with ⟨hwhole, hnone⟩
  rw [Output.farewells_append hopening.1, Output.farewells_append hopening.1,
    Output.farewells_append hwhole, hopening.2, hnone, hclosing]
  exact ⟨rfl, rfl⟩

/-- A conversation without a line that asks to leave. -/
theorem converse_enteredLines {input : String}
    (h : ∀ text ∈ reader.enteredTexts input, asksToQuit text = false) :
    converse .new (reader.enteredLines input) =
      printed (Session.new.answers (reader.enteredTexts input)) ++ closing := by
  have hstays : ∀ line ∈ reader.enteredLines input, asksToQuit (tidyLine line) = false :=
    fun line hline => h _ (List.mem_map_of_mem hline)
  have hall := converse_append hstays .new []
  rw [List.append_nil] at hall
  exact hall

/-- A conversation behind whole lines. An evaluator evaluates the lines one after another in
    no fault. If no line asks to leave, their results are printed, and the input behind them
    is a conversation that starts with the store of the evaluator. If a line asks to leave, the
    results of the lines before it are printed, and neither the input behind the lines nor a
    farewell. An unfinished text behind the lines is not evaluated. Any input without a line that
    asks to leave prints its results and one farewell, and the exit code is zero for every
    input. -/
theorem runProgram_wholeLines {front : String} (hfront : reader.WholeLines front.toList) :
    (∃ e, Evaluator.new.afterAll ((reader.enteredTexts front).map .eval) = .ok e ∧
      ((∀ text ∈ reader.enteredTexts front, asksToQuit text = false) → ∀ back,
        (reader.runProgram [] (front ++ back)).output =
          opening ++
            (printed (Session.new.answers (reader.enteredTexts front)) ++
              reader.conversation e.store back))) ∧
      ((∃ text ∈ reader.enteredTexts front, asksToQuit text = true) → ∀ back,
        (reader.runProgram [] (front ++ back)).output =
            opening ++
              printed (Session.new.answers
                ((reader.enteredTexts front).takeWhile fun text => !asksToQuit text)) ∧
          (reader.runProgram [] (front ++ back)).output.farewells = 0) ∧
      (∀ back, reader.Unfinished back.toList →
        reader.enteredTexts (front ++ back) = reader.enteredTexts front) ∧
      ∀ input,
        (reader.runProgram [] input).exitCode = 0 ∧
          ((∀ text ∈ reader.enteredTexts input, asksToQuit text = false) →
            (reader.runProgram [] input).output =
                opening ++
                  (printed (Session.new.answers (reader.enteredTexts input)) ++ closing) ∧
              (reader.runProgram [] input).output.farewells = 1) := by
  have houtput (input : String) :
      (reader.runProgram [] input).output =
        opening ++ converse .new (reader.enteredLines input) := rfl
  refine ⟨?_, fun hquit back => ?_, fun back hback => ?_,
    fun input => ⟨rfl, fun hstays => ?_⟩⟩
  · rcases Evaluator.new_sound.afterAll ((reader.enteredTexts front).map .eval) with
      ⟨e, hafter, -, hsession⟩
    refine ⟨e, hafter, fun hstays back => ?_⟩
    have hlines : ∀ line ∈ reader.enteredLines front, asksToQuit (tidyLine line) = false :=
      fun line hline => hstays _ (List.mem_map_of_mem hline)
    have hstore : (Session.new.afterAll ((reader.enteredTexts front).map .eval)).store =
        e.store := congrArg Session.store hsession.symm
    rw [houtput, LineReader.enteredLines_append hfront, converse_append hlines]
    exact congrArg (opening ++ ·) (congrArg (printed _ ++ ·)
      (converse_eq_of_store hstore (reader.enteredLines back)))
  · have hlines : ∃ line ∈ reader.enteredLines front, asksToQuit (tidyLine line) = true := by
      rcases hquit with ⟨text, htext, hleave⟩
      rcases List.mem_map.mp htext with ⟨line, hline, rfl⟩
      exact ⟨line, hline, hleave⟩
    rw [houtput, LineReader.enteredLines_append hfront, converse_of_quit hlines]
    exact ⟨rfl, (farewells_of_printed _).1⟩
  · have hnone : reader.enteredLines back = [] := by
      rw [LineReader.enteredLines, LineReader.logicalLines_unfinished hback]
      rfl
    rw [LineReader.enteredTexts, LineReader.enteredLines_append hfront, hnone, List.append_nil]
    rfl
  · rw [houtput, converse_enteredLines hstays]
    exact ⟨rfl, (farewells_of_printed _).2⟩

/-- A line that is corrected by a backspace, one that fails, and a text that is to be continued
    at the end. -/
theorem runProgram_wholeLines_sample :
    LineReader.byCharacter.WholeLines "a = 12\x083\n1 / 0\n".toList ∧
      LineReader.byCharacter.Unfinished "a \\".toList ∧
      (LineReader.byCharacter.runProgram [] ("a = 12\x083\n1 / 0\n" ++ "a \\")).output =
        { stdout := banner ++ "13\nquit\n"
          stderr := "error: Attempted division by zero: 1/0\n" } := by
  have hfront : LineReader.byCharacter.WholeLines "a = 12\x083\n1 / 0\n".toList := by
    decide +kernel
  have hback : LineReader.byCharacter.Unfinished "a \\".toList := by decide +kernel
  rcases runProgram_wholeLines hfront with ⟨-, -, hunfinished, hinput⟩
  have htexts := hunfinished _ hback
  have hstays : ∀ text ∈ LineReader.byCharacter.enteredTexts "a = 12\x083\n1 / 0\n",
      asksToQuit text = false := by decide +kernel
  rw [← htexts] at hstays
  refine ⟨hfront, hback, ((hinput _).2 hstays).1.trans ?_⟩
  rw [htexts]
  decide +kernel

end Calculator
