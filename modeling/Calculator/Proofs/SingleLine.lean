import Calculator.CommandLine.Program
import Calculator.Proofs.Lines
import Calculator.Proofs.UnknownCharacters

/-!
# A Single Line

A text on the command line and the same text as the only line of a conversation.

On the command line a text is evaluated as it stands. In a conversation the blanks at its
ends are dropped before, and there are more of them than there are separators. Blanks that
are separators make no difference, since no token is lost with them, so the two evaluations
have the same tokens and the same result. What is printed then differs only in the wording:
a value stands between the banner and the farewell, and a failure is announced in lower
case.

A blank at an end that is no separator does make a difference. The conversation does not see
it, but the command line has an unknown character in its text, and always fails.

The text has no backspace, so that every reader takes it as it is.

## Main definitions

* `outerBlanks`: The blanks that are dropped from the ends of a text.

## Theorems

* `tokensOf_trimBlank`: Separators at the ends of a text have no tokens.
* `eval_ne_none`: A text with a token has a value or fails.
* `runProgram_singleLine`: The command line and a conversation agree on a single line.
-/

namespace Calculator

variable {reader : LineReader}

/-- The blanks in front of a text. -/
def leadingBlanks (text : List Char) : List Char :=
  text.takeWhile isBlank

/-- The blanks behind a text that is not blank altogether. -/
def trailingBlanks (text : List Char) : List Char :=
  ((text.dropWhile isBlank).reverse.takeWhile isBlank).reverse

/-- The blanks that are dropped from the two ends of a text. -/
def outerBlanks (text : List Char) : List Char :=
  leadingBlanks text ++ trailingBlanks text

/-- A text is what is left of it without its outer blanks, and those. -/
theorem eq_append_trimBlank (text : List Char) :
    text = leadingBlanks text ++ (trimBlank text ++ trailingBlanks text) := by
  rw [leadingBlanks, trailingBlanks, trimBlank, ← List.reverse_append,
    List.takeWhile_append_dropWhile, List.reverse_reverse, List.takeWhile_append_dropWhile]

/-- The outer blanks of a text are characters of it, and blank. -/
theorem of_mem_outerBlanks {text : List Char} {c : Char} (h : c ∈ outerBlanks text) :
    c ∈ text ∧ isBlank c = true := by
  refine ⟨?_, ?_⟩
  · rw [eq_append_trimBlank text]
    rcases List.mem_append.mp h with hleading | htrailing
    · exact List.mem_append_left _ hleading
    · exact List.mem_append_right _ (List.mem_append_right _ htrailing)
  · rcases List.mem_append.mp h with hleading | htrailing
    · exact List.all_eq_true.mp List.all_takeWhile c hleading
    · exact List.all_eq_true.mp List.all_takeWhile c (List.mem_reverse.mp htrailing)

/-- Separators at the ends of a text have no tokens. -/
theorem tokensOf_trimBlank {text : List Char}
    (h : ∀ c ∈ outerBlanks text, isSeparator c = true) (afterOperand : Bool) :
    Scanner.tokensOf afterOperand (trimBlank text) = Scanner.tokensOf afterOperand text := by
  rw [outerBlanks, List.forall_mem_append] at h
  conv_rhs => rw [eq_append_trimBlank text]
  rw [Scanner.tokensOf_append_of_separators h.1, Scanner.tokensOf_append_separators h.2]

/-- A text with a token has a value or fails. -/
theorem eval_ne_none (s : Session) {text : String} (h : (Scanner.ofText text).tokens ≠ []) :
    (s.eval text).result ≠ .ok none := by
  have hmark := Scanner.endOfText_notMem_tokensOf false text.toList
  have hresult : (s.eval text).result = (evaluateFrom (.ofStore s.store) none
      ((Scanner.ofText text).tokens ++ [.endOfText, .endOfText])).result := rfl
  have htokens : (Scanner.ofText text).tokens = Scanner.tokensOf false text.toList := rfl
  rw [hresult]
  rw [← htokens] at hmark
  cases hscan : (Scanner.ofText text).tokens with
  | nil => exact absurd hscan h
  | cons token rest =>
      have hend : token.isEnd = false := by
        refine eq_false_of_ne_true fun hend => hmark ?_
        rw [hscan, Token.isEnd_iff.mp hend]
        exact List.mem_cons_self
      -- The first statement fails or has a value, and it takes more to have none at the end.
      rw [List.cons_append]
      cases hfirst : (evaluateStatement (.ofStore s.store)
          (token :: (rest ++ [.endOfText, .endOfText]))).result with
      | error e =>
          rw [evaluateFrom_of_error hend hfirst]
          exact fun h => by cases h
      | ok value =>
          rw [evaluateFrom_of_ok hend hfirst]
          exact evaluateFrom_some_ne_none _ value _

/-- A single word behind the mark of the end of options is evaluated as it stands. -/
theorem runProgram_single (text input : String) :
    reader.runProgram ["--", text] input =
      Completion.ofResult (Session.new.eval text).result := by
  rw [LineReader.runProgram, readOptions_endOfOptions, LineReader.answerRequest,
    evaluateOnce_quiet, String.intercalate_singleton]

/-- How a conversation of one line ends if the line has a result. -/
def Completion.conversed (line : String) : Completion :=
  .success (banner ++ line ++ "\n" ++ farewell)

/-- How a conversation of one line ends if the line fails. -/
def Completion.complained (message : String) : Completion :=
  { exitCode := 0
    output := { stdout := banner ++ farewell, stderr := "error: " ++ message ++ "\n" } }

/-- A conversation of one line that does not ask to leave answers that line and ends. -/
theorem transcript_of_singleLine {input line : String}
    (hline : reader.logicalLines input.toList = [line.toList])
    (hquit : asksToQuit (tidyLine line) = false) :
    reader.transcript input =
      { stdout := banner, stderr := "" } ++
        (resultOutput (Session.new.eval (tidyLine line)).result ++
          { stdout := farewell, stderr := "" }) := by
  have hrespond : respond .new line =
      some ((Session.new.eval (tidyLine line)).session,
        resultOutput (Session.new.eval (tidyLine line)).result) := by
    rw [respond, hquit]
    rfl
  rw [LineReader.transcript, hline, List.map_singleton, String.ofList_toList, converse,
    hrespond]
  rfl

/-- A text and its tidied line have the same tokens, if the blanks at its ends are
    separators. -/
theorem tokenize_tidyLine {text : String} (hline : '\n' ∉ text.toList)
    (h : ∀ c ∈ outerBlanks text.toList, isSeparator c = true) :
    tokenize (tidyLine text) = tokenize text := by
  have htoList : (tidyLine text).toList = trimBlank text.toList := by
    rw [tidyLine, String.toList_ofList, joinContinued_of_notMem hline]
  have htokens := tokensOf_trimBlank h false
  rw [← htoList] at htokens
  exact congrArg (· ++ [Token.endOfText, Token.endOfText]) htokens

/-- The end of a conversation of one line that has a result or fails. -/
theorem runProgram_of_singleLine {input line : String}
    (hline : reader.logicalLines input.toList = [line.toList])
    (hquit : asksToQuit (tidyLine line) = false) :
    (∀ value, (Session.new.eval (tidyLine line)).result = .ok (some value) →
        reader.runProgram [] input = .conversed value.resultText) ∧
      ∀ e, (Session.new.eval (tidyLine line)).result = .error e →
        reader.runProgram [] input = .complained e.message := by
  have hprogram : reader.runProgram [] input =
      { exitCode := 0, output := reader.transcript input } := rfl
  -- What is left differs from the completion in how the texts are put together only.
  rw [hprogram, transcript_of_singleLine hline hquit]
  refine ⟨fun value hvalue => ?_, fun e he => ?_⟩
  · have hout : banner ++ (value.resultText ++ "\n" ++ farewell) =
        banner ++ value.resultText ++ "\n" ++ farewell := by
      simp only [String.append_assoc]
    rw [hvalue]
    exact congrArg (Completion.mk 0) (congrArg₂ Output.mk hout rfl)
  · have hout : banner ++ ("" ++ farewell) = banner ++ farewell :=
      congrArg (banner ++ ·) String.empty_append
    have herr : "" ++ ("error: " ++ e.message ++ "\n" ++ "") = "error: " ++ e.message ++ "\n" :=
      String.empty_append.trans String.append_empty
    rw [he]
    exact congrArg (Completion.mk 0) (congrArg₂ Output.mk hout herr)

theorem Completion.success_inj {x y : String} :
    success (x ++ "\n") = success (y ++ "\n") ↔ x = y := by
  rw [success, success, mk.injEq, Output.mk.injEq, String.append_left_inj]
  simp only [true_and, and_true]

theorem Completion.failure_inj {x y : String} : failure x = failure y ↔ x = y := by
  rw [failure, failure, mk.injEq, Output.mk.injEq, String.append_left_inj,
    String.append_right_inj]
  simp only [true_and]

theorem Completion.conversed_inj {x y : String} : conversed x = conversed y ↔ x = y := by
  rw [conversed, conversed, success, success, mk.injEq, Output.mk.injEq,
    String.append_left_inj, String.append_left_inj, String.append_right_inj]
  simp only [true_and, and_true]

theorem Completion.complained_inj {x y : String} : complained x = complained y ↔ x = y := by
  rw [complained, complained, mk.injEq, Output.mk.injEq, String.append_left_inj "\n",
    String.append_right_inj "error: "]
  simp only [true_and]

theorem Completion.success_ne_failure (x y : String) : success x ≠ failure y := by
  rw [success, failure, Ne, mk.injEq]
  exact fun h => absurd h.1 (by decide)

theorem Completion.conversed_ne_complained (x y : String) : conversed x ≠ complained y := by
  rw [conversed, complained, success, Ne, mk.injEq, Output.mk.injEq]
  rintro ⟨-, -, h⟩
  have hempty := String.append_eq_empty_iff.mp h.symm
  exact absurd hempty.2 (by decide)

/-- A text on the command line and the text as the only line of a conversation. If the blanks
    at its ends are separators, then the one call prints a line exactly if the conversation
    prints it between its banner and its farewell, the one call fails with a message exactly
    if the conversation complains with it, and one of the two happens. If a blank at an end is
    no separator, the one call fails. -/
theorem runProgram_singleLine (reader : LineReader) {text : String} (hline : '\n' ∉ text.toList)
    (hback : backspace ∉ text.toList) (hends : EndsLine text.toList)
    (hquit : asksToQuit (tidyLine text) = false)
    (htokens : (Scanner.ofText (tidyLine text)).tokens ≠ []) (input : String) {talk : String}
    (htalk : talk = text ∨ talk = text ++ "\n") :
    ((∀ c ∈ outerBlanks text.toList, isSeparator c = true) →
        (∀ line, reader.runProgram ["--", text] input = .success (line ++ "\n") ↔
            reader.runProgram [] talk = .conversed line) ∧
          (∀ message, reader.runProgram ["--", text] input = .failure message ↔
            reader.runProgram [] talk = .complained message) ∧
          ((∃ line, reader.runProgram ["--", text] input = .success (line ++ "\n")) ∨
            ∃ message, reader.runProgram ["--", text] input = .failure message)) ∧
      ((∃ c ∈ outerBlanks text.toList, isSeparator c = false) →
        ∃ message, reader.runProgram ["--", text] input = .failure message) := by
  rw [runProgram_single]
  refine ⟨fun hseparators => ?_, fun hblank => ?_⟩
  · have hsame := tokenize_tidyLine hline hseparators
    have hresult : (Session.new.eval (tidyLine text)).result = (Session.new.eval text).result :=
      congrArg (fun tokens => (evaluate Store.constants tokens).result) hsame
    have hlogical : reader.logicalLines talk.toList = [text.toList] := by
      rcases htalk with rfl | rfl
      · -- Without a character there would be no token.
        refine LineReader.logicalLines_last hline hback hends fun hnil => htokens ?_
        rw [Scanner.ofText, tidyLine, hnil, String.toList_ofList]
        exact Scanner.tokensOf_nil false
      · rw [String.toList_append]
        exact LineReader.logicalLines_line hline hback hends []
    rcases runProgram_of_singleLine hlogical hquit with ⟨hvalued, hfailed⟩
    rw [hresult] at hvalued hfailed
    match hcase : (Session.new.eval text).result with
    | .ok (some value) =>
        rw [hvalued value hcase]
        refine ⟨fun line => ?_, fun message => ?_, .inl ⟨_, rfl⟩⟩
        · exact Completion.success_inj.trans Completion.conversed_inj.symm
        · exact iff_of_false (Completion.success_ne_failure _ _)
            (Completion.conversed_ne_complained _ _)
    | .ok none => exact absurd (hresult.trans hcase) (eval_ne_none Session.new htokens)
    | .error e =>
        rw [hfailed e hcase]
        refine ⟨fun line => ?_, fun message => ?_, .inr ⟨_, rfl⟩⟩
        · exact iff_of_false (Completion.success_ne_failure _ _).symm
            (Completion.conversed_ne_complained _ _).symm
        · exact Completion.failure_inj.trans Completion.complained_inj.symm
  · -- The blank is an unknown character of the text.
    rcases hblank with ⟨c, hmem, hseparator⟩
    rcases of_mem_outerBlanks hmem with ⟨htext, hc⟩
    rcases (isUnknown_of_isBlank hc hseparator).eval_failed Session.new htext with ⟨e, he⟩
    rw [he]
    exact ⟨e.message, rfl⟩

/-- Separators at both ends of a line. -/
theorem runProgram_singleLine_sample :
    '\n' ∉ "\t7 / 2; ".toList ∧ backspace ∉ "\t7 / 2; ".toList ∧
      EndsLine "\t7 / 2; ".toList ∧ asksToQuit (tidyLine "\t7 / 2; ") = false ∧
      (Scanner.ofText (tidyLine "\t7 / 2; ")).tokens ≠ [] ∧
      (∀ c ∈ outerBlanks "\t7 / 2; ".toList, isSeparator c = true) ∧
      LineReader.byCharacter.runProgram ["--", "\t7 / 2; "] "" =
        .success ("3.500000" ++ "\n") ∧
      LineReader.byCharacter.runProgram [] ("\t7 / 2; " ++ "\n") = .conversed "3.500000" := by
  have hline : '\n' ∉ "\t7 / 2; ".toList := by decide +kernel
  have hback : backspace ∉ "\t7 / 2; ".toList := by decide +kernel
  have hends : EndsLine "\t7 / 2; ".toList := ⟨by decide +kernel, by decide +kernel⟩
  have hquit : asksToQuit (tidyLine "\t7 / 2; ") = false := by decide +kernel
  have htokens : (Scanner.ofText (tidyLine "\t7 / 2; ")).tokens ≠ [] := by decide +kernel
  have hseparators : ∀ c ∈ outerBlanks "\t7 / 2; ".toList, isSeparator c = true :=
    List.all_eq_true.mp (by decide +kernel)
  have honce : LineReader.byCharacter.runProgram ["--", "\t7 / 2; "] "" =
      .success ("3.500000" ++ "\n") := by decide +kernel
  have hagree := runProgram_singleLine LineReader.byCharacter hline hback hends hquit htokens ""
    (.inr rfl)
  exact ⟨hline, hback, hends, hquit, htokens, hseparators, honce,
    ((hagree.1 hseparators).1 "3.500000").mp honce⟩

/-- Without the condition on the blanks the two differ: a no-break space is dropped in the
    conversation and unknown on the command line. -/
theorem not_runProgram_singleLine_blank :
    ¬ ∀ text : String, '\n' ∉ text.toList → '\r' ∉ text.toList → backspace ∉ text.toList →
      text.toList.getLast? ≠ some '\\' → asksToQuit (tidyLine text) = false →
      (Scanner.ofText (tidyLine text)).tokens ≠ [] →
      ∀ line, runProgram ["--", text] "" = .success (line ++ "\n") ↔
        runProgram [] (text ++ "\n") = .conversed line := by
  intro h
  have hagree := h "\u00a01" (by decide +kernel) (by decide +kernel) (by decide +kernel)
    (by decide +kernel) (by decide +kernel) (by decide +kernel) "1"
  have htalk : runProgram [] ("\u00a01" ++ "\n") = .conversed "1" := by decide +kernel
  have honce : runProgram ["--", "\u00a01"] "" ≠ .success ("1" ++ "\n") := by decide +kernel
  exact honce (hagree.mpr htalk)

end Calculator
