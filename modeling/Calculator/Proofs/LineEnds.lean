import Calculator.CommandLine.Program
import Calculator.Proofs.Lines
import Calculator.Proofs.UnknownCharacters

/-!
# Line Ends

An input with a carriage return before each of its line feeds.

The line end is taken off a line with its carriage return, so the same lines are complete
either way, and a line that is not continued is the same line. A continued one is not. It
keeps its line ends until it is tidied, and a backslash is joined with a line feed that
stands directly behind it. With a carriage return between them it stays where it is, an
unknown character, and the line fails. Conversations without continued lines are therefore
the same with either line end, and others are not. Every reader agrees on this for an input
without backspaces.

## Main definitions

* `withCarriageReturns`: A text with a carriage return before each line feed.

## Theorems

* `LineReader.logicalLines_withCarriageReturns`: The complete lines are the same up to their
  line ends.
* `respond_withCarriageReturns`: A continued line with carriage returns fails or asks to
  leave.
* `runProgram_withCarriageReturns`: Carriage returns change nothing but continued lines.
-/

namespace Calculator

/-- A text with a carriage return before each line feed. -/
def withCarriageReturns (text : List Char) : List Char :=
  text.flatMap fun c => if c = '\n' then ['\r', '\n'] else [c]

/-- The same for what a physical line makes of a gathered text. -/
def Gathered.withCarriageReturns : Gathered → Gathered
  | .continued text => .continued (Calculator.withCarriageReturns text)
  | .complete line => .complete (Calculator.withCarriageReturns line)

variable {reader : LineReader} {text : List Char}

theorem withCarriageReturns_lineFeed (rest : List Char) :
    withCarriageReturns ('\n' :: rest) = '\r' :: '\n' :: withCarriageReturns rest :=
  rfl

theorem withCarriageReturns_cons {c : Char} (h : c ≠ '\n') (rest : List Char) :
    withCarriageReturns (c :: rest) = c :: withCarriageReturns rest := by
  rw [withCarriageReturns, List.flatMap_cons, if_neg h]
  rfl

theorem withCarriageReturns_append (front back : List Char) :
    withCarriageReturns (front ++ back) =
      withCarriageReturns front ++ withCarriageReturns back :=
  List.flatMap_append

theorem withCarriageReturns_of_notMem (h : '\n' ∉ text) : withCarriageReturns text = text := by
  induction text with
  | nil => rfl
  | cons c rest ih =>
      rw [List.mem_cons, not_or] at h
      rw [withCarriageReturns_cons (Ne.symm h.1), ih h.2]

theorem mem_withCarriageReturns {c : Char} (h : c ∈ text) (hc : c ≠ '\n') :
    c ∈ withCarriageReturns text := by
  refine List.mem_flatMap.mpr ⟨c, h, ?_⟩
  rw [if_neg hc]
  exact List.mem_singleton_self c

/-- The last character is the same. -/
theorem getLast?_withCarriageReturns (text : List Char) :
    (withCarriageReturns text).getLast? = text.getLast? := by
  rcases List.eq_nil_or_concat text with rfl | ⟨front, c, rfl⟩
  · rfl
  · rw [List.concat_eq_append, withCarriageReturns_append, List.getLast?_append,
      List.getLast?_append]
    by_cases hc : c = '\n'
    · rw [hc]
      rfl
    · rw [withCarriageReturns_cons hc]
      rfl

/-- No line feed is joined with a backslash. -/
theorem joinContinued_withCarriageReturns (text : List Char) :
    joinContinued (withCarriageReturns text) = withCarriageReturns text := by
  induction text with
  | nil => rfl
  | cons c rest ih =>
      -- Only a carriage return or another character stands at the front of the rest.
      have hhead : (withCarriageReturns rest).head? ≠ some '\n' := by
        cases rest with
        | nil => exact nofun
        | cons d rest =>
            by_cases hd : d = '\n'
            · rw [hd, withCarriageReturns_lineFeed]
              exact fun h => absurd (Option.some.inj h) (by decide)
            · rw [withCarriageReturns_cons hd]
              exact fun h => hd (Option.some.inj h)
      by_cases hc : c = '\n'
      · rw [hc, withCarriageReturns_lineFeed, joinContinued_cons (fun h => absurd h (by decide)),
          joinContinued_cons (fun h => absurd h (by decide)), ih]
      · rw [withCarriageReturns_cons hc, joinContinued_cons (fun _ => hhead), ih]

/-- The physical lines are the same up to their line ends. -/
theorem physicalLines_withCarriageReturns (input : List Char) :
    physicalLines (withCarriageReturns input) =
      (physicalLines input).map withCarriageReturns := by
  induction input with
  | nil => rfl
  | cons c rest ih =>
      -- Only a line feed is translated, and it ends its line with or without what is put before.
      by_cases hc : c = '\n'
      · have hreturn : ¬ '\r' = '\n' := by decide
        rw [hc, withCarriageReturns_lineFeed, physicalLines, if_neg hreturn, physicalLines,
          if_pos rfl, physicalLines, if_pos rfl, ih]
        rfl
      · rw [withCarriageReturns_cons hc, physicalLines, if_neg hc, physicalLines, if_neg hc, ih]
        cases physicalLines rest with
        | nil =>
            rw [List.map_nil, List.map_singleton, withCarriageReturns_cons hc]
            rfl
        | cons line lines =>
            rw [List.map_cons, List.map_cons, withCarriageReturns_cons hc]

/-- The line end is taken off with its carriage return. -/
theorem withoutLineEnd_withCarriageReturns (h : '\r' ∉ text) :
    withoutLineEnd (withCarriageReturns text) = withCarriageReturns (withoutLineEnd text) := by
  rcases withoutLineEnd_cases text with ⟨hnone, hlast⟩ | hfeed | hreturn
  · rw [← getLast?_withCarriageReturns] at hlast
    rw [hnone, withoutLineEnd_of_getLast? hlast]
  · have hreturns : withCarriageReturns text =
        withCarriageReturns (withoutLineEnd text) ++ ['\r', '\n'] :=
      (congrArg withCarriageReturns hfeed).trans (withCarriageReturns_append _ _)
    rw [hreturns, withoutLineEnd_append_return]
  · rw [hreturn] at h
    exact absurd (List.mem_append_right _ List.mem_cons_self) h

theorem backspace_notMem_withCarriageReturns (h : backspace ∉ text) :
    backspace ∉ withCarriageReturns text := by
  intro hmem
  rcases List.mem_flatMap.mp hmem with ⟨c, hc, hback⟩
  split at hback
  · exact absurd hback (by decide)
  · rw [List.mem_singleton.mp hback] at h
    exact h hc

namespace LineReader

/-- The same lines are complete. -/
theorem gather_withCarriageReturns {gathered physical : List Char}
    (h : '\r' ∉ gathered ++ physical) (hback : backspace ∉ gathered ++ physical) :
    reader.gather (Calculator.withCarriageReturns gathered)
        (Calculator.withCarriageReturns physical) =
      (reader.gather gathered physical).withCarriageReturns := by
  have hkept := backspace_notMem_withCarriageReturns hback
  rw [withCarriageReturns_append] at hkept
  rw [gather_of_notMem hback, gather_of_notMem hkept, ← withCarriageReturns_append,
    withoutLineEnd_withCarriageReturns h, getLast?_withCarriageReturns]
  split <;> rfl

/-- Complete lines that begin with a gathered text are the same up to their line ends. -/
theorem logicalLinesFrom_withCarriageReturns {gathered : List Char} {lines : List (List Char)}
    (hgathered : '\r' ∉ gathered ∧ backspace ∉ gathered)
    (hlines : ∀ physical ∈ lines, '\r' ∉ physical ∧ backspace ∉ physical) :
    reader.logicalLinesFrom (Calculator.withCarriageReturns gathered)
        (lines.map Calculator.withCarriageReturns) =
      (reader.logicalLinesFrom gathered lines).map Calculator.withCarriageReturns := by
  induction lines generalizing gathered with
  | nil => rfl
  | cons physical rest ih =>
      rw [List.forall_mem_cons] at hlines
      have hreturn : '\r' ∉ gathered ++ physical := by
        rw [List.mem_append, not_or]
        exact ⟨hgathered.1, hlines.1.1⟩
      have hback : backspace ∉ gathered ++ physical := by
        rw [List.mem_append, not_or]
        exact ⟨hgathered.2, hlines.1.2⟩
      rw [List.map_cons, logicalLinesFrom, logicalLinesFrom,
        gather_withCarriageReturns hreturn hback]
      cases hgather : reader.gather gathered physical with
      | continued text =>
          -- What is gathered is the text before it, so it has no carriage return either.
          rw [← (of_gather_continued hback hgather).1] at hreturn hback
          exact ih ⟨hreturn, hback⟩ hlines.2
      | complete line =>
          have hrest := ih ⟨List.not_mem_nil, List.not_mem_nil⟩ hlines.2
          exact congrArg (Calculator.withCarriageReturns line :: ·) hrest

/-- The complete lines are the same up to their line ends. -/
theorem logicalLines_withCarriageReturns {input : List Char} (h : '\r' ∉ input)
    (hback : backspace ∉ input) :
    reader.logicalLines (Calculator.withCarriageReturns input) =
      (reader.logicalLines input).map Calculator.withCarriageReturns := by
  have hlines {c : Char} (hc : c ∉ input) (physical : List Char)
      (hmem : physical ∈ physicalLines input) : c ∉ physical := by
    rw [← flatten_physicalLines input] at hc
    exact fun hin => hc (List.mem_flatten_of_mem hmem hin)
  rw [logicalLines, physicalLines_withCarriageReturns]
  exact logicalLinesFrom_withCarriageReturns ⟨List.not_mem_nil, List.not_mem_nil⟩
    fun physical hmem => ⟨hlines h physical hmem, hlines hback physical hmem⟩

end LineReader

/-- A continued line with carriage returns fails, if it does not ask to leave. -/
theorem respond_withCarriageReturns {line : List Char} (h : '\\' ∈ line) (session : Session) :
    respond session (String.ofList (withCarriageReturns line)) = none ∨
      ∃ session' e, respond session (String.ofList (withCarriageReturns line)) =
        some (session', resultOutput (.error e)) := by
  have htidied : (tidyLine (String.ofList (withCarriageReturns line))).toList =
      trimBlank (withCarriageReturns line) := by
    rw [tidyLine, String.toList_ofList, String.toList_ofList,
      joinContinued_withCarriageReturns]
  -- The backslash is neither joined with a line feed nor dropped.
  have hbackslash : '\\' ∈ (tidyLine (String.ofList (withCarriageReturns line))).toList := by
    rw [htidied]
    exact mem_trimBlank (mem_withCarriageReturns h (by decide)) (by decide)
  rcases isUnknown_backslash.eval_failed session hbackslash with ⟨e, he⟩
  rw [respond]
  dsimp only
  split
  · exact .inl rfl
  · rw [he]
    exact .inr ⟨_, e, rfl⟩

/-- A carriage return before each line feed of an input changes nothing but the continued
    lines. Its complete lines are the same up to their line ends, so one that is not continued
    is the same line, and if none is continued the whole output is the same. A continued line
    keeps its backslashes, so it fails or asks to leave. -/
theorem runProgram_withCarriageReturns (reader : LineReader) {input : String}
    (h : '\r' ∉ input.toList) (hback : backspace ∉ input.toList) :
    reader.logicalLines (withCarriageReturns input.toList) =
        (reader.logicalLines input.toList).map withCarriageReturns ∧
      (∀ line ∈ reader.logicalLines input.toList,
        ('\n' ∉ line → withCarriageReturns line = line) ∧
          ('\n' ∈ line → ∀ session : Session,
            respond session (String.ofList (withCarriageReturns line)) = none ∨
              ∃ session' e, respond session (String.ofList (withCarriageReturns line)) =
                some (session', resultOutput (.error e)))) ∧
      ((∀ line ∈ reader.logicalLines input.toList, '\n' ∉ line) →
        reader.runProgram [] (String.ofList (withCarriageReturns input.toList)) =
          reader.runProgram [] input) := by
  have hlines := reader.logicalLines_withCarriageReturns h hback
  refine ⟨hlines, fun line hmem => ⟨withCarriageReturns_of_notMem, fun hfeed => ?_⟩,
    fun hnone => ?_⟩
  · exact respond_withCarriageReturns
      (LineReader.backslash_mem_of_mem_logicalLines hback hmem hfeed)
  · have hsame : (reader.logicalLines input.toList).map withCarriageReturns =
        reader.logicalLines input.toList := by
      have hlines (line : List Char) (hmem : line ∈ reader.logicalLines input.toList) :
          withCarriageReturns line = id line := withCarriageReturns_of_notMem (hnone line hmem)
      rw [List.map_congr_left hlines, List.map_id]
    have htranscript : reader.transcript (String.ofList (withCarriageReturns input.toList)) =
        reader.transcript input := by
      rw [LineReader.transcript, LineReader.transcript, String.toList_ofList, hlines, hsame]
    exact congrArg (Completion.mk 0) htranscript

/-- An input without continued lines, one of which fails. -/
theorem runProgram_withCarriageReturns_sample :
    '\r' ∉ "x = 2\n\nx / 0\nx \\ 4".toList ∧ backspace ∉ "x = 2\n\nx / 0\nx \\ 4".toList ∧
      (∀ line ∈ LineReader.byCharacter.logicalLines "x = 2\n\nx / 0\nx \\ 4".toList,
        '\n' ∉ line) ∧
      LineReader.byCharacter.runProgram []
          (String.ofList (withCarriageReturns "x = 2\n\nx / 0\nx \\ 4".toList)) =
        LineReader.byCharacter.runProgram [] "x = 2\n\nx / 0\nx \\ 4" := by
  have hreturn : '\r' ∉ "x = 2\n\nx / 0\nx \\ 4".toList := by decide +kernel
  have hback : backspace ∉ "x = 2\n\nx / 0\nx \\ 4".toList := by decide +kernel
  have hnone : ∀ line ∈ LineReader.byCharacter.logicalLines "x = 2\n\nx / 0\nx \\ 4".toList,
      '\n' ∉ line := by decide +kernel
  exact ⟨hreturn, hback, hnone,
    (runProgram_withCarriageReturns LineReader.byCharacter hreturn hback).2.2 hnone⟩

/-- A continued line tells the line ends apart: `1 +` continued by `2` is a sum, and with
    carriage returns it fails. -/
theorem not_runProgram_withCarriageReturns_continued :
    ¬ ∀ input : String, '\r' ∉ input.toList → backspace ∉ input.toList →
      runProgram [] (String.ofList (withCarriageReturns input.toList)) =
        runProgram [] input := by
  intro h
  have hsame := h "1 + \\\n2\n" (by decide +kernel) (by decide +kernel)
  have hdifferent :
      runProgram [] (String.ofList (withCarriageReturns "1 + \\\n2\n".toList)) ≠
        runProgram [] "1 + \\\n2\n" := by decide +kernel
  exact hdifferent hsame

end Calculator
