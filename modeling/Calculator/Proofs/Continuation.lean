import Calculator.CommandLine.Program
import Calculator.Proofs.Lines

/-!
# Continued Lines

Lines that continue one another are one long line with blanks in their places.

Each line but the last has a backslash behind it. The lines are gathered as they stand,
with the line ends between them, and whether the text goes on is asked again at every line.
The question is always about the last backslash, so a line may hold or end in further ones,
and a line may be empty. When the text is complete, the backslashes that were asked about
are the only ones with a line feed behind them. They become blanks, and the others stay.

The long line is therefore answered as the continued ones are, and both leave the input in
the same place. Every reader agrees on this, as long as the lines have no backspaces; those
before and behind them may have any.

## Main definitions

* `continuedText`, `joinedText`: Lines as they continue one another, and as one line.

## Theorems

* `LineReader.logicalLinesFrom_continued`: Continued lines are one complete line.
* `joinContinued_intercalate`: Joined, they are the long line.
* `runProgram_continuedText`: In a conversation they may be exchanged for it.
-/

namespace Calculator

/-- Lines of which each but the last is continued by the next. -/
def continuedText (lines : List String) : String :=
  "\\\n".intercalate lines

/-- Lines as one line, with blanks between them. -/
def joinedText (lines : List String) : String :=
  " ".intercalate lines

variable {reader : LineReader} {lines : List (List Char)}

/-- Lines that continue one another are gathered to one complete line. -/
theorem LineReader.logicalLinesFrom_continued
    (hlines : ∀ line ∈ lines, '\n' ∉ line ∧ backspace ∉ line)
    (hlast : ∀ last ∈ lines.getLast?, EndsLine last) {gathered : List Char}
    (hgathered : EndsLine gathered) (hback : backspace ∉ gathered) (after : List Char) :
    reader.logicalLinesFrom gathered
        (physicalLines (['\\', '\n'].intercalate lines ++ '\n' :: after)) =
      (gathered ++ ['\\', '\n'].intercalate lines) ::
        reader.logicalLinesFrom [] (physicalLines after) := by
  induction lines generalizing gathered with
  | nil =>
      have hends : EndsLine (gathered ++ []) := (List.append_nil gathered).symm ▸ hgathered
      have hnone : backspace ∉ gathered ++ [] := (List.append_nil gathered).symm ▸ hback
      rw [List.intercalate_nil, physicalLines_line List.not_mem_nil,
        logicalLinesFrom_of_complete (gather_of_endsLine hnone hends)]
  | cons line rest ih =>
      rcases hlines line List.mem_cons_self with ⟨hline, hkept⟩
      have hboth : backspace ∉ gathered ++ line := by
        rw [List.mem_append, not_or]
        exact ⟨hback, hkept⟩
      by_cases hrest : rest = []
      · -- The last line completes the text.
        rw [hrest] at hlast ⊢
        have hends := hgathered.append (hlast line rfl)
        rw [List.intercalate_singleton, physicalLines_line hline,
          logicalLinesFrom_of_complete (gather_of_endsLine hboth hends)]
      · -- Any other line is carried to the next one with its backslash and its line feed.
        rw [List.getLast?_cons_of_ne_nil hrest] at hlast
        have hcarried : EndsLine (gathered ++ line ++ ['\\', '\n']) := by
          rw [← List.singleton_append, ← List.append_assoc]
          exact endsLine_concat (by decide) (by decide) _
        have hnone : backspace ∉ gathered ++ line ++ ['\\', '\n'] := by
          rw [List.mem_append, not_or]
          exact ⟨hboth, by decide⟩
        have hbackslash : '\n' ∉ line ++ ['\\'] := by
          rw [List.mem_append, not_or]
          exact ⟨hline, by decide⟩
        have hfirst : physicalLines
            (['\\', '\n'].intercalate (line :: rest) ++ '\n' :: after) =
              (line ++ ['\\', '\n']) ::
                physicalLines (['\\', '\n'].intercalate rest ++ '\n' :: after) := by
          have hphysical := physicalLines_line hbackslash
            (['\\', '\n'].intercalate rest ++ '\n' :: after)
          rw [List.append_assoc, List.append_assoc] at hphysical
          rw [List.intercalate_cons_of_ne_nil hrest, List.append_assoc, List.append_assoc]
          exact hphysical
        rw [hfirst, logicalLinesFrom_of_continued (gather_of_backslash hboth),
          ih (fun line hmem => hlines line (List.mem_cons_of_mem _ hmem)) hlast hcarried hnone,
          List.intercalate_cons_of_ne_nil hrest, List.append_assoc, List.append_assoc,
          List.append_assoc]

/-- Lines with blanks between them end as the last one does. -/
theorem endsLine_intercalate (hlast : ∀ last ∈ lines.getLast?, EndsLine last) :
    EndsLine ([' '].intercalate lines) := by
  induction lines with
  | nil => exact endsLine_nil
  | cons line rest ih =>
      by_cases hrest : rest = []
      · rw [hrest] at hlast ⊢
        rw [List.intercalate_singleton]
        exact hlast line rfl
      · rw [List.getLast?_cons_of_ne_nil hrest] at hlast
        rw [List.intercalate_cons_of_ne_nil hrest]
        exact (endsLine_concat (by decide) (by decide) line).append (ih hlast)

/-- Lines with blanks between them have no other character that none of them has. -/
theorem notMem_intercalate {c : Char} (hc : c ≠ ' ') (hlines : ∀ line ∈ lines, c ∉ line) :
    c ∉ [' '].intercalate lines := by
  induction lines with
  | nil => exact List.not_mem_nil
  | cons line rest ih =>
      rw [List.forall_mem_cons] at hlines
      by_cases hrest : rest = []
      · rw [hrest, List.intercalate_singleton]
        exact hlines.1
      · rw [List.intercalate_cons_of_ne_nil hrest, List.mem_append, List.mem_append, not_or,
          not_or]
        exact ⟨⟨hlines.1, fun hmem => hc (List.mem_singleton.mp hmem)⟩, ih hlines.2⟩

/-- Joined, lines that continue one another have blanks between them. -/
theorem joinContinued_intercalate (hlines : ∀ line ∈ lines, '\n' ∉ line) :
    joinContinued (['\\', '\n'].intercalate lines) = [' '].intercalate lines := by
  induction lines with
  | nil => rfl
  | cons line rest ih =>
      rw [List.forall_mem_cons] at hlines
      by_cases hrest : rest = []
      · rw [hrest, List.intercalate_singleton, List.intercalate_singleton,
          joinContinued_of_notMem hlines.1]
      · rw [List.intercalate_cons_of_ne_nil hrest, List.intercalate_cons_of_ne_nil hrest,
          List.append_assoc, List.append_assoc, List.cons_append, List.singleton_append,
          joinContinued_append hlines.1, ih hlines.2, List.singleton_append]

-- A line that is entered behind whole lines stands between those and what comes after it.
theorem LineReader.logicalLines_entered {before : String}
    (hbefore : reader.WholeLines before.toList) (entered after : String)
    (h : reader.logicalLines (entered.toList ++ '\n' :: after.toList) =
      entered.toList :: reader.logicalLines after.toList) :
    reader.logicalLines (before ++ entered ++ "\n" ++ after).toList =
      reader.logicalLines before.toList ++
        entered.toList :: reader.logicalLines after.toList := by
  have htext : (before ++ entered ++ "\n" ++ after).toList =
      before.toList ++ (entered.toList ++ '\n' :: after.toList) := by
    simp only [String.toList_append, List.append_assoc]
    rfl
  rw [htext, logicalLines_append hbefore, h]

/-- Lines that continue one another may be entered as one long line wherever a complete line
    begins. Either way they are one complete line between those before and those after, which
    every session answers alike: it asks to leave or prints the same, and the session goes on
    the same. So the whole output is the same. -/
theorem runProgram_continuedText {before : String} (hbefore : reader.WholeLines before.toList)
    {lines : List String}
    (hlines : ∀ line ∈ lines, '\n' ∉ line.toList ∧ backspace ∉ line.toList)
    (hlast : ∀ last ∈ lines.getLast?, EndsLine last.toList) (after : String) :
    reader.logicalLines (before ++ continuedText lines ++ "\n" ++ after).toList =
        reader.logicalLines before.toList ++ (continuedText lines).toList ::
          reader.logicalLines after.toList ∧
      reader.logicalLines (before ++ joinedText lines ++ "\n" ++ after).toList =
        reader.logicalLines before.toList ++ (joinedText lines).toList ::
          reader.logicalLines after.toList ∧
      (∀ session, respond session (continuedText lines) = respond session (joinedText lines)) ∧
      reader.runProgram [] (before ++ continuedText lines ++ "\n" ++ after) =
        reader.runProgram [] (before ++ joinedText lines ++ "\n" ++ after) := by
  have hlines' : ∀ line ∈ lines.map String.toList, '\n' ∉ line ∧ backspace ∉ line :=
    List.forall_mem_map.mpr hlines
  have hfeeds : ∀ line ∈ lines.map String.toList, '\n' ∉ line :=
    fun line hmem => (hlines' line hmem).1
  have hlast' : ∀ last ∈ (lines.map String.toList).getLast?, EndsLine last := by
    intro last hmem
    rw [List.getLast?_map] at hmem
    rcases Option.map_eq_some_iff.mp hmem with ⟨line, hline, rfl⟩
    exact hlast line hline
  have hcontinued : (continuedText lines).toList =
      ['\\', '\n'].intercalate (lines.map String.toList) := String.toList_intercalate
  have hjoined : (joinedText lines).toList = [' '].intercalate (lines.map String.toList) :=
    String.toList_intercalate
  have hfeed := notMem_intercalate (by decide) hfeeds
  have hback := notMem_intercalate (by decide) fun line hmem => (hlines' line hmem).2
  -- Each of the two is complete at its line feed.
  have hlineContinued := LineReader.logicalLines_entered hbefore (continuedText lines) after (by
    rw [hcontinued]
    exact LineReader.logicalLinesFrom_continued hlines' hlast' endsLine_nil List.not_mem_nil
      after.toList)
  have hlineJoined := LineReader.logicalLines_entered hbefore (joinedText lines) after (by
    rw [hjoined]
    exact LineReader.logicalLines_line hfeed hback (endsLine_intercalate hlast') after.toList)
  have hrespond : ∀ session,
      respond session (continuedText lines) = respond session (joinedText lines) := by
    refine respond_eq_of_tidyLine ?_
    rw [tidyLine, tidyLine, hcontinued, hjoined, joinContinued_intercalate hfeeds,
      joinContinued_of_notMem hfeed]
  refine ⟨hlineContinued, hlineJoined, hrespond, ?_⟩
  have htranscript : reader.transcript (before ++ continuedText lines ++ "\n" ++ after) =
      reader.transcript (before ++ joinedText lines ++ "\n" ++ after) := by
    rw [LineReader.transcript, LineReader.transcript, hlineContinued, hlineJoined,
      List.map_append, List.map_append, List.map_cons, List.map_cons, String.ofList_toList,
      String.ofList_toList, converse_exchange hrespond]
  exact congrArg (Completion.mk 0) htranscript

/-- A line that ends with a backslash of its own and an empty line, continued behind lines that
    are continued themselves, and behind a line with a backspace. -/
theorem runProgram_continuedText_sample :
    LineReader.byCharacter.WholeLines "b\x08a = 1 + \\\n1\n".toList ∧
      (∀ line ∈ ["a \\", "", "* 2"], '\n' ∉ line.toList ∧ backspace ∉ line.toList) ∧
      (∀ last ∈ ["a \\", "", "* 2"].getLast?, EndsLine last.toList) ∧
      continuedText ["a \\", "", "* 2"] = "a \\\\\n\\\n* 2" ∧
      joinedText ["a \\", "", "* 2"] = "a \\  * 2" ∧
      LineReader.byCharacter.runProgram []
          ("b\x08a = 1 + \\\n1\n" ++ continuedText ["a \\", "", "* 2"] ++ "\n" ++ "a") =
        LineReader.byCharacter.runProgram []
          ("b\x08a = 1 + \\\n1\n" ++ joinedText ["a \\", "", "* 2"] ++ "\n" ++ "a") := by
  have hbefore : LineReader.byCharacter.WholeLines "b\x08a = 1 + \\\n1\n".toList := by
    decide +kernel
  have hlines : ∀ line ∈ ["a \\", "", "* 2"], '\n' ∉ line.toList ∧ backspace ∉ line.toList := by
    decide +kernel
  have hlast : ∀ last ∈ ["a \\", "", "* 2"].getLast?, EndsLine last.toList := by
    intro last hmem
    rw [← Option.some.inj hmem]
    exact ⟨by decide +kernel, by decide +kernel⟩
  exact ⟨hbefore, hlines, hlast, by decide +kernel, by decide +kernel,
    (runProgram_continuedText hbefore hlines hlast "a").2.2.2⟩

end Calculator
