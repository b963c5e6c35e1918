import Calculator.Conversation

/-!
# Reading Line by Line

How an input is cut into complete lines, piece by piece.

A line feed ends a physical line wherever it stands, so an input is cut behind any line
feed without a change to the physical lines on either side. Complete lines are longer: a
text that is still to be continued is carried from one physical line to the next, and
`unfinishedFrom` is what is carried at the end. Where nothing is carried and the last line
has its line feed, a complete line begins whatever comes next, and `WholeLines` says that
an input ends in such a place. Its complete lines are then all there is to know of it. All
this holds of every reader, whatever its backspaces erase, since what is to be continued
ends with a backslash and so is never empty.

What a line looks like when it is complete depends on the reader only where there are
backspaces. `gather_of_notMem` says what happens without them.

Each complete line is answered by itself and hands on a session. Two lines that every
session answers alike may therefore be exchanged anywhere in a conversation.

## Main definitions

* `LineReader.unfinishedFrom`: The text that is still to be continued behind some physical
  lines.
* `LineReader.WholeLines`: An input behind which a complete line begins.
* `EndsLine`: A text that is a complete line when a line feed stands behind it.

## Theorems

* `physicalLines_append`: An input is cut behind a line feed.
* `LineReader.gather_of_notMem`: All readers gather alike where nothing is erased.
* `LineReader.logicalLines_append`: Whole lines come before those of any input behind them.
* `LineReader.logicalLines_line`: A line with its line feed is the first of the complete lines.
* `LineReader.backslash_mem_of_mem_logicalLines`: A complete line that was continued has a
  backslash.
* `joinContinued_of_notMem`, `joinContinued_append`: What becomes of a line that is tidied.
* `respond_eq_of_tidyLine`: A line is answered as it is tidied.
* `converse_exchange`: A line may be exchanged for one that is answered alike.
-/

namespace Calculator

variable {reader : LineReader} {front line gathered : List Char}

/-- A line with its line feed is the first of the physical lines. -/
theorem physicalLines_line (h : '\n' ∉ line) (rest : List Char) :
    physicalLines (line ++ '\n' :: rest) = (line ++ ['\n']) :: physicalLines rest := by
  induction line with
  | nil => rfl
  | cons c line ih =>
      rw [List.mem_cons, not_or] at h
      rw [List.cons_append, physicalLines, if_neg (Ne.symm h.1), ih h.2]
      rfl

/-- A line without a line feed is the only physical line. -/
theorem physicalLines_last (h : '\n' ∉ line) (hne : line ≠ []) : physicalLines line = [line] := by
  induction line with
  | nil => exact absurd rfl hne
  | cons c line ih =>
      rw [List.mem_cons, not_or] at h
      rw [physicalLines, if_neg (Ne.symm h.1)]
      by_cases hline : line = []
      · rw [hline]
        rfl
      · rw [ih h.2 hline]

/-- An input is cut behind a line feed. -/
theorem physicalLines_append (h : front = [] ∨ front.getLast? = some '\n')
    (back : List Char) :
    physicalLines (front ++ back) = physicalLines front ++ physicalLines back := by
  induction front with
  | nil => rfl
  | cons c rest ih =>
      have hlast := h.resolve_left (List.cons_ne_nil c rest)
      by_cases hrest : rest = []
      · rw [hrest] at hlast ⊢
        have hfeed : c = '\n' := Option.some.inj hlast
        rw [hfeed]
        rfl
      · rw [List.getLast?_cons_of_ne_nil hrest] at hlast
        rw [List.cons_append, physicalLines, physicalLines, ih (.inr hlast)]
        split
        · rfl
        · -- The rest has a line of its own, which the character joins in both.
          cases hlines : physicalLines rest with
          | nil =>
              have hflatten := flatten_physicalLines rest
              rw [hlines] at hflatten
              exact absurd hflatten.symm hrest
          | cons first lines => rfl

/-- A physical line has no line feed but the one that ends it. -/
theorem exists_of_mem_physicalLines {input physical : List Char}
    (h : physical ∈ physicalLines input) :
    ∃ line, '\n' ∉ line ∧ (physical = line ∨ physical = line ++ ['\n']) := by
  induction input generalizing physical with
  | nil => exact absurd h List.not_mem_nil
  | cons c rest ih =>
      rw [physicalLines] at h
      split at h
      · next hc =>
          rcases List.mem_cons.mp h with rfl | hrest
          · exact ⟨[], List.not_mem_nil, .inr (congrArg (fun c => [c]) hc)⟩
          · exact ih hrest
      · next hc =>
          split at h
          · rw [List.mem_singleton.mp h]
            exact ⟨[c], fun hmem => hc (List.mem_singleton.mp hmem).symm, .inl rfl⟩
          · next first lines hlines =>
              rw [hlines] at ih
              rcases List.mem_cons.mp h with rfl | hrest
              · -- The character joins a line that has the form already.
                rcases ih List.mem_cons_self with ⟨line, hline, hform⟩
                refine ⟨c :: line, ?_, ?_⟩
                · rw [List.mem_cons, not_or]
                  exact ⟨Ne.symm hc, hline⟩
                · rcases hform with rfl | rfl
                  · exact .inl rfl
                  · exact .inr rfl
              · exact ih (List.mem_cons_of_mem _ hrest)

/-- A line feed is a line end by itself, if no carriage return stands before it. -/
theorem withoutLineEnd_append_lineFeed {text : List Char} (h : text.getLast? ≠ some '\r') :
    withoutLineEnd (text ++ ['\n']) = text := by
  rw [withoutLineEnd, List.reverse_append, List.reverse_singleton, List.singleton_append]
  split
  · next rest heq =>
      rw [List.cons.injEq] at heq
      rw [← List.head?_reverse, heq.2] at h
      exact absurd rfl h
  · next rest heq =>
      rw [List.cons.injEq] at heq
      rw [← heq.2, List.reverse_reverse]
  · next hnone => exact absurd rfl (hnone text.reverse)

theorem withoutLineEnd_append_return (text : List Char) :
    withoutLineEnd (text ++ ['\r', '\n']) = text := by
  have hreverse : (text ++ ['\r', '\n']).reverse = '\n' :: '\r' :: text.reverse :=
    List.reverse_append
  rw [withoutLineEnd, hreverse]
  exact List.reverse_reverse text

/-- A text has no line end, or it is its line end behind the rest. -/
theorem withoutLineEnd_cases (text : List Char) :
    (withoutLineEnd text = text ∧ text.getLast? ≠ some '\n') ∨
      text = withoutLineEnd text ++ ['\n'] ∨ text = withoutLineEnd text ++ ['\r', '\n'] := by
  rw [withoutLineEnd]
  split
  · next rest heq =>
      refine .inr (.inr ?_)
      rw [← List.reverse_reverse text, heq, List.reverse_cons, List.reverse_cons,
        List.append_assoc, List.singleton_append]
  · next rest heq =>
      refine .inr (.inl ?_)
      rw [← List.reverse_reverse text, heq, List.reverse_cons]
  · -- Behind a line feed one of the two cases before would have applied.
    next hfeed =>
      refine .inl ⟨rfl, fun hlast => ?_⟩
      rw [← List.head?_reverse] at hlast
      rcases List.head?_eq_some_iff.mp hlast with ⟨rest, heq⟩
      exact hfeed rest heq

/-- A text that does not end with a line feed has no line end. -/
theorem withoutLineEnd_of_getLast? {text : List Char} (h : text.getLast? ≠ some '\n') :
    withoutLineEnd text = text := by
  rw [← List.head?_reverse] at h
  rw [withoutLineEnd]
  split
  · next heq =>
      rw [heq] at h
      exact absurd rfl h
  · next heq =>
      rw [heq] at h
      exact absurd rfl h
  · rfl

/-- A line end holds nothing but a carriage return and a line feed. -/
theorem mem_withoutLineEnd {text : List Char} {c : Char} (h : c ∈ text) (hfeed : c ≠ '\n')
    (hreturn : c ≠ '\r') : c ∈ withoutLineEnd text := by
  rcases withoutLineEnd_cases text with ⟨hnone, -⟩ | heq | heq
  · rw [hnone]
    exact h
  · rw [heq, List.mem_append, List.mem_singleton] at h
    exact h.resolve_right hfeed
  · rw [heq, List.mem_append, List.mem_cons, List.mem_singleton] at h
    exact h.resolve_right (not_or.mpr ⟨hreturn, hfeed⟩)

theorem withoutLineEnd_begins (text : List Char) : withoutLineEnd text <+: text := by
  rcases withoutLineEnd_cases text with ⟨hnone, -⟩ | heq | heq
  · exact ⟨[], (List.append_nil _).trans hnone⟩
  · exact ⟨_, heq.symm⟩
  · exact ⟨_, heq.symm⟩

/-- A line feed at the end is not left. -/
theorem withoutLineEnd_lineFeed_begins (text : List Char) :
    withoutLineEnd (text ++ ['\n']) <+: text := by
  rcases withoutLineEnd_cases (text ++ ['\n']) with ⟨-, hlast⟩ | heq | heq
  · exact absurd List.getLast?_concat hlast
  · exact ⟨[], (List.append_nil _).trans (List.append_cancel_right heq).symm⟩
  · have hsplit : text ++ ['\n'] = withoutLineEnd (text ++ ['\n']) ++ ['\r'] ++ ['\n'] :=
      heq.trans (List.append_assoc _ ['\r'] ['\n']).symm
    exact ⟨['\r'], (List.append_cancel_right hsplit).symm⟩

/-- A text that is a complete line when a line feed stands behind it: it ends neither with
    a backslash, which would continue it, nor with a carriage return, which would belong to
    its line end. -/
structure EndsLine (text : List Char) : Prop where
  ne_backslash : text.getLast? ≠ some '\\'
  ne_return : text.getLast? ≠ some '\r'

-- The second of two texts decides how both end, or the first if the second is empty.
theorem getLast?_append_ne {text text' : List Char} {c : Char} (h : text.getLast? ≠ some c)
    (h' : text'.getLast? ≠ some c) : (text ++ text').getLast? ≠ some c := by
  rw [List.getLast?_append]
  cases hlast : text'.getLast? with
  | none => exact h
  | some d =>
      rw [hlast] at h'
      exact h'

theorem EndsLine.append {text text' : List Char} (h : EndsLine text) (h' : EndsLine text') :
    EndsLine (text ++ text') :=
  ⟨getLast?_append_ne h.ne_backslash h'.ne_backslash, getLast?_append_ne h.ne_return h'.ne_return⟩

theorem endsLine_nil : EndsLine [] :=
  ⟨nofun, nofun⟩

theorem endsLine_concat {c : Char} (hbackslash : c ≠ '\\') (hreturn : c ≠ '\r')
    (text : List Char) : EndsLine (text ++ [c]) := by
  have hlast : (text ++ [c]).getLast? = some c := List.getLast?_concat
  exact ⟨fun h => hbackslash (Option.some.inj (hlast.symm.trans h)),
    fun h => hreturn (Option.some.inj (hlast.symm.trans h))⟩

namespace LineReader

/-- Where there is nothing to erase, all readers gather alike. -/
theorem gather_of_notMem {physical : List Char} (hback : backspace ∉ gathered ++ physical) :
    reader.gather gathered physical =
      if (withoutLineEnd (gathered ++ physical)).getLast? = some '\\' then
        .continued (gathered ++ physical)
      else .complete (withoutLineEnd (gathered ++ physical)) := by
  have hline : backspace ∉ withoutLineEnd (gathered ++ physical) :=
    fun hmem => hback ((withoutLineEnd_begins _).mem hmem)
  rw [gather, reader.erase_of_notMem hline, withoutLineEnd_append_lineEnd]

/-- A line and its line feed complete the text that is gathered before them. -/
theorem gather_of_endsLine (hback : backspace ∉ gathered ++ line)
    (h : EndsLine (gathered ++ line)) :
    reader.gather gathered (line ++ ['\n']) = .complete (gathered ++ line) := by
  have hfeed : backspace ∉ gathered ++ (line ++ ['\n']) := by
    rw [← List.append_assoc, List.mem_append, not_or]
    exact ⟨hback, by decide⟩
  rw [gather_of_notMem hfeed, ← List.append_assoc, withoutLineEnd_append_lineFeed h.ne_return,
    if_neg h.ne_backslash]

/-- A line that ends with a backslash is to be continued. -/
theorem gather_of_backslash (hback : backspace ∉ gathered ++ line) :
    reader.gather gathered (line ++ ['\\', '\n']) =
      .continued (gathered ++ line ++ ['\\', '\n']) := by
  have hlast : (gathered ++ line ++ ['\\']).getLast? = some '\\' := List.getLast?_concat
  have htext : gathered ++ (line ++ ['\\', '\n']) = gathered ++ line ++ ['\\'] ++ ['\n'] := by
    rw [List.append_assoc, List.append_assoc, List.singleton_append]
  have hreturn : (gathered ++ line ++ ['\\']).getLast? ≠ some '\r' := by
    rw [hlast]
    decide
  have hfeed : backspace ∉ gathered ++ (line ++ ['\\', '\n']) := by
    rw [← List.append_assoc, List.mem_append, not_or]
    exact ⟨hback, by decide⟩
  rw [gather_of_notMem hfeed, htext, withoutLineEnd_append_lineFeed hreturn, hlast, if_pos rfl,
    List.append_assoc, List.singleton_append]

/-- A text that is continued is the gathered one with the physical line, and has a
    backslash. -/
theorem of_gather_continued {physical text : List Char}
    (hback : backspace ∉ gathered ++ physical)
    (h : reader.gather gathered physical = .continued text) :
    text = gathered ++ physical ∧ '\\' ∈ text := by
  rw [gather_of_notMem hback] at h
  split at h
  · next hlast =>
      rw [← Gathered.continued.inj h]
      exact ⟨rfl, (withoutLineEnd_begins _).mem (List.mem_of_getLast? hlast)⟩
  · cases h

theorem eq_of_gather_complete {physical complete : List Char}
    (hback : backspace ∉ gathered ++ physical)
    (h : reader.gather gathered physical = .complete complete) :
    complete = withoutLineEnd (gathered ++ physical) := by
  rw [gather_of_notMem hback] at h
  split at h
  · cases h
  · exact (Gathered.complete.inj h).symm

/-- The text that is still to be continued behind some physical lines. -/
def unfinishedFrom (reader : LineReader) (gathered : List Char) : List (List Char) → List Char
  | [] => gathered
  | physical :: rest =>
      match reader.gather gathered physical with
      | .continued text => reader.unfinishedFrom text rest
      | .complete _ => reader.unfinishedFrom [] rest

/-- An input behind which a complete line begins: its last line has a line feed and is not
    to be continued. -/
structure WholeLines (reader : LineReader) (input : List Char) : Prop where
  terminated : input = [] ∨ input.getLast? = some '\n'
  finished : reader.unfinishedFrom [] (physicalLines input) = []

instance (reader : LineReader) (input : List Char) : Decidable (reader.WholeLines input) :=
  decidable_of_iff
    ((input = [] ∨ input.getLast? = some '\n') ∧
      reader.unfinishedFrom [] (physicalLines input) = [])
    ⟨fun h => ⟨h.1, h.2⟩, fun h => ⟨h.terminated, h.finished⟩⟩

/-- Behind some physical lines the next ones go on with the text that is carried. -/
theorem logicalLinesFrom_append (gathered : List Char) (front back : List (List Char)) :
    reader.logicalLinesFrom gathered (front ++ back) =
      reader.logicalLinesFrom gathered front ++
        reader.logicalLinesFrom (reader.unfinishedFrom gathered front) back := by
  induction front generalizing gathered with
  | nil => rfl
  | cons physical rest ih =>
      rw [List.cons_append, logicalLinesFrom, logicalLinesFrom, unfinishedFrom]
      cases reader.gather gathered physical with
      | continued text => exact ih text
      | complete line =>
          dsimp only
          rw [ih [], List.cons_append]

/-- Whole lines come before those of any input behind them. -/
theorem logicalLines_append (h : reader.WholeLines front) (back : List Char) :
    reader.logicalLines (front ++ back) =
      reader.logicalLines front ++ reader.logicalLines back := by
  rw [logicalLines, physicalLines_append h.terminated, logicalLinesFrom_append, h.finished]
  rfl

theorem logicalLinesFrom_of_complete {physical complete : List Char}
    (h : reader.gather gathered physical = .complete complete) (rest : List (List Char)) :
    reader.logicalLinesFrom gathered (physical :: rest) =
      complete :: reader.logicalLinesFrom [] rest := by
  rw [logicalLinesFrom, h]

theorem logicalLinesFrom_of_continued {physical text : List Char}
    (h : reader.gather gathered physical = .continued text) (rest : List (List Char)) :
    reader.logicalLinesFrom gathered (physical :: rest) = reader.logicalLinesFrom text rest := by
  rw [logicalLinesFrom, h]

/-- A line with its line feed is the first of the complete lines. -/
theorem logicalLines_line (h : '\n' ∉ line) (hback : backspace ∉ line) (hends : EndsLine line)
    (rest : List Char) :
    reader.logicalLines (line ++ '\n' :: rest) = line :: reader.logicalLines rest := by
  have hgather : reader.gather [] (line ++ ['\n']) = .complete line :=
    gather_of_endsLine hback hends
  rw [logicalLines, physicalLines_line h, logicalLinesFrom_of_complete hgather]
  rfl

theorem logicalLines_last (h : '\n' ∉ line) (hback : backspace ∉ line) (hends : EndsLine line)
    (hne : line ≠ []) : reader.logicalLines line = [line] := by
  have hlast : line.getLast? ≠ some '\n' := fun hfeed => h (List.mem_of_getLast? hfeed)
  have hgather : reader.gather [] line = .complete line := by
    rw [gather_of_notMem hback, List.nil_append, withoutLineEnd_of_getLast? hlast,
      if_neg hends.ne_backslash]
  rw [logicalLines, physicalLines_last h hne, logicalLinesFrom_of_complete hgather]
  rfl

/-- Complete lines with a line feed have been continued, so they have a backslash. -/
theorem backslash_mem_of_mem_logicalLinesFrom {lines : List (List Char)}
    (hgathered : '\n' ∈ gathered → '\\' ∈ gathered) (hback : backspace ∉ gathered)
    (hlines : ∀ physical ∈ lines, backspace ∉ physical ∧
      ∃ line, '\n' ∉ line ∧ (physical = line ∨ physical = line ++ ['\n']))
    {complete : List Char} (hmem : complete ∈ reader.logicalLinesFrom gathered lines)
    (hfeed : '\n' ∈ complete) : '\\' ∈ complete := by
  induction lines generalizing gathered with
  | nil => exact absurd hmem List.not_mem_nil
  | cons physical rest ih =>
      rw [List.forall_mem_cons] at hlines
      have hboth : backspace ∉ gathered ++ physical := by
        rw [List.mem_append, not_or]
        exact ⟨hback, hlines.1.1⟩
      cases hgather : reader.gather gathered physical with
      | continued text =>
          rw [logicalLinesFrom_of_continued hgather] at hmem
          rcases of_gather_continued hboth hgather with ⟨htext, hbackslash⟩
          rw [← htext] at hboth
          exact ih (fun _ => hbackslash) hboth hlines.2 hmem
      | complete line =>
          rw [logicalLinesFrom_of_complete hgather] at hmem
          rcases List.mem_cons.mp hmem with rfl | hrest
          · rw [eq_of_gather_complete hboth hgather] at hfeed ⊢
            -- The line feed is none of the last physical line, so it was gathered before.
            have hbefore : '\n' ∈ gathered := by
              rcases hlines.1.2 with ⟨line, hline, rfl | rfl⟩
              · have hall := (withoutLineEnd_begins _).mem hfeed
                exact (List.mem_append.mp hall).resolve_right hline
              · rw [← List.append_assoc] at hfeed
                have hall := (withoutLineEnd_lineFeed_begins _).mem hfeed
                exact (List.mem_append.mp hall).resolve_right hline
            exact mem_withoutLineEnd (List.mem_append_left _ (hgathered hbefore)) (by decide)
              (by decide)
          · exact ih (fun h => absurd h List.not_mem_nil) List.not_mem_nil hlines.2 hrest

/-- A complete line with a line feed has been continued, so it has a backslash. -/
theorem backslash_mem_of_mem_logicalLines {input complete : List Char}
    (hback : backspace ∉ input) (hmem : complete ∈ reader.logicalLines input)
    (hfeed : '\n' ∈ complete) : '\\' ∈ complete := by
  refine backslash_mem_of_mem_logicalLinesFrom (fun h => absurd h List.not_mem_nil)
    List.not_mem_nil (fun physical hphysical => ⟨fun hmem => hback ?_, ?_⟩) hmem hfeed
  · rw [← flatten_physicalLines input]
    exact List.mem_flatten_of_mem hphysical hmem
  · exact exists_of_mem_physicalLines hphysical

end LineReader

/-- What is not blank is not dropped from the ends of a text. -/
theorem mem_trimBlank {text : List Char} {c : Char} (h : c ∈ text) (hc : isBlank c = false) :
    c ∈ trimBlank text := by
  -- A character that is not dropped by one of the two ends is dropped by neither.
  have hkept {text : List Char} (h : c ∈ text) : c ∈ text.dropWhile isBlank := by
    rw [← List.takeWhile_append_dropWhile (p := isBlank) (l := text), List.mem_append] at h
    refine h.resolve_left fun hdropped => ?_
    have hblank := List.all_eq_true.mp List.all_takeWhile c hdropped
    rw [hc] at hblank
    cases hblank
  exact List.mem_reverse.mpr (hkept (List.mem_reverse.mpr (hkept h)))

/-- A character is kept, unless it is the backslash before a line feed. -/
theorem joinContinued_cons {c : Char} {rest : List Char}
    (h : c = '\\' → rest.head? ≠ some '\n') :
    joinContinued (c :: rest) = c :: joinContinued rest := by
  rw [joinContinued]
  intro rest' hc heq
  rw [heq] at h
  exact h hc rfl

/-- A text without a line feed has nothing to join. -/
theorem joinContinued_of_notMem {text : List Char} (h : '\n' ∉ text) :
    joinContinued text = text := by
  induction text with
  | nil => rfl
  | cons c rest ih =>
      rw [List.mem_cons, not_or] at h
      rw [joinContinued_cons fun _ hhead => h.2 (List.mem_of_mem_head? hhead), ih h.2]

/-- The first backslash before a line feed becomes a blank with it. -/
theorem joinContinued_append (h : '\n' ∉ front) (back : List Char) :
    joinContinued (front ++ '\\' :: '\n' :: back) = front ++ ' ' :: joinContinued back := by
  induction front with
  | nil => rfl
  | cons c rest ih =>
      rw [List.mem_cons, not_or] at h
      -- A backslash at the end of the front is not joined, because another backslash follows it.
      have hhead : (rest ++ '\\' :: '\n' :: back).head? ≠ some '\n' := by
        cases rest with
        | nil => exact fun hd => absurd (Option.some.inj hd) (by decide)
        | cons d rest =>
            exact fun hd => h.2 (List.mem_cons.mpr (.inl (Option.some.inj hd).symm))
      rw [List.cons_append, joinContinued_cons fun _ => hhead, ih h.2, List.cons_append]

/-- A line is answered as it is tidied. -/
theorem respond_eq_of_tidyLine {line line' : String} (h : tidyLine line = tidyLine line')
    (session : Session) : respond session line = respond session line' := by
  rw [respond, respond, h]

/-- A line may be exchanged for one that every session answers alike. -/
theorem converse_exchange {line line' : String}
    (h : ∀ session, respond session line = respond session line') (session : Session)
    (front back : List String) :
    converse session (front ++ line :: back) = converse session (front ++ line' :: back) := by
  induction front generalizing session with
  | nil => rw [List.nil_append, List.nil_append, converse, converse, h]
  | cons first rest ih =>
      rw [List.cons_append, List.cons_append, converse, converse]
      cases respond session first with
      | none => rfl
      | some answer => exact congrArg (answer.2 ++ ·) (ih answer.1)

end Calculator
