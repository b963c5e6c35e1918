import Calculator.Proofs.Scanning
import Calculator.Session

/-!
# Separators

Which separators stand in a text does not matter, nor how many.

A text is cut at its separators into chunks, and a chunk is scanned without a look at what
separates it from the next. What is handed on from chunk to chunk is whether an operand has just
ended, and that is told by tokens alone. So the tokens are a function of the chunks, empty ones
left out, and with the tokens everything is that is computed from them: the number of tokens
that is reported when they are loaded, the result, the reports, and the session behind it.

## Main definitions

* `chunks`: The chunks of a text between its separators.
* `IsGap`: A run of separators.

## Theorems

* `Scanner.tokensOf_eq_tokensOfLexemes`: The tokens of a text are those of its chunks.
* `chunks_gap`, `chunks_outer_gaps`: A run of separators between two texts can be exchanged, and
  runs around a text can be left out.
* `Session.eval_of_chunks`: Texts with the same chunks are evaluated alike.
-/

namespace Calculator

/-- The chunks of a text: what stands between its separators, where that is not empty. -/
def chunks (text : List Char) : List (List Char) :=
  (text.splitOnP isSeparator).filter (· ≠ [])

/-- A run of separators, which may be empty. -/
def IsGap (gap : List Char) : Prop :=
  ∀ c ∈ gap, isSeparator c = true

/-- A separator divides the chunks of a text. -/
theorem chunks_append_separator {c : Char} (hc : isSeparator c = true) (front back : List Char) :
    chunks (front ++ c :: back) = chunks front ++ chunks back := by
  rw [chunks, List.splitOnP_append_cons front back hc, List.filter_append]
  rfl

theorem chunks_of_notMem {text : List Char} (h : ∀ c ∈ text, isSeparator c = false) :
    chunks text = if text = [] then [] else [text] := by
  rw [chunks, List.splitOnP_eq_singleton h]
  split
  · next hnil => rw [hnil]; rfl
  · next hne => exact List.filter_cons_of_pos (decide_eq_true hne)

/-- A run of separators before a text has no chunks. -/
theorem chunks_gap_append {gap : List Char} (hgap : IsGap gap) (text : List Char) :
    chunks (gap ++ text) = chunks text := by
  induction gap with
  | nil => rfl
  | cons c gap ih =>
      have hrest : IsGap gap := fun d hd => hgap d (List.mem_cons_of_mem c hd)
      have hc := chunks_append_separator (hgap c List.mem_cons_self) [] (gap ++ text)
      rw [List.cons_append, ← ih hrest]
      exact hc

/-- A run of separators divides the chunks of a text, whichever run it is. -/
theorem chunks_append_gap {gap : List Char} (hgap : IsGap gap) (hne : gap ≠ [])
    (front back : List Char) : chunks (front ++ (gap ++ back)) = chunks front ++ chunks back := by
  obtain ⟨c, rest, rfl⟩ := List.exists_cons_of_ne_nil hne
  have hrest : IsGap rest := fun d hd => hgap d (List.mem_cons_of_mem c hd)
  rw [List.cons_append, chunks_append_separator (hgap c List.mem_cons_self),
    chunks_gap_append hrest]

/-- A run of separators behind a text has no chunks. -/
theorem chunks_append_trailing {gap : List Char} (hgap : IsGap gap) (text : List Char) :
    chunks (text ++ gap) = chunks text := by
  by_cases hnil : gap = []
  · rw [hnil, List.append_nil]
  · have hboth := chunks_append_gap hgap hnil text []
    rw [List.append_nil] at hboth
    rw [hboth]
    exact List.append_nil _

/-- The tokens of a text are those of its chunks, scanned one after the other. -/
theorem Scanner.tokensOf_eq_tokensOfLexemes (afterOperand : Bool) (text : List Char) :
    tokensOf afterOperand text = tokensOfLexemes afterOperand (chunks text) := by
  induction hlength : text.length using Nat.strongRecOn generalizing afterOperand text with
  | _ length ih =>
      by_cases hseparator : ∃ c ∈ text, isSeparator c = true
      · -- Both sides are divided at the separator.
        obtain ⟨c, hmem, hc⟩ := hseparator
        obtain ⟨front, back, rfl⟩ := List.append_of_mem hmem
        rw [List.length_append, List.length_cons] at hlength
        have hfront := ih front.length (by omega) afterOperand front rfl
        rw [tokensOf_append_separator hc, chunks_append_separator hc, tokensOfLexemes_append,
          ← hfront, ih back.length (by omega) _ back rfl]
      · have hnone : ∀ c ∈ text, isSeparator c = false :=
          fun c hc => eq_false_of_ne_true fun h => hseparator ⟨c, hc, h⟩
        rw [chunks_of_notMem hnone]
        split
        · next hnil => rw [hnil, tokensOf_nil]; rfl
        · next hne => rw [tokensOfLexemes, tokensOfLexemes, List.append_nil]

theorem tokenize_eq_of_chunks_eq {text text' : String}
    (h : chunks text.toList = chunks text'.toList) : tokenize text = tokenize text' := by
  have htokens := Scanner.tokensOf_eq_tokensOfLexemes false text.toList
  rw [h, ← Scanner.tokensOf_eq_tokensOfLexemes] at htokens
  exact congrArg (· ++ [.endOfText, .endOfText]) htokens

theorem Session.eval_eq_of_tokenize_eq {text text' : String} (h : tokenize text = tokenize text')
    (s : Session) : s.eval text = s.eval text' := by
  have htokens : (Scanner.ofText text).tokens = (Scanner.ofText text').tokens :=
    List.append_cancel_right h
  rw [eval, eval, load, load, loadedEvent, loadedEvent, h, htokens]

/-- Texts with the same chunks have the same tokens, and any session evaluates them alike: it
    answers with the same result and the same reports and is the same session afterwards. So a
    run of separators between two texts can be exchanged for any other that is not empty, and
    runs of separators around a text can be added and left out. -/
theorem Session.eval_of_chunks :
    (∀ text text' : String, chunks text.toList = chunks text'.toList →
        tokenize text = tokenize text' ∧ ∀ s : Session, s.eval text = s.eval text') ∧
      (∀ front gap gap' back : String, IsGap gap.toList → gap ≠ "" → IsGap gap'.toList →
        gap' ≠ "" →
          tokenize (front ++ gap ++ back) = tokenize (front ++ gap' ++ back) ∧
            ∀ s : Session, s.eval (front ++ gap ++ back) = s.eval (front ++ gap' ++ back)) ∧
      ∀ gap text gap' : String, IsGap gap.toList → IsGap gap'.toList →
        tokenize (gap ++ text ++ gap') = tokenize text ∧
          ∀ s : Session, s.eval (gap ++ text ++ gap') = s.eval text := by
  have halike (text text' : String) (h : chunks text.toList = chunks text'.toList) :
      tokenize text = tokenize text' ∧ ∀ s : Session, s.eval text = s.eval text' :=
    ⟨tokenize_eq_of_chunks_eq h, eval_eq_of_tokenize_eq (tokenize_eq_of_chunks_eq h)⟩
  refine ⟨halike, fun front gap gap' back hgap hne hgap' hne' => halike _ _ ?_,
    fun gap text gap' hgap hgap' => halike _ _ ?_⟩
  · simp only [String.toList_append, List.append_assoc]
    rw [chunks_append_gap hgap (mt String.toList_eq_nil_iff.mp hne),
      chunks_append_gap hgap' (mt String.toList_eq_nil_iff.mp hne')]
  · rw [String.toList_append, String.toList_append, chunks_append_trailing hgap',
      chunks_gap_append hgap]

/-- A semicolon or blanks between two statements, and a line end behind them. -/
theorem Session.eval_of_chunks_sample :
    chunks "a = 1;-a".toList = chunks "\ta =  1 -a\n".toList ∧
      tokenize "a = 1;-a" = tokenize "\ta =  1 -a\n" ∧
      IsGap ";".toList ∧ IsGap " \r\n".toList ∧
      new.eval ("a = 1" ++ ";" ++ "-a") = new.eval ("a = 1" ++ " \r\n" ++ "-a") ∧
      new.eval (";" ++ "a = 1" ++ " \r\n") = new.eval "a = 1" := by
  have hchunks : chunks "a = 1;-a".toList = chunks "\ta =  1 -a\n".toList := by decide
  have hgap : IsGap ";".toList := List.all_eq_true.mp (by decide)
  have hgap' : IsGap " \r\n".toList := List.all_eq_true.mp (by decide)
  exact ⟨hchunks, (eval_of_chunks.1 _ _ hchunks).1, hgap, hgap',
    (eval_of_chunks.2.1 _ _ _ _ hgap (by decide) hgap' (by decide)).2 new,
    (eval_of_chunks.2.2 _ _ _ hgap hgap').2 new⟩

end Calculator
