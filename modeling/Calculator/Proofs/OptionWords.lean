import Calculator.CommandLine.Program
import Calculator.Proofs.Evaluators

/-!
# Words of an Expression

Which words of a command line an expression has, and that options do not change its answer.

Reading options sorts a word by its characters. The words that are options can also be
listed, without a reader, and `OptionForm` is that list. The two agree, so a word that is not
on the list is a word of the expression wherever an option may stand. It begins the expression
then, and no word behind it is looked at as an option again, whatever it is.

Behind two hyphens the first word need not be looked at either. The words, joined by spaces,
are the text that a new evaluator evaluates, and its result is all that the call prints. With
debug output the call also prints what the evaluator has reported, in order and before the
result, and differs in nothing else.

## Main definitions

* `optionNames`, `optionLetters`: The names of the options.
* `OptionForm`: The words that are options where an option may stand.

## Theorems

* `Word.ofString_eq_plain_iff`: A word belongs to the expression exactly if it is no option.
* `runProgram_words`: Options change nothing but the debug output.
-/

namespace Calculator

/-- The long names of the options, without their hyphens. -/
def optionNames : List String :=
  ["debug", "help", "version", "history"]

/-- The letters of the options that have one. -/
def optionLetters : List Char :=
  ['d', 'h', 'V']

/-- The words that are options where an option may stand. -/
inductive OptionForm : String → Prop where
  /-- Two hyphens, which end the options. -/
  | endOfOptions : OptionForm "--"
  /-- One hyphen and the letters of some options. -/
  | cluster {letters : List Char} :
      letters ≠ [] → (∀ c ∈ letters, c ∈ optionLetters) →
      OptionForm (String.ofList ('-' :: letters))
  /-- Two hyphens and the name of an option. -/
  | long {name : String} : name ∈ optionNames → OptionForm ("--" ++ name)
  /-- The same with a value behind an equals sign, whether the option takes one or not. -/
  | longWithValue {name : String} (value : String) :
      name ∈ optionNames → OptionForm ("--" ++ name ++ "=" ++ value)

/-- The letters that are read are those of the options. -/
theorem Flag.ofLetter?_isSome_iff {c : Char} :
    (Flag.ofLetter? c).isSome = true ↔ c ∈ optionLetters := by
  simp only [optionLetters, List.mem_cons, List.not_mem_nil, or_false]
  unfold Flag.ofLetter?
  split
  · simp only [Option.isSome_some, true_or]
  · simp only [Option.isSome_some, true_or, or_true]
  · simp only [Option.isSome_some, or_true]
  · next hd hh hV => exact iff_of_false nofun fun h => h.elim hd fun h => h.elim hh hV

/-- Letters are read together if each of them is read. -/
theorem Flag.mapM_ofLetter?_isSome_iff {letters : List Char} :
    (letters.mapM Flag.ofLetter?).isSome = true ↔ ∀ c ∈ letters, c ∈ optionLetters := by
  induction letters with
  | nil => exact iff_of_true rfl fun _ h => absurd h List.not_mem_nil
  | cons c rest ih =>
      rw [List.forall_mem_cons, ← ih, ← Flag.ofLetter?_isSome_iff, List.mapM_cons]
      cases Flag.ofLetter? c with
      | none => exact iff_of_false nofun fun h => absurd h.1 nofun
      | some flag =>
          cases rest.mapM Flag.ofLetter? with
          | none => exact iff_of_false nofun fun h => absurd h.2 nofun
          | some flags => exact iff_of_true rfl ⟨rfl, rfl⟩

/-- The names that are read are those of the options. -/
theorem Flag.ofName?_eq_none_iff {name : String} :
    Flag.ofName? name = none ∧ name ≠ "history" ↔ name ∉ optionNames := by
  simp only [optionNames, List.mem_cons, List.not_mem_nil, or_false, not_or, ← and_assoc]
  refine and_congr_left fun _ => ?_
  unfold Flag.ofName?
  by_cases hdebug : name = "debug"
  · simp only [hdebug, if_true, reduceCtorEq, not_true, false_and]
  by_cases hhelp : name = "help"
  · simp only [hhelp, if_true, reduceCtorEq, not_true, and_false, false_and, String.reduceEq,
      if_false]
  by_cases hversion : name = "version"
  · simp only [hversion, if_true, reduceCtorEq, not_true, and_false, String.reduceEq, if_false]
  · simp only [hdebug, hhelp, hversion, if_false, not_false_eq_true, and_self]

/-- A word behind two hyphens is judged by its name, which ends before the first equals
    sign. -/
theorem Word.ofLong_eq_plain_iff {body : List Char} :
    Word.ofLong body = .plain ↔ String.ofList (body.takeWhile (· != '=')) ∉ optionNames := by
  rw [← Flag.ofName?_eq_none_iff, Word.ofLong]
  generalize String.ofList (body.takeWhile (· != '=')) = name
  -- With a value or without one, the name decides.
  cases body.dropWhile (· != '=') with
  | nil =>
      cases Flag.ofName? name with
      | some flag => exact iff_of_false nofun fun h => absurd h.1 nofun
      | none =>
          by_cases hname : name = "history"
          · simp only [hname, if_true, reduceCtorEq, ne_eq, not_true, and_false]
          · simp only [hname, if_false, ne_eq, not_false_eq_true, and_self]
  | cons c value =>
      cases Flag.ofName? name with
      | some flag => exact iff_of_false nofun fun h => absurd h.1 nofun
      | none =>
          by_cases hname : name = "history"
          · simp only [hname, if_true, reduceCtorEq, ne_eq, not_true, and_false]
          · simp only [hname, if_false, ne_eq, not_false_eq_true, and_self]

/-- Behind two hyphens and something else, the something else decides. -/
theorem Word.ofString_of_long {word : String} {body : List Char}
    (h : word.toList = '-' :: '-' :: body) (hbody : body ≠ []) :
    Word.ofString word = .ofLong body := by
  cases body with
  | nil => exact absurd rfl hbody
  | cons c rest =>
      unfold Word.ofString
      rw [h]
      rfl

/-- Letters of options behind one hyphen are a cluster. -/
theorem Word.ofString_of_letters {word : String} {letters : List Char}
    (h : word.toList = '-' :: letters) (hne : letters ≠ [])
    (hletters : ∀ c ∈ letters, c ∈ optionLetters) :
    ∃ flags, Word.ofString word = .cluster flags := by
  cases letters with
  | nil => exact absurd rfl hne
  | cons letter letters =>
      have hletter : letter ≠ '-' := by
        rintro rfl
        exact absurd (hletters '-' List.mem_cons_self) (by decide)
      have hread := Flag.mapM_ofLetter?_isSome_iff.mpr hletters
      rcases Option.isSome_iff_exists.mp hread with ⟨flags, hflags⟩
      refine ⟨flags, ?_⟩
      -- A second hyphen is no letter of an option, so the forms with two hyphens do not apply.
      unfold Word.ofString
      rw [h]
      split
      · next heq => exact absurd (List.cons.inj (List.cons.inj heq).2).1 hletter
      · next heq => exact absurd (List.cons.inj (List.cons.inj heq).2).1 hletter
      · next heq =>
          rw [← (List.cons.inj heq).2, hflags]
      · next hnone => exact absurd rfl (hnone letter letters)

/-- A word behind two hyphens that is no word of the expression has the form of an option. -/
theorem OptionForm.of_long {word : String} {body : List Char}
    (h : word.toList = '-' :: '-' :: body) (hword : Word.ofLong body ≠ .plain) :
    OptionForm word := by
  have hname := Classical.not_not.mp (mt Word.ofLong_eq_plain_iff.mpr hword)
  have hbody := List.takeWhile_append_dropWhile (p := (· != '=')) (l := body)
  cases hrest : body.dropWhile (· != '=') with
  | nil =>
      rw [hrest, List.append_nil] at hbody
      rw [hbody] at hname
      have hspelled : word = "--" ++ String.ofList body := by
        rw [← String.toList_inj, h]
        simp only [String.toList_append, String.toList_ofList]
        rfl
      rw [hspelled]
      exact .long hname
  | cons c value =>
      -- What ends the name is an equals sign.
      have hequals : c = '=' := by
        have hhead := List.head?_dropWhile_not (p := (· != '=')) (l := body)
        rw [hrest] at hhead
        simpa only [List.head?_cons, bne_eq_false_iff_eq] using hhead
      rw [hrest, hequals] at hbody
      generalize body.takeWhile (· != '=') = name at hbody hname
      have hspelled : word = "--" ++ String.ofList name ++ "=" ++ String.ofList value := by
        rw [← String.toList_inj, h, ← hbody]
        simp only [String.toList_append, String.toList_ofList, List.append_assoc]
        rfl
      rw [hspelled]
      exact .longWithValue _ hname

/-- The name of an option behind two hyphens, alone or before an equals sign, is no word of
    the expression. -/
theorem Word.ofString_ne_plain_of_name {word name : String} (hname : name ∈ optionNames)
    (tail : List Char) (htail : tail.takeWhile (· != '=') = [])
    (h : word.toList = '-' :: '-' :: (name.toList ++ tail)) : Word.ofString word ≠ .plain := by
  have hnames : ∀ name ∈ optionNames, name.toList ≠ [] ∧
      name.toList.all (· != '=') = true := by decide
  rcases hnames name hname with ⟨hne, hall⟩
  have hequals := List.all_eq_true.mp hall
  rw [Word.ofString_of_long h fun hnil => hne (List.append_eq_nil_iff.mp hnil).1]
  intro hplain
  rw [Word.ofLong_eq_plain_iff, List.takeWhile_append_of_pos hequals, htail, List.append_nil,
    String.ofList_toList] at hplain
  exact hplain hname

/-- A word belongs to the expression exactly if it does not have the form of an option. -/
theorem Word.ofString_eq_plain_iff {word : String} :
    Word.ofString word = .plain ↔ ¬ OptionForm word := by
  refine ⟨fun hplain hform => ?_, fun hform => Classical.byContradiction fun hword => hform ?_⟩
  · cases hform with
    | endOfOptions => exact absurd hplain nofun
    | cluster hne hletters =>
        rcases Word.ofString_of_letters String.toList_ofList hne hletters with ⟨flags, hflags⟩
        rw [hflags] at hplain
        exact absurd hplain nofun
    | @long name hname =>
        refine Word.ofString_ne_plain_of_name hname [] rfl ?_ hplain
        rw [List.append_nil, String.toList_append]
        rfl
    | @longWithValue name value hname =>
        refine Word.ofString_ne_plain_of_name hname ('=' :: value.toList) rfl ?_ hplain
        simp only [String.toList_append, List.append_assoc]
        rfl
  · -- Each way to read a word as something else than a plain one gives back its form.
    unfold Word.ofString at hword
    split at hword
    · next h =>
        rw [← String.ofList_toList (s := word), h]
        exact .endOfOptions
    · next body hbody h => exact .of_long h hword
    · next letter letters _ _ h =>
        cases hread : (letter :: letters).mapM Flag.ofLetter? with
        | none =>
            rw [hread] at hword
            exact absurd rfl hword
        | some flags =>
            rw [← String.ofList_toList (s := word), h]
            refine .cluster (List.cons_ne_nil _ _) (Flag.mapM_ofLetter?_isSome_iff.mp ?_)
            rw [hread]
            rfl
    · exact absurd rfl hword

/-- An expression of any words. Behind two hyphens its words are joined by spaces as they
    stand, a new evaluator evaluates the text in no fault, and the call ends with its result.
    The two hyphens can be left out if the first word does not have the form of an option, and
    the other words do not matter then. With debug output the text and the reports of the
    evaluator come before what is printed as a result, and nothing else changes. -/
theorem runProgram_words (first : String) (rest : List String) (input : String) :
    let text := " ".intercalate (first :: rest)
    let once := runProgram ("--" :: first :: rest) input
    ∃ ended, Evaluator.new.eval text = .ok ended ∧
      once = .ofResult ended.result ∧
      (¬ OptionForm first → runProgram (first :: rest) input = once) ∧
      ∀ option ∈ ["-d", "--debug"],
        runProgram (option :: "--" :: first :: rest) input =
          { exitCode := once.exitCode
            output :=
              { stdout :=
                  "[INFO] evaluating: " ++ text ++ "\n"
                    ++ unlines (ended.events.map fun event =>
                      "[DEBUG] (1) calc::lang::eval: " ++ event.message)
                    ++ once.output.stdout
                stderr := once.output.stderr } } := by
  dsimp only
  have honce : runProgram ("--" :: first :: rest) input = evaluateOnce false (first :: rest) := by
    rw [runProgram, LineReader.runProgram, readOptions_endOfOptions]
    rfl
  refine ⟨_, (Evaluator.new_sound.eval _).1, ?_, fun hform => ?_, fun option hoption => ?_⟩
  · rw [honce, evaluateOnce_quiet]
    rfl
  · rw [honce, runProgram, LineReader.runProgram,
      readOptions_plain (Word.ofString_eq_plain_iff.mpr hform)]
    rfl
  · have hdebug : runProgram (option :: "--" :: first :: rest) input =
        evaluateOnce true (first :: rest) := by
      rw [List.mem_cons, List.mem_singleton] at hoption
      rcases hoption with rfl | rfl <;> rfl
    rw [hdebug, honce, evaluateOnce_debug, debugLog, unlines_cons]
    rfl

/-- A first word with a hyphen that is no option, and option-like words behind it. -/
theorem runProgram_words_sample :
    ¬ OptionForm "-1" ∧
      runProgram ["-1", "", "--debug"] "" = runProgram ["--", "-1", "", "--debug"] "" ∧
      runProgram ["--", "-1", "", "--debug"] "" =
        .failure "Unexpected token inside factor: debug" := by
  have hform : ¬ OptionForm "-1" := Word.ofString_eq_plain_iff.mp (by decide)
  rcases runProgram_words "-1" ["", "--debug"] "" with ⟨_, -, -, hsame, -⟩
  exact ⟨hform, hsame hform, by decide +kernel⟩

end Calculator
