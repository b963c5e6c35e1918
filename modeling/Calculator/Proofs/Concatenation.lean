import Calculator.Proofs.Noninterference
import Calculator.Proofs.Scanning
import Calculator.Proofs.TwoPhases

/-!
# One Text Behind Another

Two texts with a semicolon between them, evaluated at once or one after the other.

A separator has no token, so the end of the first text leaves no trace in the tokens of
both. The last statement of the first text ends all the same where the second text begins,
if the second begins with a token that goes on with no statement. A text that has a value
by itself begins with such a token, unless it begins with a minus sign: no statement begins
with another operation, with an equals sign or with a closing parenthesis. Behind an operand
a minus sign subtracts, and the two texts are then one statement.

The statements of both texts are thus those of the first followed by those of the second.
What remains between them is `result`, which is written at the end of the first text only if
that is evaluated by itself. A second text that does not mention `result` does not notice,
and at its own end both ways write it.

## Main definitions

* `InARow`: Statements each of which ends where the next begins.

## Theorems

* `parseProgram_inARow`: The statements that are read are in a row.
* `InARow.exchange`: What stands behind them may be exchanged.
* `evaluateFrom_append`: Tokens that have a value are evaluated alike before others that
  begin a statement.
* `eval_append_semicolon`: Two texts with a semicolon between them are evaluated as if one
  after the other, unless the second begins with a minus sign.
-/

namespace Calculator

/-- Statements one behind the other and before some tokens, each nested within the limit
    and ended by what follows it. -/
def InARow : List Statement → List Token → Prop
  | [], _ => True
  | s :: trees, back =>
      s.nesting ≤ nestingLimit ∧ EndsStatement (trees.flatMap Statement.tokens ++ back) ∧
        Detached s.tokens (trees.flatMap Statement.tokens ++ back) ∧ InARow trees back

/-- The statements that are read are in a row before the end of the text. -/
theorem parseProgram_inARow {tokens : List Token} {trees : List Statement}
    (hend : .endOfText ∈ tokens) (h : parseProgram tokens = some trees) :
    ∃ rest, trees.flatMap Statement.tokens ++ .endOfText :: rest = tokens ∧
      InARow trees (.endOfText :: rest) := by
  fun_induction parseProgram tokens generalizing trees with
  | case1 => cases hend
  | case2 token rest htoken =>
      cases h
      rw [Token.isEnd_iff.mp htoken]
      exact ⟨rest, rfl, trivial⟩
  | case3 => cases h
  | case4 token rest htoken s rest' hlt hfirst hlt' ih =>
      -- The first statement fits what it leaves over, which begins with the next one.
      rcases Option.map_eq_some_iff.mp h with ⟨trees', htrees, rfl⟩
      rcases parseStatement_fits _ _ hfirst with ⟨hfits, hproduct, hsum⟩
      have htokens := parseStatement_tokens _ _ hfirst
      have hmem := Statement.endOfText_mem_rest hend htokens
      have hends := endsStatement_of_ne_nil (List.ne_nil_of_mem hmem) hproduct hsum
      have hdetached := hfits.detached
      rcases ih hmem htrees with ⟨back, hback, hrow⟩
      dsimp only at hends hdetached htokens
      rw [← hback] at hends hdetached
      refine ⟨back, ?_, hfits.nesting_le, hends, hdetached, hrow⟩
      rw [List.flatMap_cons, List.append_assoc, hback, htokens]

/-- Statements in a row are evaluated as their trees are, and what stands behind them is
    evaluated next. -/
theorem outcome_evaluateFrom_of_inARow {trees : List Statement} {back : List Token}
    (h : InARow trees back) (memory : Memory) (last : Option Binary64) :
    (evaluateFrom memory last (trees.flatMap Statement.tokens ++ back)).outcome =
      (evaluateTrees memory last trees).andThen fun last memory' =>
        (evaluateFrom memory' last back).outcome := by
  induction trees generalizing memory last with
  | nil => rfl
  | cons s trees ih =>
      rcases h with ⟨hnesting, hends, hdetached, hrow⟩
      rw [List.flatMap_cons, List.append_assoc,
        outcome_evaluateFrom_of_tokens hnesting hends hdetached, evaluateTrees,
        Evaluated.andThen_assoc]
      congr 1
      funext value memory'
      exact ih hrow memory' (some value)

/-- Tokens that can stand behind a statement and are not part of it. -/
structure Begins (back : List Token) : Prop where
  endsStatement : EndsStatement back
  ne_equals : back.head? ≠ some .equals

theorem EndsStatement.of_head? {rest rest' : List Token} (h : EndsStatement rest)
    (hhead : rest'.head? = rest.head?) : EndsStatement rest' := by
  cases rest with
  | nil => exact h.elim
  | cons token rest =>
      cases rest' with
      | nil => cases hhead
      | cons token' rest' =>
          rw [List.head?_cons, List.head?_cons] at hhead
          rw [Option.some.inj hhead]
          exact h

/-- What stands behind statements in a row may be exchanged for the beginning of another. -/
theorem InARow.exchange {trees : List Statement} {back back' : List Token}
    (h : InARow trees back) (hbegins : Begins back') : InARow trees back' := by
  induction trees with
  | nil => trivial
  | cons s trees ih =>
      rcases h with ⟨hnesting, hends, hdetached, hrow⟩
      cases trees with
      | nil => exact ⟨hnesting, hbegins.endsStatement, fun _ _ => hbegins.ne_equals, trivial⟩
      | cons s' trees =>
          -- The next statement stands between, and only its first token is looked at.
          have hhead (back : List Token) :
              ((s' :: trees).flatMap Statement.tokens ++ back).head? = s'.tokens.head? := by
            rw [List.flatMap_cons, List.append_assoc]
            cases htokens : s'.tokens with
            | nil => exact absurd htokens s'.tokens_ne_nil
            | cons token tokens => rfl
          refine ⟨hnesting, hends.of_head? ?_, fun name hname => ?_, ih hrow⟩
          · rw [hhead, hhead]
          · rw [hhead, ← hhead back]
            exact hdetached name hname

-- A mark that is in neither of two lists divides what they begin.
theorem append_cons_inj_of_notMem {α : Type} {mark : α} {front front' back back' : List α}
    (hfront : mark ∉ front) (hfront' : mark ∉ front')
    (h : front ++ mark :: back = front' ++ mark :: back') : front = front' ∧ back = back' := by
  induction front generalizing front' with
  | nil =>
      cases front' with
      | nil => exact ⟨rfl, (List.cons.inj h).2⟩
      | cons a rest =>
          rw [(List.cons.inj h).1] at hfront'
          exact absurd List.mem_cons_self hfront'
  | cons a rest ih =>
      rw [List.mem_cons, not_or] at hfront
      cases front' with
      | nil => exact absurd (List.cons.inj h).1.symm hfront.1
      | cons a' rest' =>
          rw [List.mem_cons, not_or] at hfront'
          rcases ih hfront.2 hfront'.2 (List.cons.inj h).2 with ⟨hrest, hback⟩
          rw [(List.cons.inj h).1, hrest]
          exact ⟨rfl, hback⟩

/-- Tokens that have a value are evaluated alike before tokens that begin a statement, which
    are evaluated next. -/
theorem evaluateFrom_append {front rest back : List Token} (hfront : .endOfText ∉ front)
    (hbegins : Begins back) {memory : Memory} {last last' : Option Binary64}
    (h : (evaluateFrom memory last (front ++ .endOfText :: rest)).result = .ok last') :
    (evaluateFrom memory last (front ++ back)).outcome =
      (evaluateFrom (evaluateFrom memory last (front ++ .endOfText :: rest)).memory last'
        back).outcome := by
  have hend : Token.endOfText ∈ front ++ .endOfText :: rest :=
    List.mem_append_right _ List.mem_cons_self
  cases hparse : parseProgram (front ++ .endOfText :: rest) with
  | none =>
      -- Tokens that are refused have no value.
      rcases evaluateFrom_failed_of_parseProgram hend hparse memory last with ⟨e, he⟩
      rw [EvaluationEnd.outcome, h] at he
      cases he
  | some trees =>
      -- No statement has the mark of the end, so the statements are all of `front`.
      rcases parseProgram_inARow hend hparse with ⟨rest', htokens, hrow⟩
      have hmark : Token.endOfText ∉ trees.flatMap Statement.tokens := by
        rw [List.mem_flatMap]
        rintro ⟨s, -, hs⟩
        exact s.endOfText_notMem hs
      rcases append_cons_inj_of_notMem hmark hfront htokens with ⟨rfl, -⟩
      have houtcome := outcome_evaluateFrom_of_parseProgram hend hparse memory last
      rw [outcome_evaluateFrom_of_inARow (hrow.exchange hbegins), ← houtcome,
        EvaluationEnd.outcome, h, Evaluated.andThen_ok]

/-- A statement that has a value begins with no token that could go on with another, unless
    it begins with a minus sign. -/
theorem begins_of_evaluateStatement_ok {memory : Memory} {token : Token} {rest : List Token}
    {value : Binary64} (h : (evaluateStatement memory (token :: rest)).result = .ok value)
    (hminus : token ≠ .minus) (back : List Token) : Begins (token :: back) := by
  match token, h with
  | .minus, _ => exact absurd rfl hminus
  | .equals, h => cases h
  | .plus, h => cases h
  | .times, h => cases h
  | .over, h => cases h
  | .number _, _ => exact ⟨⟨rfl, rfl⟩, fun h => by cases h⟩
  | .name _, _ => exact ⟨⟨rfl, rfl⟩, fun h => by cases h⟩
  | .letWord, _ => exact ⟨⟨rfl, rfl⟩, fun h => by cases h⟩
  | .openParen, _ => exact ⟨⟨rfl, rfl⟩, fun h => by cases h⟩
  | .closeParen, _ => exact ⟨⟨rfl, rfl⟩, fun h => by cases h⟩
  | .endOfText, _ => exact ⟨⟨rfl, rfl⟩, fun h => by cases h⟩
  | .malformed _, _ => exact ⟨⟨rfl, rfl⟩, fun h => by cases h⟩

-- The value of the statement before is forgotten at the next statement.
theorem evaluateFrom_last {token : Token} (hend : token.isEnd = false) (memory : Memory)
    (last last' : Option Binary64) (rest : List Token) :
    evaluateFrom memory last (token :: rest) = evaluateFrom memory last' (token :: rest) := by
  cases h : (evaluateStatement memory (token :: rest)).result with
  | error e => rw [evaluateFrom_of_error hend h, evaluateFrom_of_error hend h]
  | ok value => rw [evaluateFrom_of_ok hend h, evaluateFrom_of_ok hend h]

/-- Tokens that have a value begin a statement, unless they begin with a minus sign. -/
theorem begins_of_evaluateFrom_ok {memory : Memory} {tokens : List Token} {value : Binary64}
    (h : (evaluateFrom memory none tokens).result = .ok (some value))
    (hminus : tokens.head? ≠ some .minus) :
    Begins tokens ∧ ∀ last, evaluateFrom memory last tokens = evaluateFrom memory none tokens := by
  cases tokens with
  | nil =>
      rw [evaluateFrom] at h
      cases h
  | cons token rest =>
      have htoken : token ≠ .minus := fun heq => hminus (congrArg some heq)
      -- An end at the front leaves the result before it, which is none.
      by_cases hend : token.isEnd = true
      · rw [evaluateFrom_of_isEnd hend] at h
        cases h
      · rw [Bool.not_eq_true] at hend
        refine ⟨?_, fun last => evaluateFrom_last hend memory last none rest⟩
        cases hfirst : (evaluateStatement memory (token :: rest)).result with
        | error e =>
            rw [evaluateFrom_of_error hend hfirst] at h
            cases h
        | ok x => exact begins_of_evaluateStatement_ok hfirst htoken rest

/-- The tokens of two texts with a semicolon between them, if the second does not begin with
    a minus sign. -/
theorem tokenize_append_semicolon {first second : String}
    (h : (second.toList.dropWhile isSeparator).head? ≠ some '-') :
    tokenize (first ++ ";" ++ second) =
      Scanner.tokensOf false first.toList ++ tokenize second := by
  have htoList : (first ++ ";" ++ second).toList = first.toList ++ ';' :: second.toList := by
    rw [String.toList_append, String.toList_append, List.append_assoc]
    rfl
  have hscan := Scanner.tokensOf_append_separator (c := ';') rfl false first.toList second.toList
  rw [Scanner.tokensOf_eq_of_head?_ne_minus h] at hscan
  rw [← htoList] at hscan
  rw [tokenize, tokenize, ← List.append_assoc]
  exact congrArg (· ++ [Token.endOfText, Token.endOfText]) hscan

theorem head?_tokenize_ne_minus {text : String}
    (h : (text.toList.dropWhile isSeparator).head? ≠ some '-') :
    (tokenize text).head? ≠ some .minus := by
  have hhead := Scanner.head?_tokensOf_ne_minus h false
  have htokens : tokenize text =
      Scanner.tokensOf false text.toList ++ [.endOfText, .endOfText] := rfl
  rw [htokens]
  cases hscan : Scanner.tokensOf false text.toList with
  | nil => exact fun h => by cases h
  | cons token rest =>
      rw [hscan] at hhead
      exact hhead

/-- Two texts with a semicolon between them are evaluated as if one after the other: with the
    same value, and the same variables afterwards. The second does not begin with a minus
    sign, which would subtract, and does not mention `result`, which is not written
    between them. -/
theorem eval_append_semicolon (s : Session) (first second : String) {v w : Binary64}
    (hfirst : (s.eval first).result = .ok (some v))
    (hsecond : ((s.eval first).session.eval second).result = .ok (some w))
    (hresult : Token.name resultName ∉ tokenize second)
    (hminus : (second.toList.dropWhile isSeparator).head? ≠ some '-') :
    (s.eval (first ++ ";" ++ second)).result = .ok (some w) ∧
      ∀ name, (s.eval (first ++ ";" ++ second)).session.get? name =
        ((s.eval first).session.eval second).session.get? name := by
  -- Each evaluation of a text is one of its tokens, with `result` written at the end.
  have hstore {s : Session} {text : String} {value : Binary64}
      (h : (s.eval text).result = .ok (some value)) :
      (s.eval text).session.store =
        (evaluateFrom (.ofStore s.store) none (tokenize text)).memory.store.insert resultName
          value :=
    congrArg (Session.recordResult _) h
  have hvalue : (evaluateFrom (.ofStore s.store) none (tokenize first)).result = .ok (some v) :=
    hfirst
  have hvalue' : (evaluateFrom (.ofStore (s.eval first).session.store) none
      (tokenize second)).result = .ok (some w) := hsecond
  rcases begins_of_evaluateFrom_ok hvalue' (head?_tokenize_ne_minus hminus) with ⟨hbegins, hlast⟩
  have hjoined := evaluateFrom_append (Scanner.endOfText_notMem_tokensOf false first.toList)
    hbegins hvalue
  rw [← tokenize_append_semicolon hminus] at hjoined
  -- The second text finds `result` as it was, or as the first text left it.
  have hothers (name : String) (hname : name ≠ resultName) :
      (evaluateFrom (.ofStore s.store) none (tokenize first)).memory.store.get? name =
        (Memory.ofStore (s.eval first).session.store).store.get? name := by
    rw [hstore hfirst]
    exact ((Store.get?_insert _ _ _ _).trans (if_neg hname)).symm
  rcases evaluateFrom_beside hresult (Memory.beside_start hothers) (some v) with
    ⟨hsame, -, hmemory⟩
  rw [hlast] at hsame hmemory
  have hboth : (s.eval (first ++ ";" ++ second)).result = .ok (some w) :=
    (congrArg Prod.fst hjoined).trans (hsame.trans hvalue')
  refine ⟨hboth, fun name => ?_⟩
  rw [Session.get?, Session.get?, hstore hboth, hstore hsecond, Store.get?_insert,
    Store.get?_insert]
  by_cases hname : name = resultName
  · rw [if_pos hname, if_pos hname]
  · have hjoinedMemory := congrArg (fun ended => ended.2.store.get? name) hjoined
    rw [if_neg hname, if_neg hname, ← hmemory.others name hname]
    exact hjoinedMemory

/-- A text that assigns, and one that begins with the name that was assigned. -/
theorem eval_append_semicolon_sample :
    (Session.new.eval "x = 1").result = .ok (some (.ofBits 0x3ff0000000000000)) ∧
      ((Session.new.eval "x = 1").session.eval "x - 3").result =
        .ok (some (.ofBits 0xc000000000000000)) ∧
      Token.name resultName ∉ tokenize "x - 3" ∧
      ("x - 3".toList.dropWhile isSeparator).head? ≠ some '-' ∧
      (Session.new.eval ("x = 1" ++ ";" ++ "x - 3")).result =
        .ok (some (.ofBits 0xc000000000000000)) := by
  have hfirst : (Session.new.eval "x = 1").result = .ok (some (.ofBits 0x3ff0000000000000)) :=
    eq_ok_of_toOption (by decide +kernel)
  have hsecond : ((Session.new.eval "x = 1").session.eval "x - 3").result =
      .ok (some (.ofBits 0xc000000000000000)) := eq_ok_of_toOption (by decide +kernel)
  have hresult : Token.name resultName ∉ tokenize "x - 3" := by decide +kernel
  have hminus : ("x - 3".toList.dropWhile isSeparator).head? ≠ some '-' := by decide
  exact ⟨hfirst, hsecond, hresult, hminus,
    (eval_append_semicolon Session.new "x = 1" "x - 3" hfirst hsecond hresult hminus).1⟩

/-- Without the condition on the minus sign the two ways differ: `1;-2` is a difference. -/
theorem not_eval_append_semicolon_minus :
    ¬ ∀ (s : Session) (first second : String) (v w : Binary64),
      (s.eval first).result = .ok (some v) →
      ((s.eval first).session.eval second).result = .ok (some w) →
      Token.name resultName ∉ tokenize second →
      (s.eval (first ++ ";" ++ second)).result = .ok (some w) ∧
        ∀ name, (s.eval (first ++ ";" ++ second)).session.get? name =
          ((s.eval first).session.eval second).session.get? name := by
  intro h
  have hfirst : (Session.new.eval "1").result = .ok (some (.ofBits 0x3ff0000000000000)) :=
    eq_ok_of_toOption (by decide +kernel)
  have hsecond : ((Session.new.eval "1").session.eval "-2").result =
      .ok (some (.ofBits 0xc000000000000000)) := eq_ok_of_toOption (by decide +kernel)
  have hresult : Token.name resultName ∉ tokenize "-2" := by decide +kernel
  have hboth := (h Session.new "1" "-2" _ _ hfirst hsecond hresult).1
  -- Together they are one subtraction.
  have hdifference : (Session.new.eval ("1" ++ ";" ++ "-2")).result.toOption ≠
      some (some (.ofBits 0xc000000000000000)) := by decide +kernel
  exact hdifference (congrArg Except.toOption hboth)

end Calculator
