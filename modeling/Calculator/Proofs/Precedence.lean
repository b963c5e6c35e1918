import Calculator.Proofs.Chains
import Calculator.Proofs.TwoPhases

/-!
# Precedence

A chain that is typed in has the value that it has on paper.

The written form of a chain is a list of lexemes, and a text writes them if it has them in
order with separators between them. Separators may be missing beside a parenthesis, which
no lexeme goes on with; elsewhere they keep numerals apart, and they keep a minus sign from
becoming part of the numeral behind it.

Such a text is scanned lexeme by lexeme, and what the scanner remembers between two lexemes
is right at each of them: behind an operation or an opening parenthesis no operand has
ended, so a minus sign that touches a numeral belongs to it, and behind an operand one has,
so a minus sign subtracts. The tokens are therefore those of the tree of the chain, and the
tree has the value of the chain.

## Main definitions

* `Chain.lexemes`: The written form of a chain.
* `Spaced`: The texts that write some lexemes.

## Theorems

* `Spaced.tokensOf_eq`: A text is scanned lexeme by lexeme.
* `Chain.tokensOf_lexemes`: The lexemes of a chain are the written form of its tree.
* `eval_of_spaced`: A text that writes a chain is evaluated to the value of the chain.
-/

namespace Calculator

/-- The character of an operation. -/
def ChainOp.sign : ChainOp → Char
  | .sum .plus => '+'
  | .sum .minus => '-'
  | .product .times => '*'
  | .product .over => '/'

/-- The token of an operation. -/
def ChainOp.token : ChainOp → Token
  | .sum op => op.token
  | .product op => op.token

mutual

/-- The written form of a chain. -/
def Chain.lexemes : Chain → List (List Char)
  | .single x => x.lexemes
  | .join c op x => c.lexemes ++ [op.sign] :: x.lexemes

/-- The written form of an operand. -/
def ChainOperand.lexemes : ChainOperand → List (List Char)
  | .numeral n => [n.text]
  | .negated false n => ['-' :: n.text]
  | .negated true n => [['-'], n.text]
  | .group c => ['('] :: (c.lexemes ++ [[')']])

end

/-- Whether a character is a parenthesis. -/
def isParenthesis (c : Char) : Bool :=
  c == '(' || c == ')'

/-- A lexeme and a text behind it that may stand together: one of the two is a parenthesis
    there, or the text begins with a separator, or nothing follows. -/
def Apart (lexeme text : List Char) : Prop :=
  (∃ c, lexeme = [c] ∧ isParenthesis c = true) ∨
    text.head?.all (fun c => isSeparator c || isParenthesis c) = true

/-- A text that writes some lexemes, with separators before, between and behind them. -/
inductive Spaced : List (List Char) → List Char → Prop where
  | nil (gap : List Char) (hgap : gap.all isSeparator = true) : Spaced [] gap
  | cons (gap lexeme : List Char) {lexemes : List (List Char)} {text : List Char}
      (hgap : gap.all isSeparator = true) (hapart : Apart lexeme text)
      (hrest : Spaced lexemes text) : Spaced (lexeme :: lexemes) (gap ++ (lexeme ++ text))

theorem isNumeralChar_of_isParenthesis {c : Char} (h : isParenthesis c = true) :
    isNumeralChar c = false ∧ isAlphabetic c = false := by
  simp only [isParenthesis, Bool.or_eq_true, beq_iff_eq] at h
  rcases h with rfl | rfl <;> decide

namespace Scanner

/-- A parenthesis is scanned alone. -/
theorem tokensOf_parenthesis {c : Char} (h : isParenthesis c = true) (afterOperand : Bool)
    (text : List Char) :
    tokensOf afterOperand (c :: text) =
      tokensOf afterOperand [c] ++
        tokensOf (operandAfter afterOperand (tokensOf afterOperand [c])) text := by
  have hstarts (text : List Char) : startsNumeral afterOperand c text = false := by
    rw [startsNumeral, (isNumeralChar_of_isParenthesis h).1]
    simp only [isParenthesis, Bool.or_eq_true, beq_iff_eq] at h
    rcases h with rfl | rfl <;> rfl
  simp only [isParenthesis, Bool.or_eq_true, beq_iff_eq] at h
  rcases h with rfl | rfl
  · rw [tokensOf_punctuation rfl (hstarts text), tokensOf_punctuation rfl (hstarts []),
      tokensOf_nil]
    rfl
  · rw [tokensOf_punctuation rfl (hstarts text), tokensOf_punctuation rfl (hstarts []),
      tokensOf_nil]
    rfl

/-- A lexeme is scanned alone if it stands apart from what is behind it. -/
theorem tokensOf_append_of_apart {lexeme text : List Char} (h : Apart lexeme text)
    (afterOperand : Bool) :
    tokensOf afterOperand (lexeme ++ text) =
      tokensOf afterOperand lexeme ++
        tokensOf (operandAfter afterOperand (tokensOf afterOperand lexeme)) text := by
  -- A parenthesis is a lexeme whatever follows it. Every other lexeme is ended by what follows.
  rcases h with ⟨c, rfl, hc⟩ | hhead
  · exact tokensOf_parenthesis hc afterOperand text
  · cases text with
    | nil => rw [List.append_nil, tokensOf_nil, List.append_nil]
    | cons c rest =>
        rw [List.head?_cons, Option.all_some, Bool.or_eq_true] at hhead
        rcases hhead with hsep | hparen
        · exact tokensOf_append_stop (isNumeralChar_of_isSeparator hsep)
            (isAlphabetic_of_isSeparator hsep) afterOperand lexeme rest
        · rcases isNumeralChar_of_isParenthesis hparen with ⟨hnumeral, hword⟩
          exact tokensOf_append_stop hnumeral hword afterOperand lexeme rest

end Scanner

/-- A text that writes some lexemes is scanned lexeme by lexeme. -/
theorem Spaced.tokensOf_eq {lexemes : List (List Char)} {text : List Char}
    (h : Spaced lexemes text) (afterOperand : Bool) :
    Scanner.tokensOf afterOperand text = Scanner.tokensOfLexemes afterOperand lexemes := by
  induction h generalizing afterOperand with
  | nil gap hgap =>
      have hskip :=
        Scanner.tokensOf_append_of_separators (List.all_eq_true.mp hgap) afterOperand []
      rw [List.append_nil] at hskip
      rw [hskip, Scanner.tokensOf_nil]
      rfl
  | cons gap lexeme hgap hapart _ ih =>
      rw [Scanner.tokensOf_append_of_separators (List.all_eq_true.mp hgap),
        Scanner.tokensOf_append_of_apart hapart, ih, Scanner.tokensOfLexemes]

/-- Behind a factor an operand has ended. -/
theorem Factor.operandAfter_tokens (f : Factor) (afterOperand : Bool) :
    operandAfter afterOperand f.tokens = true := by
  cases f with
  | number value => rfl
  | negated value => rfl
  | name name => rfl
  | group s =>
      rw [Factor.tokens, operandAfter_cons, operandAfter_append]
      rfl

theorem ProductTree.operandAfter_tokens (p : ProductTree) (afterOperand : Bool) :
    operandAfter afterOperand p.tokens = true := by
  cases p with
  | single f => exact f.operandAfter_tokens afterOperand
  | join p op f =>
      rw [ProductTree.tokens, operandAfter_append, operandAfter_cons, f.operandAfter_tokens]

theorem SumTree.operandAfter_tokens (s : SumTree) (afterOperand : Bool) :
    operandAfter afterOperand s.tokens = true := by
  cases s with
  | single p => exact p.operandAfter_tokens afterOperand
  | join s op p =>
      rw [SumTree.tokens, operandAfter_append, operandAfter_cons, p.operandAfter_tokens]

theorem Chain.tokens_tree_join (c : Chain) (op : ChainOp) (x : ChainOperand) :
    (Chain.join c op x).tree.tokens = c.tree.tokens ++ op.token :: x.factor.tokens := by
  cases op with
  | sum op => rfl
  | product op => exact c.tree.tokens_appendFactor op x.factor

/-- The sign of an operation is its token, which ends no operand. -/
theorem ChainOp.tokensOf_sign (op : ChainOp) (afterOperand : Bool) :
    Scanner.tokensOf afterOperand [op.sign] = [op.token] ∧ op.token.endsOperand = false := by
  have hstarts : startsNumeral afterOperand op.sign [] = false := by
    rw [startsNumeral, List.head?_nil, Option.any_none, Bool.and_false, Bool.or_false]
    rcases op with (_ | _) | (_ | _) <;> rfl
  have hpunctuation : Token.ofPunctuation? op.sign = some op.token := by
    rcases op with (_ | _) | (_ | _) <;> rfl
  refine ⟨?_, by rcases op with (_ | _) | (_ | _) <;> rfl⟩
  rw [Scanner.tokensOf_punctuation hpunctuation hstarts, Scanner.tokensOf_nil]

mutual

/-- The lexemes of a chain are the written form of its tree. -/
theorem Chain.tokensOf_lexemes (c : Chain) :
    Scanner.tokensOfLexemes false c.lexemes = c.tree.tokens := by
  match c with
  | .single x => exact x.tokensOf_lexemes
  | .join c op x =>
      rcases op.tokensOf_sign true with ⟨hsign, hends⟩
      -- The sign stands behind an operand, and the operand behind the sign does not.
      rw [Chain.lexemes, Scanner.tokensOfLexemes_append, c.tokensOf_lexemes,
        c.tree.operandAfter_tokens, Scanner.tokensOfLexemes, hsign, operandAfter_cons, hends,
        operandAfter_nil, x.tokensOf_lexemes, Chain.tokens_tree_join, List.singleton_append]

/-- The lexemes of an operand are the written form of its factor. -/
theorem ChainOperand.tokensOf_lexemes (x : ChainOperand) :
    Scanner.tokensOfLexemes false x.lexemes = x.factor.tokens := by
  match x with
  | .numeral n =>
      rw [ChainOperand.lexemes, Scanner.tokensOfLexemes, n.tokensOf_text]
      rfl
  | .negated false n =>
      rw [ChainOperand.lexemes, Scanner.tokensOfLexemes, n.tokensOf_minus_text]
      rfl
  | .negated true n =>
      have hsign : Scanner.tokensOf false ['-'] = [.minus] :=
        ((ChainOp.sum .minus).tokensOf_sign false).1
      rw [ChainOperand.lexemes, Scanner.tokensOfLexemes, hsign, Scanner.tokensOfLexemes,
        n.tokensOf_text]
      rfl
  | .group c =>
      have hopen : Scanner.tokensOf false ['('] = [.openParen] := by
        rw [Scanner.tokensOf_punctuation rfl rfl, Scanner.tokensOf_nil]
      have hclose : Scanner.tokensOf true [')'] = [.closeParen] := by
        rw [Scanner.tokensOf_punctuation rfl rfl, Scanner.tokensOf_nil]
      -- Inside the parentheses a chain is scanned as a text of its own, and an operand ends it.
      have hends : operandAfter false [.openParen] = false := rfl
      rw [ChainOperand.lexemes, Scanner.tokensOfLexemes, hopen, hends,
        Scanner.tokensOfLexemes_append, c.tokensOf_lexemes, c.tree.operandAfter_tokens,
        Scanner.tokensOfLexemes, hclose]
      rfl

end

/-- A text that writes a chain is evaluated to the value of the chain, in any session. If
    the chain divides by zero, the failure names the operands of its first division by
    zero. -/
theorem eval_of_spaced (s : Session) (c : Chain) (text : String)
    (hnesting : c.nesting ≤ nestingLimit) (htext : Spaced c.lexemes text.toList) :
    match c.value with
    | .ok value => (s.eval text).result = .ok (some value)
    | .error d =>
        ∃ e, (s.eval text).result = .error e ∧
          e.message =
            "Attempted division by zero: " ++ d.dividend.text ++ "/" ++ d.divisor.text := by
  -- The text is scanned as the written form of the tree, which is its only statement.
  have htokens : tokenize text = (Statement.sum c.tree).tokens ++ [.endOfText, .endOfText] := by
    have hscan := htext.tokensOf_eq false
    rw [c.tokensOf_lexemes] at hscan
    rw [Statement.tokens, ← hscan]
    rfl
  have hdepth : (Statement.sum c.tree).nesting ≤ nestingLimit := by
    rw [Statement.nesting, c.nesting_tree]
    exact hnesting
  have hresult := s.eval_result_of_statement hdepth htokens
  rw [Statement.evaluate, c.evaluate_tree] at hresult
  cases hvalue : c.value with
  | error d =>
      rw [hvalue] at hresult
      exact ⟨d.toError, hresult, rfl⟩
  | ok value =>
      rw [hvalue] at hresult
      exact hresult

/-- The chain `2 * (3 - -.5)`. -/
def sampleChain : Chain :=
  let two : Numeral := ⟨['2'], none, by decide, by decide, by decide, by decide +kernel⟩
  let three : Numeral := ⟨['3'], none, by decide, by decide, by decide, by decide +kernel⟩
  let half : Numeral := ⟨[], some ['5'], by decide, by decide, by decide, by decide +kernel⟩
  .join (.single (.numeral two)) (.product .times)
    (.group (.join (.single (.numeral three)) (.sum .minus) (.negated false half)))

/-- The sample is seven, with a separator missing beside each parenthesis. -/
theorem eval_of_spaced_sample :
    sampleChain.nesting ≤ nestingLimit ∧
      Spaced sampleChain.lexemes "2 *;(3\t- -.5)".toList ∧
      (Session.new.eval "2 *;(3\t- -.5)").result =
        .ok (some (.ofBits 0x401c000000000000)) := by
  have hnesting : sampleChain.nesting ≤ nestingLimit := by decide
  have hspaced : Spaced sampleChain.lexemes "2 *;(3\t- -.5)".toList :=
    .cons [] ['2'] (by decide) (.inr (by decide)) <|
    .cons [' '] ['*'] (by decide) (.inr (by decide)) <|
    .cons [';'] ['('] (by decide) (.inl ⟨_, rfl, by decide⟩) <|
    .cons [] ['3'] (by decide) (.inr (by decide)) <|
    .cons ['\t'] ['-'] (by decide) (.inr (by decide)) <|
    .cons [' '] ['-', '.', '5'] (by decide) (.inr (by decide)) <|
    .cons [] [')'] (by decide) (.inr (by decide)) <|
    .nil [] (by decide)
  have hvalue : sampleChain.value.toOption = some (.ofBits 0x401c000000000000) := by
    decide +kernel
  have heval := eval_of_spaced Session.new sampleChain "2 *;(3\t- -.5)" hnesting hspaced
  rcases hchain : sampleChain.value with d | value
  · rw [hchain] at hvalue
    cases hvalue
  · rw [hchain] at hvalue heval
    rw [← Option.some.inj hvalue]
    exact ⟨hnesting, hspaced, heval⟩

end Calculator
