import Calculator.Proofs.Locality
import Calculator.Proofs.Scanning
import Calculator.Proofs.TwoPhases
import Mathlib.Data.List.Basic

/-!
# Exchanging What Follows

When the tokens at the end of a text can be replaced by others.

Whether the replacement is noticed depends on the state of the machine that comes to it. Much
of that state is not known from the tokens before, but where an operand is due, the last of them
tell so: behind an opening parenthesis or an equals sign a statement begins, behind an operation
an operand is due, and a minus sign is an operation if it follows the end of an operand. Tokens
that no machine in such a place can tell apart can therefore be exchanged, and everything that
is evaluated in front of them, or fails there, is the same.

The tokens in front may be several statements, and the last of them may end at a token near
their end. The next statement then begins there, in a place that is told by the same tokens,
because a statement does not end at a minus sign.

## Main definitions

* `Place`: What is known of a place among tokens.
* `placeBehind`: The place behind some tokens.
* `Machine.StandsAt`: A machine can be in a place.
* `StatementDue`, `OperandDue`: Tokens behind which a statement or an operand is due.
* `Exchangeable`: Tokens that no machine in a place can tell apart.

## Theorems

* `Machine.step_standsAt`: A step leads to the next place.
* `outcome_evaluateFrom_exchange`: Tokens are evaluated alike before exchangeable ones.
* `tokenize_of_operandDue`: The tokens of a text before and behind such a place.
* `Session.eval_exchange`: Texts are evaluated alike that differ in exchangeable tokens.
-/

namespace Calculator

/-- What the tokens before a place tell of it. -/
inductive Place where
  /-- A statement begins. -/
  | statement
  /-- An operand is due. -/
  | operand
  /-- An operand may have ended, and none is due. -/
  | behindOperand
  /-- Nothing is told. -/
  | elsewhere
  deriving DecidableEq, Repr

/-- The place behind one more token. -/
def Place.after (place : Place) : Token → Place
  | .openParen => .statement
  | .equals => .statement
  | .plus => .operand
  | .times => .operand
  | .over => .operand
  | .minus => if place = .behindOperand then .operand else .elsewhere
  | .number _ => .behindOperand
  | .name _ => .behindOperand
  | .closeParen => .behindOperand
  | _ => .elsewhere

/-- The place behind some tokens, where a statement begins with the first of them. -/
def placeBehind (tokens : List Token) : Place :=
  tokens.foldl Place.after .statement

/-- Whether an operand is due in a place. It may be the first of a statement. -/
def Place.IsDue (place : Place) : Prop :=
  place = .statement ∨ place = .operand

namespace Place

variable {place : Place} {token : Token}

/-- Only a minus sign asks for the place before it. -/
theorem after_eq (h : token ≠ .minus) (place place' : Place) :
    place.after token = place'.after token := by
  cases token with
  | minus => exact absurd rfl h
  | _ => rfl

theorem after_of_endsOperand (h : token.endsOperand = true) (place : Place) :
    place.after token = .behindOperand := by
  cases token <;> first | rfl | cases h

/-- Behind the end of an operand, a minus sign is an operation. -/
theorem after_minus (h : token.endsOperand = true) (place : Place) :
    (place.after token).after .minus = .operand :=
  if_pos (after_of_endsOperand h place)

/-- Where an operand is due, the token before has not asked for the next one. -/
theorem looksAhead_of_isDue (h : (place.after token).IsDue) : token.looksAhead = false := by
  cases token with
  | name name => exact h.elim (nomatch ·) (nomatch ·)
  | letWord => exact h.elim (nomatch ·) (nomatch ·)
  | _ => rfl

end Place

theorem placeBehind_concat (front : List Token) (token : Token) :
    placeBehind (front ++ [token]) = (placeBehind front).after token := by
  rw [placeBehind, List.foldl_append]
  rfl

/-- Tokens behind which a statement is due: there are none, or the last of them is an opening
    parenthesis or an equals sign. -/
def StatementDue (tokens : List Token) : Prop :=
  ∀ last ∈ tokens.getLast?, last = .openParen ∨ last = .equals

/-- Tokens behind which an operand is due: there are none, or the last of them is an opening
    parenthesis, an equals sign, one of `*`, `/` and `+`, or a minus sign behind a token that
    ends an operand. -/
def OperandDue (tokens : List Token) : Prop :=
  ∀ last ∈ tokens.getLast?,
    last ∈ [.openParen, .equals, .times, .over, .plus] ∨
      last = .minus ∧ ∃ before ∈ tokens.dropLast.getLast?, before.endsOperand = true

instance (tokens : List Token) : Decidable (StatementDue tokens) :=
  inferInstanceAs (Decidable (∀ last ∈ tokens.getLast?, _))

instance (tokens : List Token) : Decidable (OperandDue tokens) :=
  inferInstanceAs (Decidable (∀ last ∈ tokens.getLast?, _))

theorem StatementDue.operandDue {tokens : List Token} (h : StatementDue tokens) :
    OperandDue tokens := by
  intro last hlast
  rcases h last hlast with rfl | rfl
  · exact .inl (by decide)
  · exact .inl (by decide)

/-- Where a statement is due, no operand has just ended. -/
theorem OperandDue.operandAfter {tokens : List Token} (h : OperandDue tokens) :
    operandAfter false tokens = false := by
  rw [Calculator.operandAfter]
  cases hlast : tokens.getLast? with
  | none => rfl
  | some last =>
      rcases h last hlast with hmem | ⟨rfl, -⟩
      · simp only [List.mem_cons, List.not_mem_nil, or_false] at hmem
        rcases hmem with rfl | rfl | rfl | rfl | rfl <;> rfl
      · rfl

theorem StatementDue.placeBehind {tokens : List Token} (h : StatementDue tokens) :
    placeBehind tokens = .statement := by
  rcases List.eq_nil_or_concat' tokens with rfl | ⟨front, last, rfl⟩
  · rfl
  · rw [placeBehind_concat]
    rcases h last List.getLast?_concat with rfl | rfl <;> rfl

theorem OperandDue.placeBehind {tokens : List Token} (h : OperandDue tokens) :
    (placeBehind tokens).IsDue := by
  rcases List.eq_nil_or_concat' tokens with rfl | ⟨front, last, rfl⟩
  · exact .inl rfl
  · rw [placeBehind_concat]
    rcases h last List.getLast?_concat with hmem | ⟨rfl, before, hbefore, hends⟩
    · simp only [List.mem_cons, List.not_mem_nil, or_false] at hmem
      rcases hmem with rfl | rfl | rfl | rfl | rfl
      · exact .inl rfl
      · exact .inl rfl
      · exact .inr rfl
      · exact .inr rfl
      · exact .inr rfl
    · -- The token before the minus sign is the last but one.
      rw [List.dropLast_concat] at hbefore
      rcases List.eq_nil_or_concat' front with rfl | ⟨earlier, token, rfl⟩
      · cases hbefore
      · rw [List.getLast?_concat] at hbefore
        obtain rfl := Option.some.inj hbefore
        rw [placeBehind_concat]
        exact .inr (Place.after_minus hends _)

/-- Behind an operand that is supplied none is due. -/
theorem Left.supply_ne_operand (left : Left) {operand : Operand} {phase : Phase}
    (h : left.supply operand = .ok phase) (next : Left) : phase ≠ .operand next := by
  unfold Left.supply at h
  split at h
  · cases h
    exact (nomatch ·)
  · split at h
    · cases h
    · cases h
    · split at h
      · cases h
      · cases h
        exact (nomatch ·)

namespace Machine

/-- Whether a machine can be in a place. -/
def StandsAt (m : Machine) : Place → Prop
  | .statement => m.phase = .operand .start
  | .operand => ∃ left, m.phase = .operand left
  | .behindOperand => ∀ left, m.phase ≠ .operand left
  | .elsewhere => True

variable {m m' : Machine} {place : Place} {token ahead : Token}

theorem StandsAt.exists_left (h : m.StandsAt place) (hdue : place.IsDue) :
    ∃ left, m.phase = .operand left := by
  rcases hdue with rfl | rfl
  · exact ⟨_, h⟩
  · exact h

theorem supply_standsAt {left : Left} {operand : Operand} (h : m.supply left operand = .ok m') :
    m'.StandsAt .behindOperand := by
  unfold supply at h
  split at h
  · next phase hsupply =>
      cases h
      exact left.supply_ne_operand hsupply
  · cases h

theorem enter_standsAt {enclosure : Enclosure} (h : m.enter enclosure = .ok m') :
    m'.StandsAt .statement := by
  unfold enter at h
  split at h
  · cases h
    rfl
  · cases h

theorem startAssignment_standsAt {left : Left} {word name : String}
    (h : m.startAssignment left word (.equals name) ahead = .ok m') :
    m'.StandsAt .behindOperand := by
  unfold startAssignment at h
  split at h
  · exact supply_standsAt h
  · split at h
    · cases h
    · cases h
      exact fun _ => (nomatch ·)

theorem readOperand_standsAt {left : Left} (hplace : place ≠ .behindOperand)
    (h : m.readOperand left token ahead = .ok m') : m'.StandsAt (place.after token) := by
  unfold readOperand at h
  split at h
  · exact supply_standsAt h
  · split at h
    · exact startAssignment_standsAt h
    · split at h
      · exact supply_standsAt h
      · cases h
  · -- Behind the word for assignment nothing is told.
    trivial
  · exact enter_standsAt h
  · -- Here the minus sign is the sign of a number.
    rw [Place.after, if_neg hplace]
    trivial
  · cases h
  · cases h
  · cases h

theorem readOperator_standsAt {sum : WaitingSum} {term : Operand} (place : Place)
    (h : m.readOperator sum term token = .advance m') : m'.StandsAt (place.after token) := by
  rcases readOperator_cases h with
    ⟨op, hproduct, rfl⟩ | ⟨value, op, -, -, hsum, rfl⟩ |
      ⟨value, memory, left, outer, rfl, -, -, hsupply⟩
  · cases token <;> first | exact ⟨_, rfl⟩ | cases hproduct
  · -- Here the minus sign subtracts, whether the tokens tell so or not.
    cases token with
    | plus => exact ⟨_, rfl⟩
    | minus =>
        rw [Place.after]
        split
        · exact ⟨_, rfl⟩
        · trivial
    | _ => cases hsum
  · -- The statement goes on only behind the end of a parenthesis.
    exact supply_standsAt hsupply

/-- A step leads to the next place. -/
theorem step_standsAt (hm : m.StandsAt place) (h : m.step token ahead = .advance m') :
    m'.StandsAt (place.after token) := by
  rcases step_cases h with
    ⟨left, hphase, hread⟩ | ⟨left, value, -, rfl, hsupply⟩ | ⟨sum, term, -, hread⟩ |
      ⟨name, -, rfl, rfl⟩ | ⟨name, -, rfl, henter⟩
  · -- An operand is due, so the machine does not stand behind one.
    refine readOperand_standsAt ?_ hread
    rintro rfl
    exact hm left hphase
  · exact supply_standsAt hsupply
  · exact readOperator_standsAt place hread
  · exact fun _ => (nomatch ·)
  · exact enter_standsAt henter

-- A minus sign goes on with every complete operand.
theorem step_minus_ne_finish (m : Machine) (ahead : Token) (memory : Memory) (value : Binary64) :
    m.step .minus ahead ≠ .finish memory value := by
  intro h
  unfold step at h
  split at h
  · exact Step.ofExcept_ne_finish _ _ _ _ h
  · exact Step.ofExcept_ne_finish _ _ _ _ h
  · unfold readOperator at h
    dsimp only [Token.productOp?, Token.sumOp?] at h
    split at h <;> cases h
  · exact Step.ofExcept_ne_finish _ _ _ _ h
  · exact Step.ofExcept_ne_finish _ _ _ _ h

end Machine

/-- Tokens that no machine in a place can tell apart, where an operand is due in the place and
    the text does not end. -/
structure Exchangeable (place : Place) (back back' : List Token) : Prop where
  isDue : place.IsDue
  starts : ∃ token ∈ back.head?, token.isEnd = false
  starts' : ∃ token ∈ back'.head?, token.isEnd = false
  run : ∀ m : Machine, m.StandsAt place → (m.run back).outcome = (m.run back').outcome

/-- A statement ends alike before exchangeable tokens: it has come to them, or it has failed
    before, or else it has ended before, and the tokens that it leaves over lead to the same
    place. -/
theorem Machine.run_exchange {m : Machine} {place : Place} (hm : m.StandsAt place)
    {front back back' : List Token}
    (h : Exchangeable (front.foldl Place.after place) back back') :
    (m.run (front ++ back)).outcome = (m.run (front ++ back')).outcome ∨
      ∃ value memory kept, placeBehind kept = front.foldl Place.after place ∧
        m.run (front ++ back) = { result := .ok value, memory, rest := kept ++ back } ∧
        m.run (front ++ back') = { result := .ok value, memory, rest := kept ++ back' } := by
  -- The place goes along with the machine from token to token.
  induction front generalizing m place with
  | nil => exact .inl (h.run m hm)
  | cons token rest ih =>
      -- The token behind this one is the same, or it does not matter.
      have hahead : m.step token ((rest ++ back').headD .endOfText) =
          m.step token ((rest ++ back).headD .endOfText) := by
        cases rest with
        | nil => exact step_eq_of_looksAhead m (Place.looksAhead_of_isDue h.isDue) _ _
        | cons => rfl
      rw [List.cons_append, List.cons_append, run, run, hahead]
      cases hstep : m.step token ((rest ++ back).headD .endOfText) with
      | advance m' => exact ih (step_standsAt hm hstep) h
      | finish memory value =>
          -- The token is kept for the next statement, which stands in a place of its own.
          refine .inr ⟨value, memory, token :: rest, ?_, rfl, rfl⟩
          have hminus : token ≠ .minus := by
            rintro rfl
            exact step_minus_ne_finish _ _ _ _ hstep
          rw [placeBehind, List.foldl_cons, List.foldl_cons, Place.after_eq hminus place .statement]
      | fail memory e => exact .inl rfl

/-- An evaluation ends alike whose first statement does. -/
theorem outcome_evaluateFrom_congr {memory : Memory} {tokens tokens' : List Token}
    (hstarts : ∃ token ∈ tokens.head?, token.isEnd = false)
    (hstarts' : ∃ token ∈ tokens'.head?, token.isEnd = false)
    (h : (evaluateStatement memory tokens).outcome = (evaluateStatement memory tokens').outcome)
    (last : Option Binary64) :
    (evaluateFrom memory last tokens).outcome = (evaluateFrom memory last tokens').outcome := by
  rcases hstarts with ⟨token, hhead, hend⟩
  rcases hstarts' with ⟨token', hhead', hend'⟩
  obtain ⟨rest, rfl⟩ := List.head?_eq_some_iff.mp hhead
  obtain ⟨rest', rfl⟩ := List.head?_eq_some_iff.mp hhead'
  cases hfirst : (evaluateStatement memory (token :: rest)).result with
  | error e =>
      rw [StatementEnd.outcome, hfirst] at h
      rcases StatementEnd.of_outcome_error h.symm with ⟨hfirst', hmemory⟩
      rw [evaluateFrom_of_error hend hfirst, evaluateFrom_of_error hend' hfirst', hmemory]
      rfl
  | ok value =>
      rw [StatementEnd.outcome, hfirst] at h
      rcases StatementEnd.of_outcome_ok h.symm with ⟨hfirst', hmemory, hrest⟩
      rw [evaluateFrom_of_ok hend hfirst, evaluateFrom_of_ok hend' hfirst', hmemory, hrest]

/-- Tokens are evaluated alike before exchangeable ones. -/
theorem outcome_evaluateFrom_exchange {front back back' : List Token}
    (h : Exchangeable (placeBehind front) back back') (memory : Memory)
    (last : Option Binary64) :
    (evaluateFrom memory last (front ++ back)).outcome =
      (evaluateFrom memory last (front ++ back')).outcome := by
  induction hlength : front.length using Nat.strongRecOn generalizing front memory last with
  | _ length ih =>
      cases front with
      | nil => exact outcome_evaluateFrom_congr h.starts h.starts' (h.run _ rfl) last
      | cons token rest =>
          rw [List.cons_append, List.cons_append]
          by_cases hend : token.isEnd = true
          · -- Nothing behind the end of the text is evaluated.
            rw [evaluateFrom_of_isEnd hend, evaluateFrom_of_isEnd hend]
            rfl
          · rw [Bool.not_eq_true] at hend
            have hstart : (Machine.start memory).StandsAt .statement := rfl
            rcases Machine.run_exchange hstart h with
              hsame | ⟨value, memory', kept, hkept, hrun, hrun'⟩
            · exact outcome_evaluateFrom_congr ⟨token, rfl, hend⟩ ⟨token, rfl, hend⟩ hsame last
            · -- The next statement begins with the tokens that are kept of those in front.
              have hfirst : evaluateStatement memory (token :: (rest ++ back)) = _ := hrun
              have hfirst' : evaluateStatement memory (token :: (rest ++ back')) = _ := hrun'
              have hplace : placeBehind kept = placeBehind (token :: rest) := hkept
              have hlt : kept.length < length := by
                have hshorter := evaluateStatement_rest_length_lt (congrArg _ hfirst)
                rw [hfirst, ← List.cons_append, List.length_append, List.length_append,
                  hlength] at hshorter
                exact Nat.lt_of_add_lt_add_right hshorter
              rw [evaluateFrom_of_ok hend (congrArg _ hfirst),
                evaluateFrom_of_ok hend (congrArg _ hfirst'), hfirst, hfirst']
              rw [← hplace] at h
              exact ih _ hlt h memory' (some value) rfl

/-- The tokens of a text in which a character that goes on with no numeral and no word stands
    where an operand is due. -/
theorem tokenize_of_operandDue {text before : String} {c : Char} {back : List Char}
    (htext : text.toList = before.toList ++ c :: back) (hnumeral : isNumeralChar c = false)
    (hword : isAlphabetic c = false) (hdue : OperandDue (Scanner.ofText before).tokens) :
    tokenize text = (Scanner.ofText before).tokens ++
      (Scanner.tokensOf false (c :: back) ++ [.endOfText, .endOfText]) := by
  have hscan := Scanner.tokensOf_append_stop hnumeral hword false before.toList back
  have hafter : operandAfter false (Scanner.tokensOf false before.toList) = false :=
    hdue.operandAfter
  rw [hafter, ← htext] at hscan
  rw [← List.append_assoc]
  exact congrArg (· ++ [Token.endOfText, Token.endOfText]) hscan

/-- Texts are evaluated alike that differ in exchangeable tokens at their ends: with the same
    result, the same reports behind that of the number of tokens, and the same store. -/
theorem Session.eval_exchange (s : Session) {text text' : String} {front back back' : List Token}
    (h : Exchangeable (placeBehind front) back back') (htokens : tokenize text = front ++ back)
    (htokens' : tokenize text' = front ++ back') :
    (s.eval text).result = (s.eval text').result ∧
      (s.eval text).events.tail = (s.eval text').events.tail ∧
      (s.eval text).session.store = (s.eval text').session.store := by
  -- The message about the text is the first event, and the only one that tells the texts apart.
  have houtcome := outcome_evaluateFrom_exchange h (.ofStore s.store) none
  rw [← htokens, ← htokens'] at houtcome
  have hresult : (evaluate s.store (tokenize text)).result =
      (evaluate s.store (tokenize text')).result := congrArg Prod.fst houtcome
  have hmemory : (evaluate s.store (tokenize text)).memory =
      (evaluate s.store (tokenize text')).memory := congrArg Prod.snd houtcome
  refine ⟨hresult, ?_, ?_⟩
  · change (evaluate s.store (tokenize text)).memory.assignments.map .assigned ++
      resultEvents (evaluate s.store (tokenize text)).result = _
    rw [hresult, hmemory]
    rfl
  · change recordResult (evaluate s.store (tokenize text)).memory.store
      (evaluate s.store (tokenize text)).result = _
    rw [hresult, hmemory]
    rfl

end Calculator
