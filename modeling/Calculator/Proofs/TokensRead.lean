import Calculator.Proofs.Evaluators
import Calculator.Proofs.Locality
import Mathlib.Data.List.Basic

/-!
# The Tokens that Are Read

A run depends on no token behind the one at which its cursor stops.

The machine looks one token ahead, so a run has in general seen one token more than it has
taken. That token is the one at the cursor: the look ahead is made from a token that is taken,
and a token that ends the statement is looked at where it is and left over. There are two places
where the argument might break. A statement that fails takes the token it complains about, so
that the cursor is behind it, unless it is the mark of the end, which stays. And the look ahead
from the mark itself would go too far, but the mark does not ask for the next token.

So other tokens that are the same up to the cursor, with the one at the cursor included, lead to
the same run: the same end, the same writes and the same number of tokens taken. This holds for
one statement by induction on its tokens, and for statements in a row since each of them begins
at the token at which the one before has stopped.

## Main definitions

* `SameUpTo`: Tokens that are the same up to an index.

## Theorems

* `Machine.run_of_sameUpTo`: One statement.
* `evaluateFrom_of_sameUpTo`: Statements one after the other.
* `Session.run_load_of_sameUpTo`: The run of a text.
* `Evaluator.run_failed_of_sameUpTo`: A failure depends only on what was read.
-/

namespace Calculator

/-- Two lists of tokens with the same tokens up to an index, that of the index included. -/
def SameUpTo (index : Nat) (tokens tokens' : List Token) : Prop :=
  ∀ i ≤ index, tokens[i]? = tokens'[i]?

instance (index : Nat) (tokens tokens' : List Token) : Decidable (SameUpTo index tokens tokens') :=
  inferInstanceAs (Decidable (∀ i ≤ index, tokens[i]? = tokens'[i]?))

namespace SameUpTo

variable {index : Nat} {tokens tokens' rest : List Token} {token : Token}

theorem mono (h : SameUpTo index tokens tokens') {smaller : Nat} (hle : smaller ≤ index) :
    SameUpTo smaller tokens tokens' :=
  fun i hi => h i (Nat.le_trans hi hle)

theorem headD_eq (h : SameUpTo index tokens tokens') (token : Token) :
    tokens.headD token = tokens'.headD token := by
  have hhead := h 0 (Nat.zero_le index)
  rw [List.headD_eq_head?_getD, List.headD_eq_head?_getD, List.head?_eq_getElem?,
    List.head?_eq_getElem?, hhead]

theorem eq_nil (h : SameUpTo index [] tokens') : tokens' = [] := by
  have hhead := h 0 (Nat.zero_le index)
  cases tokens' with
  | nil => rfl
  | cons => cases hhead

theorem exists_cons (h : SameUpTo index (token :: rest) tokens') :
    ∃ rest', tokens' = token :: rest' := by
  have hhead := h 0 (Nat.zero_le index)
  cases tokens' with
  | nil => cases hhead
  | cons token' rest' =>
      rw [List.getElem?_cons_zero, List.getElem?_cons_zero, Option.some.injEq] at hhead
      exact ⟨rest', by rw [hhead]⟩

theorem drop {count : Nat} (h : SameUpTo (count + index) tokens tokens') :
    SameUpTo index (tokens.drop count) (tokens'.drop count) := by
  intro i hi
  rw [List.getElem?_drop, List.getElem?_drop]
  exact h (count + i) (by omega)

theorem le_length (h : SameUpTo index tokens tokens') (hle : index ≤ tokens.length) :
    index ≤ tokens'.length := by
  cases index with
  | zero => exact Nat.zero_le _
  | succ i =>
      have hlast := h i (Nat.le_succ i)
      rw [List.getElem?_eq_getElem hle] at hlast
      exact (List.getElem?_eq_some_iff.mp hlast.symm).1

end SameUpTo

/-- A statement ends in the same way before other tokens that are the same up to the first one
    that it leaves over. -/
theorem Machine.run_of_sameUpTo {m : Machine} {tokens tokens' : List Token} {read : Nat}
    (hread : read + (m.run tokens).rest.length = tokens.length)
    (hsame : SameUpTo read tokens tokens') :
    m.run tokens' = { m.run tokens with rest := tokens'.drop read } := by
  -- The induction is on the tokens that are known, and what is read is counted from each of them.
  induction tokens generalizing m tokens' read with
  | nil =>
      rw [hsame.eq_nil, List.drop_nil]
      rfl
  | cons token rest ih =>
      rcases hsame.exists_cons with ⟨rest', rfl⟩
      cases hstep : m.step token (rest.headD .endOfText) with
      | advance m' =>
          have hrun : m.run (token :: rest) = m'.run rest := by rw [run, hstep]
          rw [hrun, List.length_cons] at hread
          -- The token is taken, so the look at the next one is inside what is the same.
          have hle := (m'.run_rest_suffix rest).length_le
          obtain ⟨read, rfl⟩ : ∃ read', read = 1 + read' := ⟨read - 1, by omega⟩
          have hrest : SameUpTo read rest rest' := hsame.drop
          rw [hrun, run, ← hrest.headD_eq, hstep, Nat.add_comm, List.drop_succ_cons]
          exact ih (by omega) hrest
      | finish memory value =>
          have hrun : m.run (token :: rest) =
              { result := .ok value, memory, rest := token :: rest } := by rw [run, hstep]
          rw [hrun] at hread ⊢
          -- The token is left over, and the step has not looked behind it.
          obtain rfl : read = 0 := by
            dsimp only at hread
            omega
          rw [run, step_eq_finish_of_ahead hstep]
          rfl
      | fail memory e =>
          have hrun : m.run (token :: rest) =
              { result := .error e, memory, rest := restAfterFailure token rest } := by
            rw [run, hstep]
          rw [hrun] at hread ⊢
          dsimp only at hread ⊢
          cases hend : token.isEnd with
          | true =>
              rw [restAfterFailure, if_pos hend] at hread
              obtain rfl : read = 0 := by omega
              -- The mark of the end is left over, but it does not ask for the next token.
              have hmark : token.looksAhead = false := by
                rw [Token.isEnd_iff.mp hend]
                rfl
              rw [run, step_eq_of_looksAhead m hmark, hstep, restAfterFailure, if_pos hend]
              rfl
          | false =>
              -- Any other token is taken, so the next one is the same.
              have hne := ne_true_of_eq_false hend
              rw [restAfterFailure, if_neg hne, List.length_cons] at hread
              obtain rfl : read = 1 + 0 := by omega
              have hrest : SameUpTo 0 rest rest' := hsame.drop
              rw [run, ← hrest.headD_eq, hstep, restAfterFailure, if_neg hne]
              rfl

/-- Statements in a row end in the same way before other tokens that are the same up to the first
    one that they leave over. -/
theorem evaluateFrom_of_sameUpTo {memory : Memory} {last : Option Binary64}
    {tokens tokens' : List Token} {read : Nat}
    (hread : read + (evaluateFrom memory last tokens).rest.length = tokens.length)
    (hsame : SameUpTo read tokens tokens') :
    evaluateFrom memory last tokens' =
      { evaluateFrom memory last tokens with rest := tokens'.drop read } := by
  fun_induction evaluateFrom memory last tokens generalizing tokens' read
  case case1 => rw [hsame.eq_nil, List.drop_nil, evaluateFrom]
  case case2 memory last token rest hend =>
    rcases hsame.exists_cons with ⟨rest', rfl⟩
    obtain rfl : read = 0 := by
      dsimp only at hread
      omega
    rw [evaluateFrom_of_isEnd hend]
    rfl
  case case3 memory last token rest hend ended error hfirst =>
    rcases hsame.exists_cons with ⟨rest', rfl⟩
    rw [Bool.not_eq_true] at hend
    have hrun : evaluateStatement memory (token :: rest') = _ :=
      Machine.run_of_sameUpTo hread hsame
    have hfirst' : (evaluateStatement memory (token :: rest')).result = .error error := by
      rw [hrun]
      exact hfirst
    rw [evaluateFrom_of_error hend hfirst', hrun]
    rfl
  case case4 memory last token rest hend ended value hfirst hlt ih =>
    rcases hsame.exists_cons with ⟨rest', rfl⟩
    rw [Bool.not_eq_true] at hend
    -- The first statement takes some of the tokens that are read, and the later ones the others.
    have hle := (evaluateFrom_rest_suffix ended.memory (some value) ended.rest).length_le
    obtain ⟨front, hfront⟩ : ended.rest <:+ token :: rest := Machine.run_rest_suffix _ _
    have htaken : front.length + ended.rest.length = (token :: rest).length := by
      rw [← hfront, List.length_append]
    have hdrop : (token :: rest).drop front.length = ended.rest := by
      rw [← hfront, List.drop_left]
    obtain ⟨later, rfl⟩ : ∃ later, read = front.length + later :=
      ⟨read - front.length, by omega⟩
    have hrun : evaluateStatement memory (token :: rest') = _ :=
      Machine.run_of_sameUpTo htaken (hsame.mono (Nat.le_add_right _ later))
    have hfirst' : (evaluateStatement memory (token :: rest')).result = .ok value := by
      rw [hrun]
      exact hfirst
    have hlater : SameUpTo later ((token :: rest).drop front.length) _ := hsame.drop
    rw [hdrop] at hlater
    have hended := ih (by omega) hlater
    rw [List.drop_drop] at hended
    rw [evaluateFrom_of_ok hend hfirst', hrun]
    exact hended

/-- A run of a text goes the same way for every text whose tokens are the same up to the one at
    which the cursor stops. -/
theorem Session.run_load_of_sameUpTo (s s' : Session) {text text' : String}
    (hsame : SameUpTo (s.load text).run.session.cursor (tokenize text) (tokenize text'))
    (hstore : s'.store = s.store) :
    (s'.load text').run =
      { (s.load text).run with
        session := { (s.load text).run.session with tokens := tokenize text' } } := by
  -- The cursor is told from the number of tokens that are left over.
  have hcursor : (s.load text).run.session.cursor =
      (tokenize text).length - (evaluate s.store (tokenize text)).rest.length := rfl
  have hle := (evaluateFrom_rest_suffix (.ofStore s.store) none (tokenize text)).length_le
  rw [← evaluate] at hle
  have hended : evaluate s'.store (tokenize text') =
      { evaluate s.store (tokenize text) with
        rest := (tokenize text').drop (s.load text).run.session.cursor } := by
    rw [hstore]
    exact evaluateFrom_of_sameUpTo (by rw [← evaluate]; omega) hsame
  exact Session.run_of_evaluate (hsame.le_length (by omega)) hended

/-- A failure depends only on what was read: a text whose tokens are the same up to the one at
    which the cursor has stopped fails in the same way, with the same reports, the same store and
    the cursor at the same place. -/
theorem Evaluator.run_failed_of_sameUpTo {e e' : Evaluator} {text text' : String}
    {ended : Ended} {error : EvalError} (hrun : (e.load text).run = .ok ended)
    (herror : ended.result = .error error)
    (hsame : SameUpTo ended.evaluator.position (e.load text).tokens (e'.load text').tokens)
    (hstore : e'.store = e.store) :
    ∃ ended', (e'.load text').run = .ok ended' ∧ ended'.result = .error error ∧
      ended'.events = ended.events ∧ ended'.evaluator.store = ended.evaluator.store ∧
      ended'.evaluator.position = ended.evaluator.position := by
  obtain rfl : ended = .ofAnswer (e.load text).session.run :=
    Except.ok.inj (hrun.symm.trans ((e.steady_load text).runWith (Nat.le_refl _)).1)
  have hsession : (e'.load text').session.run = _ :=
    Session.run_load_of_sameUpTo e.session e'.session hsame hstore
  refine ⟨_, ((e'.steady_load text').runWith (Nat.le_refl _)).1, ?_⟩
  rw [hsession]
  exact ⟨herror, rfl, rfl, rfl⟩

/-- Two texts that leave a parenthesis open behind an assignment and go on differently. -/
theorem Evaluator.run_failed_of_sameUpTo_sample :
    ∃ ended, (new.load "(a = 1 x + y").run = .ok ended ∧
      ended.result = .error (.unclosedParenthesis (.name "x")) ∧
      SameUpTo ended.evaluator.position (new.load "(a = 1 x + y").tokens
        (new.load "(a = 1 x + (").tokens ∧
      ∃ ended', (new.load "(a = 1 x + (").run = .ok ended' ∧
        ended'.result = .error (.unclosedParenthesis (.name "x")) ∧
        ended'.events = ended.events ∧ ended'.evaluator.store = ended.evaluator.store ∧
        ended'.evaluator.position = ended.evaluator.position := by
  have hrun := ((new.steady_load "(a = 1 x + y").runWith (Nat.le_refl _)).1
  have herror : (Ended.ofAnswer (new.load "(a = 1 x + y").session.run).result =
      .error (.unclosedParenthesis (.name "x")) := by decide +kernel
  have hsame : SameUpTo (Ended.ofAnswer (new.load "(a = 1 x + y").session.run).evaluator.position
      (new.load "(a = 1 x + y").tokens (new.load "(a = 1 x + (").tokens := by decide +kernel
  exact ⟨_, hrun, herror, hsame, run_failed_of_sameUpTo hrun herror hsame rfl⟩

end Calculator
