import Calculator.Proofs.Locality
import Calculator.Proofs.Parsing

/-!
# What the Parser Refuses

The machine fails on every statement that cannot be read as a tree.

The machine notices most mistakes at the token at which the parser notices them. The
exception is the word for assignment in the place of a factor before `*` or `/`. The
machine takes it for an operand, reads the next factor, and complains only when the two
are multiplied, so everything inside that factor is evaluated first, parentheses and
assignments included. `Spoiled` says that such a complaint is bound to come: a word
waits for a factor somewhere around the machine, and no value can get past it. This is
preserved by every step, and no spoiled machine ends a statement.

With that case settled, the parser and the machine are followed side by side. Wherever
the parser has read a part, the machine either has failed in it or stands behind it with
its value, and the refusal lies further on.

## Main definitions

* `Evaluated.Failed`: An evaluation that has no value.
* `Left.Spoiled`, `Enclosure.Spoiled`, `Machine.Spoiled`: A word waits for a factor.
* `NoAssignment`: Tokens that do not begin with the target of an assignment.

## Theorems

* `Machine.Spoiled.step`: A step of a spoiled machine fails or leaves it spoiled.
* `Machine.Spoiled.run_failed`: A spoiled machine fails.
* `run_failed_of_parseStatement`: What the parser refuses makes the machine fail.
-/

namespace Calculator

/-- An evaluation without a value. -/
def Evaluated.Failed {α : Type} (x : Evaluated α) : Prop :=
  ∃ e, x.1 = .error e

theorem Evaluated.failed_andThen {α β : Type} (x : Evaluated α) {f : α → Memory → Evaluated β}
    (h : ∀ a memory, (f a memory).Failed) : (x.andThen f).Failed := by
  rcases x with ⟨e | a, memory⟩
  · exact ⟨e, rfl⟩
  · exact h a memory

/-- A statement has no value exactly when its result is a failure. -/
theorem StatementEnd.failed_outcome_iff {ended : StatementEnd} :
    ended.outcome.Failed ↔ ∃ e, ended.result = .error e := by
  rw [Evaluated.Failed, outcome]
  cases ended.result with
  | error e => exact ⟨fun _ => ⟨e, rfl⟩, fun _ => ⟨e, rfl⟩⟩
  | ok value =>
      refine ⟨fun h => ?_, fun h => ?_⟩
      · rcases h with ⟨_, h⟩
        cases h
      · rcases h with ⟨_, h⟩
        cases h

/-- A word waits for the factor that is due. -/
def Left.Spoiled (left : Left) : Prop :=
  ∃ word op, left.product = some (.word word, op)

/-- A word waits for the value of a parenthesis. -/
def Enclosure.Spoiled : Enclosure → Prop
  | .parenthesis left => left.Spoiled
  | .assignment _ => False

/-- A word waits for the factor that is due, or for the value of something open. -/
def Waits (left : Left) (enclosing : List Enclosure) : Prop :=
  left.Spoiled ∨ ∃ enclosure ∈ enclosing, enclosure.Spoiled

namespace Machine

/-- A word waits for a factor somewhere around the machine. -/
def Spoiled (m : Machine) : Prop :=
  match m.phase with
  | .operand left => Waits left m.enclosing
  | .negated left => Waits left m.enclosing
  | .operator _ _ => ∃ enclosure ∈ m.enclosing, enclosure.Spoiled
  | .target => ∃ enclosure ∈ m.enclosing, enclosure.Spoiled
  | .equals _ => ∃ enclosure ∈ m.enclosing, enclosure.Spoiled

/-- A step that fails, or leaves a word waiting. -/
def SpoiledStep : Step → Prop
  | .advance m => m.Spoiled
  | .finish _ _ => False
  | .fail _ _ => True

/-- A token that can be read leaves a word waiting if every machine that it leads to
    does. -/
theorem spoiledStep_ofExcept {memory : Memory} {r : Except EvalError Machine}
    (h : ∀ m, r = .ok m → m.Spoiled) : SpoiledStep (.ofExcept memory r) := by
  cases r with
  | ok m => exact h m rfl
  | error e => trivial

/-- No operand gets past a word that waits for it. -/
theorem supply_ne_ok {left : Left} (h : left.Spoiled) (operand : Operand) (phase : Phase) :
    left.supply operand ≠ .ok phase := by
  rcases h with ⟨word, op, hproduct⟩
  rw [Left.supply, hproduct]
  intro h
  cases h

/-- An operand that completes nothing leaves every word around it waiting. -/
theorem supply_spoiled {m m' : Machine} {left : Left} {operand : Operand}
    (hwaits : Waits left m.enclosing) (h : m.supply left operand = .ok m') : m'.Spoiled := by
  unfold supply at h
  split at h
  · next phase hphase =>
      rw [← Except.ok.inj h]
      rcases hwaits with hleft | henclosing
      · exact absurd hphase (supply_ne_ok hleft _ _)
      · cases phase with
        | operand left' => exact .inr henclosing
        | negated left' => exact .inr henclosing
        | operator sum term => exact henclosing
        | target => exact henclosing
        | equals name => exact henclosing
  · cases h

/-- What is entered leaves every word around it waiting. -/
theorem enter_spoiled {m m' : Machine} (enclosure : Enclosure)
    (hwaits : enclosure.Spoiled ∨ ∃ outer ∈ m.enclosing, outer.Spoiled)
    (h : m.enter enclosure = .ok m') : m'.Spoiled := by
  unfold enter at h
  split at h
  · rw [← Except.ok.inj h]
    refine .inr ?_
    rcases hwaits with hself | ⟨outer, hmem, houter⟩
    · exact ⟨enclosure, List.mem_cons_self, hself⟩
    · exact ⟨outer, List.mem_cons_of_mem _ hmem, houter⟩
  · cases h

/-- The beginning of an assignment leaves every word around it waiting. -/
theorem startAssignment_spoiled {m m' : Machine} {left : Left} {word : String}
    {next : Phase} {ahead : Token} (hnext : next = .target ∨ ∃ name, next = .equals name)
    (hwaits : Waits left m.enclosing)
    (h : m.startAssignment left word next ahead = .ok m') : m'.Spoiled := by
  unfold startAssignment at h
  split at h
  · exact supply_spoiled hwaits h
  · next hproduct =>
      split at h
      · cases h
      · rw [← Except.ok.inj h]
        rcases hwaits with ⟨word', op, hleft⟩ | henclosing
        · -- A word that waits would have been supplied to.
          rw [hleft] at hproduct
          exact absurd rfl hproduct
        · rcases hnext with rfl | ⟨name, rfl⟩
          · exact henclosing
          · exact henclosing

/-- A token in the place of an operand leaves every word around it waiting. -/
theorem readOperand_spoiled {m m' : Machine} {left : Left} {token ahead : Token}
    (hwaits : Waits left m.enclosing) (h : m.readOperand left token ahead = .ok m') :
    m'.Spoiled := by
  unfold readOperand at h
  split at h
  · exact supply_spoiled hwaits h
  · split at h
    · exact startAssignment_spoiled (.inr ⟨_, rfl⟩) hwaits h
    · split at h
      · exact supply_spoiled hwaits h
      · cases h
  · exact startAssignment_spoiled (.inl rfl) hwaits h
  · exact enter_spoiled (.parenthesis left) hwaits h
  · rw [← Except.ok.inj h]
    exact hwaits
  · cases h
  · cases h
  · cases h

/-- A word that waits outside goes on waiting where assignments are closed. -/
theorem closeAssignments_spoiled (value : Binary64) (memory : Memory)
    (enclosing : List Enclosure) (h : ∃ enclosure ∈ enclosing, enclosure.Spoiled) :
    ∃ left outer, (closeAssignments value memory enclosing).2 = some (left, outer) ∧
      Waits left outer := by
  -- Assignments are never spoiled, so the loop cannot pass the parenthesis that is.
  induction enclosing generalizing memory with
  | nil =>
      rcases h with ⟨_, hmem, _⟩
      exact absurd hmem List.not_mem_nil
  | cons enclosure rest ih =>
      rcases h with ⟨spoiled, hmem, hspoiled⟩
      cases enclosure with
      | parenthesis left =>
          refine ⟨left, rest, rfl, ?_⟩
          rcases List.mem_cons.mp hmem with rfl | hmem
          · exact .inl hspoiled
          · exact .inr ⟨spoiled, hmem, hspoiled⟩
      | assignment name =>
          rcases List.mem_cons.mp hmem with rfl | hmem
          · exact hspoiled.elim
          · exact ih (memory.assign name value) ⟨spoiled, hmem, hspoiled⟩

/-- A token behind an operand ends nothing while a word waits outside. -/
theorem readOperator_spoiled {m : Machine} {sum : WaitingSum} {term : Operand} {token : Token}
    (h : ∃ enclosure ∈ m.enclosing, enclosure.Spoiled) :
    SpoiledStep (m.readOperator sum term token) := by
  unfold readOperator
  split
  · exact .inr h
  split
  · trivial
  split
  · exact .inr h
  · next value _ _ _ =>
      rcases closeAssignments_spoiled (sum.total value) m.memory m.enclosing h with
        ⟨left, outer, hclose, hwaits⟩
      unfold closeSum
      split
      · next hnone =>
          rw [hnone] at hclose
          cases hclose
      · next hsome =>
          rw [hsome] at hclose
          cases hclose
          split
          · exact spoiledStep_ofExcept (fun _ => supply_spoiled hwaits)
          · trivial

/-- A step of a spoiled machine fails or leaves it spoiled. -/
theorem Spoiled.step {m : Machine} (h : m.Spoiled) (token ahead : Token) :
    SpoiledStep (m.step token ahead) := by
  rcases m with ⟨memory, enclosing, phase⟩
  -- A word that waits for a factor stays until a number is supplied, and then the multiplication
  -- fails. So no phase loses it.
  cases phase with
  | operand left => exact spoiledStep_ofExcept (fun _ => readOperand_spoiled h)
  | negated left =>
      refine spoiledStep_ofExcept (fun m' hread => ?_)
      unfold readNegated at hread
      split at hread
      · exact supply_spoiled h hread
      · cases hread
  | operator sum term => exact readOperator_spoiled h
  | target =>
      refine spoiledStep_ofExcept (fun m' hread => ?_)
      unfold readTarget at hread
      split at hread
      · rw [← Except.ok.inj hread]
        exact h
      · cases hread
  | equals name =>
      refine spoiledStep_ofExcept (fun m' hread => ?_)
      unfold readEquals at hread
      split at hread
      · exact enter_spoiled (.assignment name) (.inr h) hread
      · cases hread

/-- A spoiled machine fails. -/
theorem Spoiled.run_failed {m : Machine} (h : m.Spoiled) (tokens : List Token) :
    (m.run tokens).outcome.Failed := by
  rw [StatementEnd.failed_outcome_iff]
  -- The invariant is `Spoiled`, which no step loses and no finished machine has.
  induction tokens generalizing m with
  | nil => exact ⟨_, rfl⟩
  | cons token rest ih =>
      have hstep := h.step token (rest.headD .endOfText)
      unfold run
      split
      · next hadvance =>
          rw [hadvance] at hstep
          exact ih hstep
      · next hfinish =>
          rw [hfinish] at hstep
          exact hstep.elim
      · exact ⟨_, rfl⟩

end Machine

/-- Tokens that do not begin with the target of an assignment, in either spelling. -/
structure NoAssignment (tokens : List Token) : Prop where
  bare : ∀ name rest, tokens ≠ .name name :: .equals :: rest
  spelled : ∀ name rest, tokens ≠ .letWord :: .name name :: .equals :: rest

/-- A token that cannot be read in the place of an operand makes the statement fail. -/
theorem Machine.run_failed_of_readOperand {memory : Memory} {enclosing : List Enclosure}
    {left : Left} {token : Token} {rest : List Token} {e : EvalError}
    (h : readOperand { memory, enclosing, phase := .operand left } left token
      (rest.headD .endOfText) = .error e) :
    (run { memory, enclosing, phase := .operand left } (token :: rest)).outcome.Failed := by
  have hstep : step { memory, enclosing, phase := .operand left } token
      (rest.headD .endOfText) = .fail memory e := by
    simp only [step, h, Step.ofExcept]
  exact ⟨e, congrArg Prod.fst (outcome_run_of_fail hstep)⟩

/-- A word that cannot be the target of an assignment makes the statement fail. -/
theorem Machine.startAssignment_eq_error (m : Machine) {left : Left} (word : String)
    (next : Phase) {ahead : Token} (hleft : left ≠ .start) (hahead : ahead.productOp? = none) :
    ∃ e, m.startAssignment left word next ahead = .error e := by
  rcases left with ⟨sum, product⟩
  cases product with
  | some waiting =>
      rcases waiting with ⟨factor, op⟩
      cases factor <;> exact ⟨_, rfl⟩
  | none =>
      cases sum with
      | some waiting =>
          refine ⟨.notANumber word, ?_⟩
          rw [startAssignment, hahead]
          rfl
      | none => exact absurd rfl hleft

/-- A machine behind the word for assignment fails unless a name and an equals sign
    follow. -/
theorem Machine.run_target_failed {memory : Memory} {enclosing : List Enclosure}
    {rest : List Token} (h : ∀ name rest', rest ≠ .name name :: .equals :: rest') :
    (run { memory, enclosing, phase := .target } rest).outcome.Failed := by
  -- A name and an equals sign are the only two tokens that are accepted one after the other.
  cases rest with
  | nil => exact ⟨_, rfl⟩
  | cons token rest =>
      cases token with
      | name name =>
          rw [run_of_advance rfl]
          cases rest with
          | nil => exact ⟨_, rfl⟩
          | cons token rest =>
              cases token with
              | equals => exact absurd rfl (h name rest)
              | _ => exact ⟨_, rfl⟩
      | _ => exact ⟨_, rfl⟩

/-- The word for assignment that is taken for an operand spoils the product that it
    begins. -/
theorem Machine.run_word_failed {memory : Memory} {enclosing : List Enclosure}
    {sum : WaitingSum} {word : String} {rest : List Token} {op : ProductOp}
    (h : (rest.headD .endOfText).productOp? = some op) :
    (run { memory, enclosing, phase := .operator sum (.word word) } rest).outcome.Failed := by
  cases rest with
  | nil => cases h
  | cons token rest =>
      have hstep : step { memory, enclosing, phase := .operator sum (.word word) } token
          (rest.headD .endOfText) = .advance
            { memory, enclosing,
              phase := .operand { sum, product := some (.word word, op) } } := by
        rw [List.headD_cons] at h
        simp only [step, readOperator, h]
      -- The word is not looked at before its other factor is known, and by then it is spoiled.
      have hspoiled : Spoiled
          { memory, enclosing, phase := .operand { sum, product := some (.word word, op) } } :=
        Or.inl ⟨word, op, rfl⟩
      rw [run_of_advance hstep]
      exact hspoiled.run_failed rest

/-- Where the word for assignment stands in the place of a factor and begins no
    assignment, the statement fails. -/
theorem Machine.run_letWord_failed {memory : Memory} {enclosing : List Enclosure} {left : Left}
    {rest : List Token} (hstart : left = .start → NoAssignment (.letWord :: rest)) :
    (run { memory, enclosing, phase := .operand left } (.letWord :: rest)).outcome.Failed := by
  cases hop : (rest.headD .endOfText).productOp? with
  | none =>
      by_cases hleft : left = .start
      · -- The machine waits for a target, and there is none.
        have hstep : step { memory, enclosing, phase := .operand left } .letWord
            (rest.headD .endOfText) = .advance { memory, enclosing, phase := .target } := by
          simp only [step, readOperand, startAssignment, hleft, Left.start, hop, Option.isSome,
            Bool.or_self, Bool.false_eq_true, if_false, Step.ofExcept]
        rw [run_of_advance hstep]
        refine run_target_failed (fun name rest' heq => ?_)
        exact (hstart hleft).spelled name rest' (congrArg _ heq)
      · rcases startAssignment_eq_error { memory, enclosing, phase := .operand left }
            Token.letWord.text .target hleft hop with ⟨e, he⟩
        exact run_failed_of_readOperand he
  | some op =>
      rcases left with ⟨sum, product⟩
      cases product with
      | some waiting =>
          rcases waiting with ⟨factor, op'⟩
          cases factor <;> exact run_failed_of_readOperand rfl
      | none =>
          -- The word is taken for an operand, and spoils the product.
          have hstep : step { memory, enclosing, phase := .operand { sum, product := none } }
              .letWord (rest.headD .endOfText) = .advance
                { memory, enclosing, phase := .operator sum (.word Token.letWord.text) } := by
            simp only [step, readOperand, startAssignment, hop, Option.isSome, Bool.or_true,
              if_true, supply, Left.supply, Step.ofExcept]
          rw [run_of_advance hstep]
          exact run_word_failed hop

/-- Where a name before an equals sign stands in the place of a factor and begins no
    assignment, the statement fails. -/
theorem Machine.run_target_name_failed {memory : Memory} {enclosing : List Enclosure}
    {left : Left} {name : String} {rest : List Token} (hhead : rest.head? = some .equals)
    (hstart : left = .start → NoAssignment (.name name :: rest)) :
    (run { memory, enclosing, phase := .operand left } (.name name :: rest)).outcome.Failed := by
  cases rest with
  | nil => cases hhead
  | cons token rest =>
      cases hhead
      have hleft : left ≠ .start := fun h => (hstart h).bare name rest rfl
      have hop : Token.equals.productOp? = none := rfl
      rcases startAssignment_eq_error { memory, enclosing, phase := .operand left } name
        (.equals name) hleft hop with ⟨e, he⟩
      exact run_failed_of_readOperand he

/-- A parenthesis or an assignment fails where what is inside it does, and also where
    there is no room for it. -/
theorem Machine.run_failed_of_enter {m : Machine} (m' : Machine) {enclosure : Enclosure}
    {token : Token} {rest : List Token} {room : Nat}
    (hroom : m'.enclosing.length + room = nestingLimit)
    (h : m.step token (rest.headD .endOfText) = .ofExcept m'.memory (m'.enter enclosure))
    (hinside : room ≠ 0 →
      (run { memory := m'.memory, enclosing := enclosure :: m'.enclosing,
             phase := .operand .start } rest).outcome.Failed) :
    (m.run (token :: rest)).outcome.Failed := by
  rw [outcome_run_of_enter m' h]
  split
  · exact ⟨_, rfl⟩
  · exact hinside (by omega)

/-- An assignment fails where its right-hand side does. -/
theorem Machine.run_failed_of_assignment {memory : Memory} {enclosing : List Enclosure}
    (spelled : Bool) {name : String} {rest : List Token} {room : Nat}
    (hroom : enclosing.length + room = nestingLimit)
    (hvalue : room ≠ 0 →
      (run { memory, enclosing := .assignment name :: enclosing,
             phase := .operand .start } rest).outcome.Failed) :
    (run { memory, enclosing, phase := .operand .start }
      ((if spelled then [.letWord] else []) ++ .name name :: .equals :: rest)).outcome.Failed := by
  rw [run_target]
  exact run_failed_of_enter { memory, enclosing, phase := .equals name } hroom rfl hvalue

/-- A value behind which a parenthesis is not closed makes the statement fail. -/
theorem Machine.run_failed_of_unclosed {memory : Memory} {enclosing : List Enclosure}
    {left : Left} {value : Binary64} {rest : List Token} (hproduct : EndsProduct rest)
    (hsum : EndsSum rest) (hclose : ∀ rest', rest ≠ .closeParen :: rest') :
    (run { memory, enclosing := .parenthesis left :: enclosing,
           phase := .operator none (.number value) } rest).outcome.Failed := by
  cases rest with
  | nil => exact ⟨_, rfl⟩
  | cons token rest =>
      have htoken : token ≠ .closeParen := fun heq => hclose rest (congrArg (· :: rest) heq)
      have hstep : step
          { memory, enclosing := .parenthesis left :: enclosing,
            phase := .operator none (.number value) } token (rest.headD .endOfText) =
          .fail memory (.unclosedParenthesis token) := by
        simp only [step, readOperator, hproduct token rfl, hsum token rfl, Operand.toNumber,
          closeSum, closeAssignments, htoken, if_false]
      exact ⟨_, congrArg Prod.fst (outcome_run_of_fail hstep)⟩

/-- A statement that fails before more tokens fails without them. -/
theorem Machine.run_failed_of_append {m : Machine} {tokens : List Token} (more : List Token)
    (h : (m.run (tokens ++ more)).outcome.Failed) : (m.run tokens).outcome.Failed := by
  rw [StatementEnd.failed_outcome_iff] at h ⊢
  cases hresult : (m.run tokens).result with
  | error e => exact ⟨e, rfl⟩
  | ok value =>
      rcases h with ⟨e, he⟩
      rw [run_append_of_ok hresult more, hresult] at he
      cases he

/-- A statement in parentheses that are not closed behind it makes the machine fail. -/
theorem Machine.run_failed_of_unclosed_group (s : Statement) (memory : Memory)
    (enclosing : List Enclosure) (left : Left) {rest : List Token}
    (hdetached : Detached s.tokens rest) (hproduct : EndsProduct rest) (hsum : EndsSum rest)
    (hclose : ∀ rest', rest ≠ .closeParen :: rest') :
    (run { memory, enclosing := .parenthesis left :: enclosing, phase := .operand .start }
      (s.tokens ++ rest)).outcome.Failed := by
  cases rest with
  | nil =>
      -- The end of the tokens is no better than the end of the text.
      refine run_failed_of_append [.endOfText] ?_
      rw [List.append_nil,
        s.run_tokens memory _ (endsStatement_endOfText []) (detached_endOfText _ [])]
      refine Evaluated.failed_andThen _ (fun value memory' => ?_)
      exact ⟨_, rfl⟩
  | cons token rest =>
      have hends : EndsStatement (token :: rest) := ⟨hproduct token rfl, hsum token rfl⟩
      rw [s.run_tokens memory _ hends hdetached]
      exact Evaluated.failed_andThen _
        (fun _ _ => run_failed_of_unclosed hproduct hsum hclose)

/-- A minus sign before anything but a number makes the statement fail. -/
theorem Machine.run_minus_failed {memory : Memory} {enclosing : List Enclosure} {left : Left}
    {rest : List Token} (h : ∀ value rest', rest ≠ .number value :: rest') :
    (run { memory, enclosing, phase := .operand left } (.minus :: rest)).outcome.Failed := by
  rw [run_of_advance rfl]
  cases rest with
  | nil => exact ⟨_, rfl⟩
  | cons token rest =>
      cases token with
      | number value => exact absurd rfl (h value rest)
      | _ => exact ⟨_, rfl⟩

/-- What is open and the room that is left make up the limit, also one level further
    down. -/
theorem length_cons_add_room (enclosure : Enclosure) {enclosing : List Enclosure} {room : Nat}
    (hroom : enclosing.length + room = nestingLimit) (hne : room ≠ 0) :
    (enclosure :: enclosing).length + (room - 1) = nestingLimit := by
  rw [List.length_cons]
  omega

mutual

/-- A statement that the parser refuses makes the machine fail. -/
theorem run_failed_of_parseStatement (room : Nat) (tokens : List Token) (memory : Memory)
    (enclosing : List Enclosure) (hroom : enclosing.length + room = nestingLimit)
    (h : parseStatement room tokens = none) :
    (Machine.run { memory, enclosing, phase := .operand .start } tokens).outcome.Failed := by
  -- The cases are those of the parser: an assignment in either spelling, or a sum.
  unfold parseStatement at h
  split at h
  · refine Machine.run_failed_of_assignment true hroom (fun hne => ?_)
    rw [if_neg hne] at h
    split at h
    · next hvalue =>
        exact run_failed_of_parseStatement _ _ memory _ (length_cons_add_room _ hroom hne) hvalue
    · cases h
  · refine Machine.run_failed_of_assignment false hroom (fun hne => ?_)
    rw [if_neg hne] at h
    split at h
    · next hvalue =>
        exact run_failed_of_parseStatement _ _ memory _ (length_cons_add_room _ hroom hne) hvalue
    · cases h
  · next hspelled hbare =>
      split at h
      · next hfirst =>
          exact run_failed_of_parseProduct _ _ memory enclosing none hroom
            (fun _ => ⟨hbare, hspelled⟩) hfirst
      · next p rest _ hfirst =>
          split at h
          · next htail =>
              -- The first product is evaluated, and what follows it is refused.
              rcases parseProduct_fits _ _ hfirst with ⟨hfits, _⟩
              have hrun := p.run_tokens memory enclosing none hfits.detached
              rw [parseProduct_tokens _ _ hfirst] at hrun
              rw [Left.start, hrun]
              refine Evaluated.failed_andThen _ (fun value memory' => ?_)
              exact run_failed_of_parseSumTail _ _ _ memory' enclosing value hroom htail
          · cases h
termination_by (tokens.length, 4)

/-- A sum whose continuation the parser refuses makes the machine fail. -/
theorem run_failed_of_parseSumTail (room : Nat) (left : SumTree) (tokens : List Token)
    (memory : Memory) (enclosing : List Enclosure) (value : Binary64)
    (hroom : enclosing.length + room = nestingLimit)
    (h : parseSumTail room left tokens = none) :
    (Machine.run { memory, enclosing, phase := .operator none (.number value) }
      tokens).outcome.Failed := by
  match tokens, h with
  | [], h => exact ⟨_, rfl⟩
  | token :: rest, h =>
      unfold parseSumTail at h
      split at h
      · cases h
      · next op hop =>
          -- The operation makes the sum wait, and the refusal is in the next product or
          -- behind it.
          cases Token.eq_token_of_sumOp? hop
          have hstep (ahead : Token) :
              Machine.step { memory, enclosing, phase := .operator none (.number value) }
                op.token ahead = .advance
                  { memory, enclosing,
                    phase := .operand { sum := some (value, op), product := none } } := by
            cases op <;> rfl
          rw [Machine.run_of_advance (hstep _)]
          split at h
          · next hnext =>
              exact run_failed_of_parseProduct _ _ memory enclosing _ hroom (nofun) hnext
          · next p rest' _ hnext =>
              split at h
              · next htail =>
                  rcases parseProduct_fits _ _ hnext with ⟨hfits, hends⟩
                  have hrun := p.run_tokens memory enclosing (some (value, op)) hfits.detached
                  rw [parseProduct_tokens _ _ hnext] at hrun
                  rw [hrun]
                  refine Evaluated.failed_andThen _ (fun value' memory' => ?_)
                  rw [Machine.run_operator_total hends]
                  exact run_failed_of_parseSumTail _ _ _ memory' enclosing _ hroom htail
              · cases h
termination_by (tokens.length, 0)

/-- A product that the parser refuses makes the machine fail. -/
theorem run_failed_of_parseProduct (room : Nat) (tokens : List Token) (memory : Memory)
    (enclosing : List Enclosure) (sum : WaitingSum)
    (hroom : enclosing.length + room = nestingLimit)
    (hstart : sum = none → NoAssignment tokens) (h : parseProduct room tokens = none) :
    (Machine.run { memory, enclosing, phase := .operand { sum, product := none } }
      tokens).outcome.Failed := by
  unfold parseProduct at h
  split at h
  · next hfirst =>
      refine run_failed_of_parseFactor _ _ memory enclosing _ hroom (fun hleft => ?_) hfirst
      exact hstart (congrArg Left.sum hleft)
  · next f rest _ hfirst =>
      split at h
      · next htail =>
          -- The first factor is evaluated, and what follows it is refused.
          have hfits := parseFactor_fits _ _ hfirst
          rw [← parseFactor_tokens _ _ hfirst, f.run_tokens memory enclosing _ hfits.detached]
          refine Evaluated.failed_andThen _ (fun value memory' => ?_)
          exact run_failed_of_parseProductTail _ _ _ memory' enclosing sum value hroom htail
      · cases h
termination_by (tokens.length, 2)

/-- A product whose continuation the parser refuses makes the machine fail. -/
theorem run_failed_of_parseProductTail (room : Nat) (left : ProductTree) (tokens : List Token)
    (memory : Memory) (enclosing : List Enclosure) (sum : WaitingSum) (value : Binary64)
    (hroom : enclosing.length + room = nestingLimit)
    (h : parseProductTail room left tokens = none) :
    (Machine.run { memory, enclosing, phase := .operator sum (.number value) }
      tokens).outcome.Failed := by
  match tokens, h with
  | [], h => exact ⟨_, rfl⟩
  | token :: rest, h =>
      unfold parseProductTail at h
      split at h
      · cases h
      · next op hop =>
          -- The operation makes the product wait, and the refusal is in the next factor or
          -- behind it.
          cases Token.eq_token_of_productOp? hop
          have hstep (ahead : Token) :
              Machine.step { memory, enclosing, phase := .operator sum (.number value) }
                op.token ahead = .advance
                  { memory, enclosing,
                    phase := .operand { sum, product := some (.number value, op) } } := by
            cases op <;> rfl
          rw [Machine.run_of_advance (hstep _)]
          split at h
          · next hnext =>
              exact run_failed_of_parseFactor _ _ memory enclosing _ hroom (nofun) hnext
          · next f rest' _ hnext =>
              split at h
              · next htail =>
                  have hfits := parseFactor_fits _ _ hnext
                  have hrun := f.run_tokens memory enclosing
                    { sum, product := some (.number value, op) } hfits.detached
                  rw [parseFactor_tokens _ _ hnext] at hrun
                  rw [hrun]
                  refine Evaluated.failed_andThen _ (fun value' memory' => ?_)
                  rw [Machine.resume_product]
                  refine Evaluated.failed_andThen _ (fun value'' memory'' => ?_)
                  exact run_failed_of_parseProductTail _ _ _ memory'' enclosing sum _ hroom htail
              · cases h
termination_by (tokens.length, 0)

/-- A factor that the parser refuses makes the machine fail, unless an assignment begins
    there. -/
theorem run_failed_of_parseFactor (room : Nat) (tokens : List Token) (memory : Memory)
    (enclosing : List Enclosure) (left : Left)
    (hroom : enclosing.length + room = nestingLimit)
    (hstart : left = .start → NoAssignment tokens) (h : parseFactor room tokens = none) :
    (Machine.run { memory, enclosing, phase := .operand left } tokens).outcome.Failed := by
  unfold parseFactor at h
  split at h
  · cases h
  · cases h
  · -- A name is refused only before an equals sign.
    split at h
    · next hhead => exact Machine.run_target_name_failed hhead hstart
    · cases h
  · next rest =>
      refine Machine.run_failed_of_enter { memory, enclosing, phase := .operand left } hroom rfl
        (fun hne => ?_)
      rw [if_neg hne] at h
      have hinside := length_cons_add_room (.parenthesis left) hroom hne
      cases hinner : parseStatement (room - 1) rest with
      | none => exact run_failed_of_parseStatement _ _ memory _ hinside hinner
      | some found =>
          -- What is inside can be read, so the end of the parenthesis is missing.
          rcases found with ⟨s, rest', hlt⟩
          rcases parseStatement_fits _ _ hinner with ⟨hfits, hproduct, hsum⟩
          have hclose : ∀ rest'', rest' ≠ .closeParen :: rest'' := by
            rintro rest'' rfl
            rw [hinner] at h
            cases h
          rw [← parseStatement_tokens _ _ hinner]
          exact Machine.run_failed_of_unclosed_group s memory enclosing left hfits.detached
            hproduct hsum hclose
  · next hnumber hnegated hname hgroup =>
      -- No factor begins with the first token, and the machine complains about it too.
      match tokens, hstart with
      | [], _ => exact ⟨_, rfl⟩
      | .number value :: rest, _ => exact absurd rfl (hnumber value rest)
      | .name name :: rest, _ => exact absurd rfl (hname name rest)
      | .letWord :: rest, hstart => exact Machine.run_letWord_failed hstart
      | .openParen :: rest, _ => exact absurd rfl (hgroup rest)
      | .minus :: rest, _ =>
          exact Machine.run_minus_failed
            (fun value rest' heq => hnegated value rest' (congrArg _ heq))
      | .equals :: rest, _ => exact Machine.run_failed_of_readOperand rfl
      | .plus :: rest, _ => exact Machine.run_failed_of_readOperand rfl
      | .times :: rest, _ => exact Machine.run_failed_of_readOperand rfl
      | .over :: rest, _ => exact Machine.run_failed_of_readOperand rfl
      | .closeParen :: rest, _ => exact Machine.run_failed_of_readOperand rfl
      | .endOfText :: rest, _ => exact Machine.run_failed_of_readOperand rfl
      | .malformed message :: rest, _ => exact Machine.run_failed_of_readOperand rfl
termination_by (tokens.length, 1)

end

end Calculator
