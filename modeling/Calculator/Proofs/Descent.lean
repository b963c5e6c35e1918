import Calculator.Proofs.Calls

/-!
# The Descent Follows the Machine

The functions of the descent and the machine evaluate the same tokens in the same way, and
none of the checks that the descent makes ever fails.

Each function is given a statement about one call with some fuel: if the machine is at the
place where the call is made, in the phase that belongs to the function, then the call
follows it to the phase behind what the function reads. A function with one more piece of
fuel is shown to do so from the functions it calls, and the induction on the fuel is made
once for all of them.

Every loop takes a token in each of its turns, and so does every way from a function back to
itself. Four pieces of fuel for each token that is left pay for the calls between two
tokens.

## Main definitions

* `Descent.Supplied`, `Descent.Taken`: An operand behind which the machine stands.
* `Descent.Completed`: A value behind which the machine stands, where it cannot go on.
* `Descent.FactorFollows`, `Descent.TermFollows`, `Descent.ProductFollows`,
  `Descent.ExprFollows`, `Descent.NestedFollows`, `Descent.SumFollows`: What is shown of each
  function.

## Theorems

* `Descent.factor_follows`, `Descent.term_follows`, `Descent.product_follows`,
  `Descent.expr_follows`, `Descent.nested_follows`, `Descent.sum_follows`: Each function,
  from the functions it calls.
* `Descent.follows`: All functions, by induction on the fuel.
* `Descent.expr_eq_evaluateStatement`: A single statement.
* `Descent.program_eq_evaluateFrom`: Statements one after the other.
-/

namespace Calculator

namespace Descent

/-- An operand is complete, and it is a number. -/
def Supplied (tokens : List Token) (enclosing : List Enclosure) (left : Left)
    (ended : StatementEnd) (o : Operand) (s : State) : Prop :=
  ∃ value, o = .number value ∧ ended = endWith tokens enclosing left (.number value) s

section

variable {tokens : List Token} {enclosing : List Enclosure} {s : State} {ended : StatementEnd}
  (hmarked : Marked tokens) (hat : At tokens enclosing s)

include hmarked hat

theorem negated_follows {left : Left}
    (hended : ended = endAt tokens enclosing (.negated left) s) :
    Follows tokens ended s (negated tokens s) (Supplied tokens enclosing left ended) := by
  rcases hat.exists_tokens with ⟨token, ahead, htoken, hahead⟩
  have hstays := hmarked.stays_behind hat.inside htoken
  rw [negated, advance_bind htoken]
  cases token with
  | number value =>
      have hsupplied := hended.trans (endAt_of_supply htoken hahead rfl rfl)
      exact .ok hstays ⟨value.neg, rfl, hsupplied⟩
  | _ => exact .fail hstays (hended.trans (run_of_fail htoken hahead rfl))

end

-- A name that is not written is read where the cursor is behind it.
theorem lookUp_follows {tokens : List Token} {enclosing : List Enclosure} {s : State}
    {ended : StatementEnd} {name : String} {ahead : Token} {left : Left}
    (htoken : tokens[s.position]? = some (.name name))
    (hahead : tokens[s.position + 1]? = some ahead) (hequals : ahead ≠ .equals)
    (hinside : (s.behind (.name name)).position + 1 < tokens.length)
    (hended : ended = endAt tokens enclosing (.operand left) s) :
    Follows tokens ended (s.behind (.name name)) (lookUp name (s.behind (.name name)))
      (Supplied tokens enclosing left ended) := by
  -- The memory is the one that the machine looks at, since taking a token leaves it alone.
  have hmemory : (s.behind (.name name)).memory = s.memory := rfl
  rw [lookUp, hmemory]
  cases hget : s.memory.store.get? name with
  | none =>
      have hread : Machine.step { memory := s.memory, enclosing, phase := .operand left }
          (.name name) ahead = .fail s.memory (.undefinedVariable name) := by
        simp only [Machine.step, Machine.readOperand, if_neg hequals, hget, Step.ofExcept]
      exact .fail (.refl hinside) (hended.trans (run_of_fail htoken hahead hread))
  | some value =>
      have hread : Machine.step { memory := s.memory, enclosing, phase := .operand left }
          (.name name) ahead = .ofExcept s.memory
            (Machine.supply { memory := s.memory, enclosing, phase := .operand left } left
              (.number value)) := by
        simp only [Machine.step, Machine.readOperand, if_neg hequals, hget]
      have hsupplied := hended.trans (endAt_of_supply htoken hahead rfl hread)
      exact .ok (.refl hinside) ⟨value, rfl, hsupplied⟩

-- Behind a statement in parentheses, a token either ends the parenthesis or is missed there.
theorem step_of_ends {token : Token} (hproduct : token.productOp? = none)
    (hsum : token.sumOp? = none) (memory : Memory) (left : Left) (enclosing : List Enclosure)
    (value : Binary64) (ahead : Token) :
    Machine.step
      { memory, enclosing := .parenthesis left :: enclosing,
        phase := .operator none (.number value) } token ahead =
      if token = .closeParen then
        .ofExcept memory
          (Machine.supply { memory, enclosing, phase := .operator none (.number value) } left
            (.number value))
      else .fail memory (.unclosedParenthesis token) := by
  simp only [Machine.step, Machine.readOperator, hproduct, hsum]
  rfl

section

variable {tokens : List Token} {enclosing : List Enclosure} {s : State} {ended : StatementEnd}
  (hmarked : Marked tokens) (hat : At tokens enclosing s)

include hmarked hat

theorem closing_follows {left : Left} {value : Binary64}
    (hends : EndsStatement (tokens.drop s.position))
    (hended : ended =
      endAt tokens (.parenthesis left :: enclosing) (.operator none (.number value)) s) :
    Follows tokens ended s (closing tokens value s) (Supplied tokens enclosing left ended) := by
  rcases hat.exists_tokens with ⟨token, ahead, htoken, hahead⟩
  have hstays := hmarked.stays_behind hat.inside htoken
  rw [drop_eq_cons htoken] at hends
  have hstep := step_of_ends hends.1 hends.2 s.memory left enclosing value ahead
  rw [closing, advance_bind htoken]
  by_cases hclose : token = .closeParen
  · -- The operand that waited outside is complete with the value.
    rw [if_pos hclose] at hstep
    subst hclose
    exact .ok hstays ⟨value, rfl, hended.trans (endAt_of_supply htoken hahead rfl hstep)⟩
  · rw [if_neg hclose] at hstep
    have hfailed := hended.trans (run_of_fail htoken hahead hstep)
    cases token with
    | closeParen => exact absurd rfl hclose
    | _ => exact .fail hstays hfailed

theorem target_follows (hended : ended = endAt tokens enclosing .target s) :
    Follows tokens ended s (target tokens s) fun name s' =>
      ended = endInside tokens enclosing (.assignment name) s' := by
  rcases hat.exists_tokens with ⟨token, ahead, htoken, hahead⟩
  have hstays := hmarked.stays_behind hat.inside htoken
  rw [target, advance_bind htoken]
  cases token with
  | name name =>
      -- The name is taken, and the equals sign is due.
      have hat' := hat.of_stays hstays
      have hended' := hended.trans (run_of_advance htoken hahead rfl)
      rcases exists_getElem? hat'.inside with ⟨second, hsecond⟩
      have hstays' := hmarked.stays_behind hat'.inside hahead
      refine Follows.of_stays hstays ?_
      dsimp only
      rw [advance_bind (show tokens[(s.behind (.name name)).position]? = some ahead from hahead)]
      cases ahead with
      | equals =>
          exact .ok hstays' (hended'.trans (endAt_of_enter hahead hsecond rfl rfl))
      | _ => exact .fail hstays' (hended'.trans (run_of_fail hahead hsecond rfl))
  | _ => exact .fail hstays (hended.trans (run_of_fail htoken hahead rfl))

end

-- What is shown of a function is about every call with a certain fuel. The machine is at the
-- same place, in the phase in which the function is called, and the fuel is four pieces for
-- each token that is left and one more for each function that is called before the next token
-- is taken.

/-- An operand is complete: a number, or a word at the beginning of it. -/
def Taken (tokens : List Token) (enclosing : List Enclosure) (left : Left)
    (ended : StatementEnd) (s : State) (o : Operand) (s' : State) : Prop :=
  s.position < s'.position ∧
    (Supplied tokens enclosing left ended o s' ∨ WordAt tokens s s' o)

def FactorFollows (tokens : List Token) (fuel : Nat) : Prop :=
  ∀ {ended enclosing left s}, At tokens enclosing s →
    4 * (tokens.length - s.position) + 1 ≤ fuel →
    ended = endAt tokens enclosing (.operand left) s →
    Follows tokens ended s (factor tokens fuel s) (Taken tokens enclosing left ended s)

def TermFollows (tokens : List Token) (fuel : Nat) : Prop :=
  ∀ {ended enclosing sum s}, At tokens enclosing s →
    4 * (tokens.length - s.position) + 2 ≤ fuel →
    ended = endAt tokens enclosing (.operand { sum, product := none }) s →
    Follows tokens ended s (term tokens fuel s) fun o s' =>
      Taken tokens enclosing { sum, product := none } ended s o s' ∧
        EndsProduct (tokens.drop s'.position)

-- A word is no operand for the machine unless a product goes on with it.
def ProductFollows (tokens : List Token) (fuel : Nat) : Prop :=
  ∀ {ended enclosing sum lhs s}, At tokens enclosing s →
    4 * (tokens.length - s.position) + 1 ≤ fuel →
    ((∃ value, lhs = .number value) ∨ ¬ EndsProduct (tokens.drop s.position) →
      ended = endAt tokens enclosing (.operator sum lhs.toMachine) s) →
    Follows tokens ended s (product tokens fuel lhs s) fun o s' =>
      (Supplied tokens enclosing { sum, product := none } ended o s' ∨ o = lhs ∧ s' = s) ∧
        EndsProduct (tokens.drop s'.position)

/-- A value is complete, and the tokens behind it do not go on with it. -/
def Completed (tokens : List Token) (enclosing : List Enclosure) (ended : StatementEnd)
    (value : Binary64) (s : State) : Prop :=
  EndsStatement (tokens.drop s.position) ∧
    ended = endAt tokens enclosing (.operator none (.number value)) s

def ExprFollows (tokens : List Token) (fuel : Nat) : Prop :=
  ∀ {ended enclosing s}, At tokens enclosing s →
    4 * (tokens.length - s.position) + 3 ≤ fuel →
    ended = endAt tokens enclosing (.operand .start) s →
    Follows tokens ended s (expr tokens fuel s) fun value s' =>
      s.position < s'.position ∧ Completed tokens enclosing ended value s'

def NestedFollows (tokens : List Token) (fuel : Nat) : Prop :=
  ∀ {ended enclosing enclosure s}, At tokens enclosing s →
    4 * (tokens.length - s.position) + 4 ≤ fuel →
    ended = endInside tokens enclosing enclosure s →
    Follows tokens ended s (nested tokens fuel s)
      (Completed tokens (enclosure :: enclosing) ended)

def SumFollows (tokens : List Token) (fuel : Nat) : Prop :=
  ∀ {ended enclosing lhs s}, At tokens enclosing s →
    4 * (tokens.length - s.position) + 1 ≤ fuel →
    EndsProduct (tokens.drop s.position) →
    ended = endAt tokens enclosing (.operator none (.number lhs)) s →
    Follows tokens ended s (sum tokens fuel lhs s) (Completed tokens enclosing ended)

section

variable {tokens : List Token} {fuel : Nat} {s : State}

theorem nested_of_le (h : nestingLimit ≤ s.depth) :
    nested tokens (fuel + 1) s = .ok (.error .nestedTooDeeply, s) := by
  rw [nested]
  exact if_pos h

theorem nested_of_lt {r : Except EvalError Binary64} {s' : State} (h : s.depth < nestingLimit)
    (hexpr : expr tokens fuel { s with depth := s.depth + 1 } = .ok (r, s'))
    (hdepth : s'.depth = s.depth + 1) :
    nested tokens (fuel + 1) s = .ok (r, { s' with depth := s.depth }) := by
  have henter : (enter.andThen fun _ => expr tokens fuel) s = .ok (r, s') := by
    rw [Call.andThen, enter, if_pos h]
    exact hexpr
  -- The counter has come back to what it was set to, so leaving cannot underflow.
  have hleave : leave s' = .ok { s' with depth := s.depth } := by
    rw [leave, hdepth]
  rw [nested]
  refine (if_neg (Nat.not_le.mpr h)).trans ?_
  rw [henter]
  dsimp only
  rw [hleave]
  rfl

end

-- Both sides of a product are asked for their number, the left one first, before they are
-- multiplied or divided.
theorem apply_follows {α : Type} {tokens : List Token} {enclosing : List Enclosure} {s : State}
    {ended : StatementEnd} {sum : WaitingSum} {lhs rhs : Operand} {op : ProductOp}
    {f : Binary64 → Call α} {post : α → State → Prop} (hinside : s.position + 1 < tokens.length)
    (hended : ended =
      endWith tokens enclosing { sum, product := some (lhs.toMachine, op) } rhs.toMachine s)
    (hf : ∀ value, ended = endAt tokens enclosing (.operator sum (.number value)) s →
      Follows tokens ended s (f value s) post) :
    Follows tokens ended s
      ((do
        let x ← Call.ofExcept lhs.toNumber
        let y ← Call.ofExcept rhs.toNumber
        let value ← Call.ofExcept (op.apply x y)
        f value) s) post := by
  -- The machine asks for the two numbers in the same order, and fails where the call does.
  simp only [endWith, Left.supply, Operand.toNumber_toMachine] at hended
  cases hx : lhs.toNumber with
  | error e =>
      rw [hx] at hended
      exact .fail (.refl hinside) hended
  | ok x =>
      rw [hx] at hended
      rw [ofExcept_bind_ok]
      cases hy : rhs.toNumber with
      | error e =>
          rw [hy] at hended
          exact .fail (.refl hinside) hended
      | ok y =>
          rw [hy] at hended
          dsimp only at hended
          rw [ofExcept_bind_ok]
          cases hvalue : op.apply x y with
          | error e =>
              rw [hvalue] at hended
              exact .fail (.refl hinside) hended
          | ok value =>
              rw [hvalue] at hended
              rw [ofExcept_bind_ok]
              exact hf value hended

-- The assignment is complete where its right-hand side is.
theorem write_follows {tokens : List Token} {enclosing : List Enclosure} {s s₀ : State}
    {ended : StatementEnd} {name : String} {value : Binary64} (hat : At tokens enclosing s)
    (hlt : s₀.position < s.position)
    (hvalue : Completed tokens (.assignment name :: enclosing) ended value s) :
    Follows tokens ended s (write name value s) fun value s' =>
      s₀.position < s'.position ∧ Completed tokens enclosing ended value s' :=
  .ok ⟨rfl, Nat.le_refl _, hat.inside⟩
    ⟨hlt, hvalue.1, hvalue.2.trans (Machine.run_operator_assignment hvalue.1)⟩

section

variable {tokens : List Token} (hmarked : Marked tokens) {fuel : Nat}

include hmarked

theorem factor_follows (hnested : NestedFollows tokens fuel) :
    FactorFollows tokens (fuel + 1) := by
  intro ended enclosing left s hat hfuel hended
  rcases hat.exists_tokens with ⟨token, ahead, htoken, hahead⟩
  have hstays := hmarked.stays_behind hat.inside htoken
  have hat' := hat.of_stays hstays
  -- Whatever goes on behind the token is behind it.
  have htaken {s'' : State} {o : Operand} (hs : Stays tokens (s.behind token) s'')
      (hend : token.isEnd = false) (h : Supplied tokens enclosing left ended o s'') :
      Taken tokens enclosing left ended s o s'' := by
    refine ⟨?_, .inl h⟩
    have hle := hs.position_le
    rw [State.behind_of_not_isEnd hend] at hle
    exact hle
  rw [factor, peek_bind htoken, peekSecond_bind hahead]
  cases token with
  | number value =>
      dsimp only
      rw [advance_bind htoken]
      have hsupplied := hended.trans (endAt_of_supply htoken hahead rfl rfl)
      exact .ok hstays ⟨Nat.lt_succ_self _, .inl ⟨value, rfl, hsupplied⟩⟩
  | name name =>
      -- The token behind the name decides whether it is written or read.
      by_cases hequals : ahead = .equals
      · subst hequals
        dsimp only
        rw [advance_bind htoken]
        exact .ok hstays ⟨Nat.lt_succ_self _, .inr ⟨htoken, hahead, rfl⟩⟩
      · have hread := lookUp_follows htoken hahead hequals hstays.inside hended
        have hfollows := (hread.mono fun _ _ hs' ho => htaken hs' rfl ho).of_stays hstays
        cases ahead with
        | equals => exact absurd rfl hequals
        | _ =>
            dsimp only
            rw [advance_bind htoken]
            exact hfollows
  | letWord =>
      dsimp only
      rw [advance_bind htoken]
      exact .ok hstays ⟨Nat.lt_succ_self _, .inr ⟨htoken, rfl⟩⟩
  | openParen =>
      -- What is inside is evaluated by the nested call, and `closing` takes the end of it.
      have hinside := hended.trans (endAt_of_enter htoken hahead rfl rfl)
      have hroom : 4 * (tokens.length - (s.position + 1)) + 4 ≤ fuel := by
        have := hat.inside
        omega
      have hfollows := (hnested hat' hroom hinside).bind fun value s' hs' hvalue =>
        closing_follows hmarked (hat'.of_stays hs') hvalue.1 hvalue.2
      dsimp only
      rw [advance_bind htoken]
      exact (hfollows.mono fun _ _ hs' ho => htaken hs' rfl ho).of_stays hstays
  | minus =>
      have hnegated := hended.trans (run_of_advance htoken hahead rfl)
      have hfollows := negated_follows hmarked hat' hnegated
      dsimp only
      rw [advance_bind htoken]
      exact (hfollows.mono fun _ _ hs' ho => htaken hs' rfl ho).of_stays hstays
  | _ =>
      dsimp only
      rw [advance_bind htoken]
      exact .fail hstays (hended.trans (run_of_fail htoken hahead rfl))

omit hmarked in
theorem term_follows (hfactor : FactorFollows tokens fuel)
    (hproduct : ProductFollows tokens fuel) : TermFollows tokens (fuel + 1) := by
  intro ended enclosing sum s hat hfuel hended
  have hinside := hat.inside
  rw [term]
  refine (hfactor hat (by omega) hended).bind fun o s₁ hs₁ ho => ?_
  rcases ho with ⟨hlt, ho⟩
  have hat₁ := hat.of_stays hs₁
  -- A word is an operand for the machine only if a product goes on with it.
  have hoperator : (∃ value, o = .number value) ∨ ¬ EndsProduct (tokens.drop s₁.position) →
      ended = endAt tokens enclosing (.operator sum o.toMachine) s₁ := by
    intro hcase
    rcases ho with ⟨value, rfl, hsupplied⟩ | hword
    · exact hsupplied
    · rcases hcase with ⟨value, rfl⟩ | hgoes
      · exact hword.elim
      · exact hended.trans (hword.endAt_of_product hinside (.inr hgoes))
  refine (hproduct hat₁ (by omega) hoperator).mono fun o' s' hs' ho' => ⟨?_, ho'.2⟩
  refine ⟨Nat.lt_of_lt_of_le hlt hs'.position_le, ?_⟩
  rcases ho'.1 with hsupplied | ⟨rfl, rfl⟩
  · exact .inl hsupplied
  · exact ho

theorem product_follows (hfactor : FactorFollows tokens fuel)
    (hproduct : ProductFollows tokens fuel) : ProductFollows tokens (fuel + 1) := by
  intro ended enclosing sum lhs s hat hfuel hended
  have hinside := hat.inside
  rcases hat.exists_tokens with ⟨token, ahead, htoken, hahead⟩
  have hstays := hmarked.stays_behind hinside htoken
  have hat₁ := hat.of_stays hstays
  rw [product, peek_bind htoken]
  cases hop : token.productOp? with
  | none => exact .ok (.refl hinside) ⟨.inr ⟨rfl, rfl⟩, (endsProduct_drop htoken).mpr hop⟩
  | some op =>
      -- The operation makes the machine wait for the factor behind it.
      have hgoes : ¬ EndsProduct (tokens.drop s.position) := by
        rw [endsProduct_drop htoken, hop]
        exact fun h => by cases h
      have hbehind := State.behind_of_not_isEnd (isEnd_of_productOp? hop) s
      have hstep : Machine.step ⟨s.memory, enclosing, .operator sum lhs.toMachine⟩ token ahead =
          .advance ⟨s.memory, enclosing, .operand ⟨sum, some (lhs.toMachine, op)⟩⟩ := by
        simp only [Machine.step, Machine.readOperator, hop]
      have hended₁ := (hended (.inr hgoes)).trans (run_of_advance htoken hahead hstep)
      dsimp only
      rw [advance_bind htoken]
      rw [hbehind] at hstays hat₁ ⊢
      refine Follows.of_stays hstays ?_
      refine (hfactor hat₁ (by dsimp only; omega) hended₁).bind fun rhs s₂ hs₂ hrhs => ?_
      have hat₂ := hat₁.of_stays hs₂
      have hlt : s.position < s₂.position := Nat.lt_trans (Nat.lt_succ_self _) hrhs.1
      -- A word on the right is an operand as well, since the product waits for it.
      have hended₂ : ended =
          endWith tokens enclosing ⟨sum, some (lhs.toMachine, op)⟩ rhs.toMachine s₂ := by
        rcases hrhs.2 with ⟨value, rfl, hsupplied⟩ | hword
        · exact hsupplied
        · exact hended₁.trans (hword.endAt_of_product hat₁.inside (.inl rfl))
      refine apply_follows hat₂.inside hended₂ fun value hvalue => ?_
      refine (hproduct hat₂ (by omega) fun _ => hvalue).mono fun o s' _ ho => ?_
      rcases ho with ⟨ho | ⟨rfl, rfl⟩, hends⟩
      · exact ⟨.inl ho, hends⟩
      · exact ⟨.inl ⟨value, rfl, hvalue⟩, hends⟩

theorem expr_follows (hterm : TermFollows tokens fuel) (hsum : SumFollows tokens fuel)
    (hnested : NestedFollows tokens fuel) : ExprFollows tokens (fuel + 1) := by
  intro ended enclosing s hat hfuel hended
  have hinside := hat.inside
  rw [expr]
  refine (hterm hat (by omega) hended).bind fun o s₁ hs₁ ho => ?_
  rcases ho with ⟨⟨hlt, ho⟩, hends⟩
  have hat₁ := hat.of_stays hs₁
  rcases ho with ⟨value, rfl, hsupplied⟩ | hword
  · refine (hsum hat₁ (by omega) hends hsupplied).mono fun value' s' hs' hvalue => ?_
    exact ⟨Nat.lt_of_lt_of_le hlt hs'.position_le, hvalue⟩
  · have hended₁ := hended.trans (hword.endAt_start hinside hends)
    -- Both spellings go on with the right-hand side.
    have hassign {name : String} {s₂ : State} (hs₂ : Stays tokens s₁ s₂)
        (hinside₂ : ended = endInside tokens enclosing (.assignment name) s₂) :
        Follows tokens ended s₂ ((nested tokens fuel >>= write name) s₂) fun value s' =>
          s.position < s'.position ∧ Completed tokens enclosing ended value s' := by
      have hat₂ := hat₁.of_stays hs₂
      have hlt₂ := Nat.lt_of_lt_of_le hlt hs₂.position_le
      refine (hnested hat₂ (by omega) hinside₂).bind fun value s₃ hs₃ hvalue => ?_
      exact write_follows (hat₂.of_stays hs₃) (Nat.lt_of_lt_of_le hlt₂ hs₃.position_le) hvalue
    cases o with
    | number value => exact hword.elim
    | letWord =>
        exact (target_follows hmarked hat₁ hended₁).bind fun name s₂ hs₂ => hassign hs₂
    | target name =>
        rcases hword with ⟨-, hequals, rfl⟩
        rcases exists_getElem? hat₁.inside with ⟨ahead, hahead⟩
        have hs₂ := hmarked.stays_behind hat₁.inside hequals
        have hinside₂ := hended₁.trans (endAt_of_enter hequals hahead rfl rfl)
        dsimp only
        rw [advance_bind hequals]
        exact (hassign hs₂ hinside₂).of_stays hs₂

omit hmarked in
theorem nested_follows (hexpr : ExprFollows tokens fuel) : NestedFollows tokens (fuel + 1) := by
  intro ended enclosing enclosure s hat hfuel hended
  rw [endInside, hat.depth] at hended
  by_cases hlimit : s.depth < nestingLimit
  · -- One more is open inside, for the machine and for the descent.
    rw [if_pos hlimit] at hended
    have hat' : At tokens (enclosure :: enclosing) { s with depth := s.depth + 1 } :=
      ⟨hat.inside, congrArg (· + 1) hat.depth, hlimit⟩
    rcases hexpr hat' (Nat.le_of_succ_le_succ hfuel) hended with ⟨r, s', hout, hs', hr⟩
    have hstays : Stays tokens s { s' with depth := s.depth } :=
      ⟨rfl, hs'.position_le, hs'.inside⟩
    rw [nested_of_lt hlimit hout hs'.depth]
    cases r with
    | error e => exact .fail hstays hr
    | ok value => exact .ok hstays hr.2
  · rw [if_neg hlimit] at hended
    rw [nested_of_le (Nat.not_lt.mp hlimit)]
    exact .fail (.refl hat.inside) hended

theorem sum_follows (hterm : TermFollows tokens fuel) (hsum : SumFollows tokens fuel) :
    SumFollows tokens (fuel + 1) := by
  intro ended enclosing lhs s hat hfuel hends hended
  have hinside := hat.inside
  rcases hat.exists_tokens with ⟨token, ahead, htoken, hahead⟩
  have hstays := hmarked.stays_behind hinside htoken
  have hat₁ := hat.of_stays hstays
  have hproduct := (endsProduct_drop htoken).mp hends
  rw [sum, peek_bind htoken]
  cases hop : token.sumOp? with
  | none =>
      refine .ok (.refl hinside) ⟨?_, hended⟩
      rw [drop_eq_cons htoken]
      exact ⟨hproduct, hop⟩
  | some op =>
      -- The operation makes the machine wait for the term behind it.
      have hbehind := State.behind_of_not_isEnd (isEnd_of_sumOp? hop) s
      have hstep : Machine.step ⟨s.memory, enclosing, .operator none (.number lhs)⟩ token ahead =
          .advance ⟨s.memory, enclosing, .operand ⟨some (lhs, op), none⟩⟩ := by
        simp only [Machine.step, Machine.readOperator, hproduct, hop]
        rfl
      have hended₁ := hended.trans (run_of_advance htoken hahead hstep)
      dsimp only
      rw [advance_bind htoken]
      rw [hbehind] at hstays hat₁ ⊢
      refine Follows.of_stays hstays ?_
      refine (hterm hat₁ (by dsimp only; omega) hended₁).bind fun rhs s₂ hs₂ hrhs => ?_
      rcases hrhs with ⟨⟨hlt, hrhs⟩, hends₂⟩
      have hat₂ := hat₁.of_stays hs₂
      have hlt : s.position < s₂.position := Nat.lt_trans (Nat.lt_succ_self _) hlt
      rcases hrhs with ⟨value, rfl, hsupplied⟩ | hword
      · have hended₂ := hsupplied.trans (Machine.run_operator_total hends₂)
        exact hsum hat₂ (by omega) hends₂ hended₂
      · -- The sum waits for the word and complains about it.
        rcases hword.endAt_of_sum hat₁.inside hends₂ (lhs, op) with ⟨e, hnumber, hfailed⟩
        rw [hnumber]
        exact .fail (.refl hat₂.inside) (hended₁.trans hfailed)

end

/-- All functions go on as the machine does. -/
structure AllFollow (tokens : List Token) (fuel : Nat) : Prop where
  factor : FactorFollows tokens fuel
  term : TermFollows tokens fuel
  product : ProductFollows tokens fuel
  expr : ExprFollows tokens fuel
  nested : NestedFollows tokens fuel
  sum : SumFollows tokens fuel

theorem follows {tokens : List Token} (hmarked : Marked tokens) (fuel : Nat) :
    AllFollow tokens fuel := by
  induction fuel with
  | zero =>
      -- No call is made without fuel.
      have hnone {n : Nat} {P : Prop} (h : n + 1 ≤ 0) : P := absurd h (Nat.not_succ_le_zero n)
      exact
        { factor := fun _ h _ => hnone h
          term := fun _ h _ => hnone h
          product := fun _ h _ => hnone h
          expr := fun _ h _ => hnone h
          nested := fun _ h _ => hnone h
          sum := fun _ h _ _ => hnone h }
  | succ fuel ih =>
      exact
        { factor := factor_follows hmarked ih.nested
          term := term_follows ih.factor ih.product
          product := product_follows hmarked ih.factor ih.product
          expr := expr_follows hmarked ih.term ih.sum ih.nested
          nested := nested_follows ih.expr
          sum := sum_follows hmarked ih.term ih.sum }

-- A sum that is complete outside of all parentheses and assignments ends its statement.
theorem Completed.ended_eq {tokens : List Token} {ended : StatementEnd} {value : Binary64}
    {s : State} (h : Completed tokens [] ended value s) (hat : At tokens [] s) :
    ended = { result := .ok value, memory := s.memory, rest := tokens.drop s.position } := by
  rcases hat.exists_tokens with ⟨token, ahead, htoken, hahead⟩
  rcases h with ⟨hends, hended⟩
  rw [drop_eq_cons htoken] at hends
  refine hended.trans (run_of_finish htoken hahead ?_)
  simp only [Machine.step, Machine.readOperator, hends.1, hends.2]
  rfl

/-- The call for a statement ends in no fault, and as the machine does from the beginning of the
    statement. If it has a value, it has taken a token. -/
theorem expr_eq_evaluateStatement {tokens : List Token} (hmarked : Marked tokens) {fuel : Nat}
    {s : State} (hat : At tokens [] s)
    (hfuel : 4 * (tokens.length - s.position) + 3 ≤ fuel) :
    ∃ r s', expr tokens fuel s = .ok (r, s') ∧ Stays tokens s s' ∧
      (∀ value, r = .ok value → s.position < s'.position) ∧
      evaluateStatement s.memory (tokens.drop s.position) =
        { result := r, memory := s'.memory, rest := tokens.drop s'.position } := by
  rcases (follows hmarked fuel).expr hat hfuel rfl with ⟨r, s', hout, hstays, hpost⟩
  cases r with
  | error e => exact ⟨_, s', hout, hstays, fun value h => (by cases h), hpost⟩
  | ok value =>
      exact ⟨_, s', hout, hstays, fun _ _ => hpost.1, hpost.2.ended_eq (hat.of_stays hstays)⟩

/-- The descent evaluates statements one after the other as the machine does. With four pieces
    of fuel for each token that is left, it does not end in a fault. -/
theorem program_eq_evaluateFrom {tokens : List Token} (hmarked : Marked tokens) (fuel : Nat)
    (last : Option Binary64) {s : State} (hat : At tokens [] s)
    (hfuel : 4 * (tokens.length - s.position) + 4 ≤ fuel) :
    ∃ r s', program tokens fuel last s = .ok (r, s') ∧ Stays tokens s s' ∧
      evaluateFrom s.memory last (tokens.drop s.position) =
        { result := r, memory := s'.memory, rest := tokens.drop s'.position } := by
  induction fuel generalizing last s with
  | zero => exact absurd hfuel (Nat.not_succ_le_zero _)
  | succ fuel ih =>
      have hinside := hat.inside
      rcases hat.exists_tokens with ⟨token, -, htoken, -⟩
      have hdrop := drop_eq_cons htoken
      rw [program, peek_bind htoken]
      by_cases hend : token.isEnd = true
      · rw [if_pos hend]
        refine ⟨.ok last, s, rfl, .refl hinside, ?_⟩
        rw [hdrop, evaluateFrom_of_isEnd hend]
      · rw [if_neg hend, bind_apply, Call.andThen]
        rw [Bool.not_eq_true] at hend
        rcases expr_eq_evaluateStatement hmarked hat (Nat.le_of_succ_le_succ hfuel) with
          ⟨r, s₁, hout, hs₁, htaken, hended⟩
        rw [hdrop] at hended
        rw [hout, hdrop]
        cases r with
        | error e =>
            refine ⟨.error e, s₁, rfl, hs₁, ?_⟩
            rw [evaluateFrom_of_error hend (congrArg StatementEnd.result hended), hended]
        | ok value =>
            -- The statement has taken a token, so the fuel that is left is enough again.
            have hlt := htaken value rfl
            rcases ih (some value) (hat.of_stays hs₁) (by omega) with ⟨r, s', hout', hs', heq⟩
            refine ⟨r, s', hout', hs₁.trans hs', ?_⟩
            rw [evaluateFrom_of_ok hend (congrArg StatementEnd.result hended), hended]
            exact heq

-- With a single mark at the end, the look behind it would not be inside the tokens.
example (value : Binary64) (memory : Memory) :
    program [.number value, .plus, .endOfText] 12 none { position := 0, depth := 0, memory } =
      .error (.outOfBounds 3) :=
  rfl

end Descent

end Calculator
