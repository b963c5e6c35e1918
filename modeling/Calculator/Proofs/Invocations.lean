import Calculator.Proofs.Returns
import Mathlib.Logic.Relation

/-!
# Invocations

Which calls are made in a call of the descent, and how they fail together.

A function that is called reads some tokens itself and calls others in between. Each call of
another is made in a state that depends on the calls before it, and only if they have a value.
`Invokes` lists these calls: for each function, whom it calls, in which state, and what has to
have gone well until then. What a run goes through is all that is invoked from its first call
on, directly or through others.

A call that has no value is the end of the call that has made it, and of the run with it. So
the trouble of any call in a run is the trouble of the run. The other way round, the limit of
nesting is met in one place only. A call that fails for it is a nested call that has found the
limit reached, or it has made a call that fails for it; and since there is less fuel in a call
than in the one that has made it, there is a nested call of the first kind at the end of that.

## Main definitions

* `Descent.trouble`: What a call comes to that has no value.
* `Descent.Callee`, `Descent.Invocation`: A function, and a call of it.
* `Descent.Invokes`: A call that is made in another.
* `Descent.MeetsLimit`: A call that has failed because the limit is reached.
* `Descent.Invocation.IsRefused`: A nested call that finds the limit reached.
* `Descent.Reaches`: All that a call comes to.

## Theorems

* `Descent.Invokes.trouble`: The trouble of a call is that of the call that has made it.
* `Descent.exists_invokes`: A call that fails for the limit is refused or has made one that
  does.
* `Descent.meetsLimit_iff`: A call fails for the limit exactly if it comes to a refused one.
-/

namespace Calculator

namespace Descent

/-- What a call comes to that has no value: a fault or a failure. -/
def trouble {α : Type} : Except Fault (Except EvalError α × State) → Option (Fault ⊕ EvalError)
  | .error fault => some (.inl fault)
  | .ok (.error e, _) => some (.inr e)
  | .ok (.ok _, _) => none

section

variable {α β : Type} {x : Call α} {f : α → Call β} {s s' : State} {t : Fault ⊕ EvalError}

theorem bind_of_ok {a : α} (h : x s = .ok (.ok a, s')) (f : α → Call β) :
    (x >>= f) s = f a s' := by
  rw [bind_apply, Call.andThen, h]

/-- Nothing goes on behind trouble. -/
theorem trouble_bind (h : trouble (x s) = some t) (f : α → Call β) :
    trouble ((x >>= f) s) = some t := by
  rw [bind_apply, Call.andThen]
  cases hout : x s with
  | error fault =>
      rw [hout] at h
      exact h
  | ok p =>
      rcases p with ⟨r, s'⟩
      rw [hout] at h
      cases r with
      | error e => exact h
      | ok a => cases h

/-- There is trouble in the first of two calls, or in the second. -/
theorem of_trouble_bind (h : trouble ((x >>= f) s) = some t) :
    trouble (x s) = some t ∨
      ∃ a s', x s = .ok (.ok a, s') ∧ trouble (f a s') = some t := by
  cases hout : x s with
  | error fault =>
      rw [bind_apply, Call.andThen, hout] at h
      exact .inl h
  | ok p =>
      rcases p with ⟨r, s'⟩
      cases r with
      | error e =>
          rw [bind_apply, Call.andThen, hout] at h
          exact .inl h
      | ok a =>
          rw [bind_of_ok hout] at h
          exact .inr ⟨a, s', rfl, h⟩

/-- Two calls fail as the first one does, or as the second. -/
theorem of_failed_bind {e : EvalError} (h : (x >>= f) s = .ok (.error e, s')) :
    x s = .ok (.error e, s') ∨
      ∃ a s₁, x s = .ok (.ok a, s₁) ∧ f a s₁ = .ok (.error e, s') := by
  rw [bind_apply, Call.andThen] at h
  cases hout : x s with
  | error fault =>
      rw [hout] at h
      cases h
  | ok p =>
      rcases p with ⟨r, s₁⟩
      rw [hout] at h
      cases r with
      | error e' =>
          cases h
          exact .inl rfl
      | ok a => exact .inr ⟨a, s₁, rfl, h⟩

end

/-- The functions of the descent, with what they are given besides a state. -/
inductive Callee where
  | factor
  | term
  | product (lhs : Operand)
  | expr
  | nested
  | sum (lhs : Binary64)
  | program (last : Option Binary64)

/-- A call of a function, with the fuel and the state that it is made with. -/
structure Invocation where
  callee : Callee
  fuel : Nat
  state : State

/-- The trouble of a call. -/
def Invocation.trouble (tokens : List Token) : Invocation → Option (Fault ⊕ EvalError)
  | ⟨.factor, fuel, s⟩ => Descent.trouble (Descent.factor tokens fuel s)
  | ⟨.term, fuel, s⟩ => Descent.trouble (Descent.term tokens fuel s)
  | ⟨.product lhs, fuel, s⟩ => Descent.trouble (Descent.product tokens fuel lhs s)
  | ⟨.expr, fuel, s⟩ => Descent.trouble (Descent.expr tokens fuel s)
  | ⟨.nested, fuel, s⟩ => Descent.trouble (Descent.nested tokens fuel s)
  | ⟨.sum lhs, fuel, s⟩ => Descent.trouble (Descent.sum tokens fuel lhs s)
  | ⟨.program last, fuel, s⟩ => Descent.trouble (Descent.program tokens fuel last s)

/-- A call that is made in another, behind calls that have a value. -/
inductive Invokes (tokens : List Token) : Invocation → Invocation → Prop where
  | parenthesis {fuel : Nat} {s : State} {ahead : Token} :
      tokens[s.position]? = some .openParen → tokens[s.position + 1]? = some ahead →
      Invokes tokens ⟨.factor, fuel + 1, s⟩ ⟨.nested, fuel, s.behind .openParen⟩
  | firstFactor {fuel : Nat} {s : State} :
      Invokes tokens ⟨.term, fuel + 1, s⟩ ⟨.factor, fuel, s⟩
  | product {fuel : Nat} {s s' : State} {lhs : Operand} :
      factor tokens fuel s = .ok (.ok lhs, s') →
      Invokes tokens ⟨.term, fuel + 1, s⟩ ⟨.product lhs, fuel, s'⟩
  | nextFactor {fuel : Nat} {s : State} {lhs : Operand} {token : Token} {op : ProductOp} :
      tokens[s.position]? = some token → token.productOp? = some op →
      Invokes tokens ⟨.product lhs, fuel + 1, s⟩ ⟨.factor, fuel, s.behind token⟩
  | restOfProduct {fuel : Nat} {s s' : State} {lhs rhs : Operand} {token : Token}
      {op : ProductOp} {x y value : Binary64} :
      tokens[s.position]? = some token → token.productOp? = some op →
      factor tokens fuel (s.behind token) = .ok (.ok rhs, s') → lhs.toNumber = .ok x →
      rhs.toNumber = .ok y → op.apply x y = .ok value →
      Invokes tokens ⟨.product lhs, fuel + 1, s⟩ ⟨.product (.number value), fuel, s'⟩
  | firstTerm {fuel : Nat} {s : State} :
      Invokes tokens ⟨.expr, fuel + 1, s⟩ ⟨.term, fuel, s⟩
  | sum {fuel : Nat} {s s' : State} {value : Binary64} :
      term tokens fuel s = .ok (.ok (.number value), s') →
      Invokes tokens ⟨.expr, fuel + 1, s⟩ ⟨.sum value, fuel, s'⟩
  | letAssignment {fuel : Nat} {s s' s'' : State} {name : String} :
      term tokens fuel s = .ok (.ok .letWord, s') → target tokens s' = .ok (.ok name, s'') →
      Invokes tokens ⟨.expr, fuel + 1, s⟩ ⟨.nested, fuel, s''⟩
  | assignment {fuel : Nat} {s s' : State} {name : String} {token : Token} :
      term tokens fuel s = .ok (.ok (.target name), s') → tokens[s'.position]? = some token →
      Invokes tokens ⟨.expr, fuel + 1, s⟩ ⟨.nested, fuel, s'.behind token⟩
  | inside {fuel : Nat} {s : State} :
      s.depth < nestingLimit →
      Invokes tokens ⟨.nested, fuel + 1, s⟩ ⟨.expr, fuel, { s with depth := s.depth + 1 }⟩
  | nextTerm {fuel : Nat} {s : State} {lhs : Binary64} {token : Token} {op : SumOp} :
      tokens[s.position]? = some token → token.sumOp? = some op →
      Invokes tokens ⟨.sum lhs, fuel + 1, s⟩ ⟨.term, fuel, s.behind token⟩
  | restOfSum {fuel : Nat} {s s' : State} {lhs y : Binary64} {rhs : Operand} {token : Token}
      {op : SumOp} :
      tokens[s.position]? = some token → token.sumOp? = some op →
      term tokens fuel (s.behind token) = .ok (.ok rhs, s') → rhs.toNumber = .ok y →
      Invokes tokens ⟨.sum lhs, fuel + 1, s⟩ ⟨.sum (op.apply lhs y), fuel, s'⟩
  | statement {fuel : Nat} {s : State} {last : Option Binary64} {token : Token} :
      tokens[s.position]? = some token → token.isEnd = false →
      Invokes tokens ⟨.program last, fuel + 1, s⟩ ⟨.expr, fuel, s⟩
  | restOfProgram {fuel : Nat} {s s' : State} {last : Option Binary64} {token : Token}
      {value : Binary64} :
      tokens[s.position]? = some token → token.isEnd = false →
      expr tokens fuel s = .ok (.ok value, s') →
      Invokes tokens ⟨.program last, fuel + 1, s⟩ ⟨.program (some value), fuel, s'⟩

section

variable {tokens : List Token} {i j : Invocation} {t : Fault ⊕ EvalError}

/-- The trouble inside a nested call is the trouble of the nested call. -/
theorem trouble_nested {fuel : Nat} {s : State} (hlimit : s.depth < nestingLimit)
    (h : trouble (expr tokens fuel { s with depth := s.depth + 1 }) = some t) :
    trouble (nested tokens (fuel + 1) s) = some t := by
  cases hout : expr tokens fuel { s with depth := s.depth + 1 } with
  | error fault =>
      rw [nested_of_fault hlimit hout]
      rw [hout] at h
      exact h
  | ok p =>
      rcases p with ⟨r, s'⟩
      -- The call has returned, so its depth is the one it was made with and the group can be left.
      rw [nested_of_lt hlimit hout ((keeps tokens fuel).expr _ r s' hout).1]
      rw [hout] at h
      cases r with
      | error e => exact h
      | ok value => cases h

/-- The trouble of a call is the trouble of the call that has made it. -/
theorem Invokes.trouble (h : Invokes tokens i j) (ht : j.trouble tokens = some t) :
    i.trouble tokens = some t := by
  -- One case for each call in the text of the functions.
  cases h with
  | parenthesis htoken hahead =>
      rw [Invocation.trouble, factor, peek_bind htoken, peekSecond_bind hahead]
      dsimp only
      rw [advance_bind htoken]
      exact trouble_bind ht _
  | firstFactor =>
      rw [Invocation.trouble, term]
      exact trouble_bind ht _
  | product hlhs =>
      rw [Invocation.trouble, term, bind_of_ok hlhs]
      exact ht
  | nextFactor htoken hop =>
      rw [Invocation.trouble, Descent.product, peek_bind htoken, hop]
      dsimp only
      rw [advance_bind htoken]
      exact trouble_bind ht _
  | restOfProduct htoken hop hrhs hx hy hvalue =>
      rw [Invocation.trouble, Descent.product, peek_bind htoken, hop]
      dsimp only
      rw [advance_bind htoken, bind_of_ok hrhs, hx, ofExcept_bind_ok, hy, ofExcept_bind_ok,
        hvalue, ofExcept_bind_ok]
      exact ht
  | firstTerm =>
      rw [Invocation.trouble, expr]
      exact trouble_bind ht _
  | sum hterm =>
      rw [Invocation.trouble, expr, bind_of_ok hterm]
      exact ht
  | letAssignment hterm htarget =>
      rw [Invocation.trouble, expr, bind_of_ok hterm]
      dsimp only
      rw [bind_of_ok htarget]
      exact trouble_bind ht _
  | assignment hterm htoken =>
      rw [Invocation.trouble, expr, bind_of_ok hterm]
      dsimp only
      rw [advance_bind htoken]
      exact trouble_bind ht _
  | inside hlimit => exact trouble_nested hlimit ht
  | nextTerm htoken hop =>
      rw [Invocation.trouble, Descent.sum, peek_bind htoken, hop]
      dsimp only
      rw [advance_bind htoken]
      exact trouble_bind ht _
  | restOfSum htoken hop hrhs hy =>
      rw [Invocation.trouble, Descent.sum, peek_bind htoken, hop]
      dsimp only
      rw [advance_bind htoken, bind_of_ok hrhs, hy, ofExcept_bind_ok]
      exact ht
  | statement htoken hend =>
      rw [Invocation.trouble, program, peek_bind htoken, if_neg (ne_true_of_eq_false hend)]
      exact trouble_bind ht _
  | restOfProgram htoken hend hvalue =>
      rw [Invocation.trouble, program, peek_bind htoken, if_neg (ne_true_of_eq_false hend),
        bind_of_ok hvalue]
      exact ht

/-- There is less fuel in a call than in the one that has made it. -/
theorem Invokes.fuel (h : Invokes tokens i j) : i.fuel = j.fuel + 1 := by
  cases h <;> rfl

end

/-- A call has failed because the limit is reached. -/
def MeetsLimit {α : Type} (out : Except Fault (Except EvalError α × State)) : Prop :=
  trouble out = some (.inr .nestedTooDeeply)

section

variable {α β : Type} {tokens : List Token} {s : State}

theorem MeetsLimit.of_peek {f : Token → Call α} (h : MeetsLimit ((peek tokens >>= f) s)) :
    ∃ token, tokens[s.position]? = some token ∧ MeetsLimit (f token s) := by
  cases htoken : tokens[s.position]? with
  | none =>
      rw [bind_apply, Call.andThen, peek, tokenAt, htoken] at h
      cases h
  | some token =>
      rw [peek_bind htoken] at h
      exact ⟨token, rfl, h⟩

theorem MeetsLimit.of_peekSecond {f : Token → Call α}
    (h : MeetsLimit ((peekSecond tokens >>= f) s)) :
    ∃ ahead, tokens[s.position + 1]? = some ahead ∧ MeetsLimit (f ahead s) := by
  cases hahead : tokens[s.position + 1]? with
  | none =>
      rw [bind_apply, Call.andThen, peekSecond, tokenAt, hahead] at h
      cases h
  | some ahead =>
      rw [peekSecond_bind hahead] at h
      exact ⟨ahead, rfl, h⟩

theorem MeetsLimit.of_advance {f : Token → Call α} (h : MeetsLimit ((advance tokens >>= f) s)) :
    ∃ token, tokens[s.position]? = some token ∧ MeetsLimit (f token (s.behind token)) := by
  cases htoken : tokens[s.position]? with
  | none =>
      rw [bind_apply, Call.andThen, advance, htoken] at h
      cases h
  | some token =>
      rw [advance_bind htoken] at h
      exact ⟨token, rfl, h⟩

theorem MeetsLimit.of_ofExcept {r : Except EvalError β} {f : β → Call α}
    (hr : r ≠ .error .nestedTooDeeply) (h : MeetsLimit ((Call.ofExcept r >>= f) s)) :
    ∃ b, r = .ok b ∧ MeetsLimit (f b s) := by
  cases r with
  | error e =>
      have he : e = .nestedTooDeeply := Sum.inr.inj (Option.some.inj h)
      rw [he] at hr
      exact absurd rfl hr
  | ok b => exact ⟨b, rfl, h⟩

theorem toNumber_ne_nestedTooDeeply (o : Operand) : o.toNumber ≠ .error .nestedTooDeeply := by
  intro h
  cases o <;> cases h

theorem apply_ne_nestedTooDeeply (op : ProductOp) (x y : Binary64) :
    op.apply x y ≠ .error .nestedTooDeeply := by
  intro h
  unfold ProductOp.apply at h
  split at h
  · cases h
  · split at h <;> cases h

theorem not_meetsLimit_negated : ¬ MeetsLimit (negated tokens s) := by
  intro h
  rw [negated] at h
  rcases h.of_advance with ⟨token, -, h⟩
  split at h <;> cases h

theorem not_meetsLimit_lookUp {name : String} : ¬ MeetsLimit (lookUp name s) := by
  intro h
  rw [lookUp] at h
  split at h <;> cases h

theorem not_meetsLimit_closing {value : Binary64} : ¬ MeetsLimit (closing tokens value s) := by
  intro h
  rw [closing] at h
  rcases h.of_advance with ⟨token, -, h⟩
  split at h <;> cases h

theorem not_meetsLimit_target : ¬ MeetsLimit (target tokens s) := by
  intro h
  rw [target] at h
  rcases h.of_advance with ⟨token, -, h⟩
  split at h
  · rcases h.of_advance with ⟨second, -, h⟩
    split at h <;> cases h
  · cases h

end

/-- A call of a function that has failed because the limit is reached. -/
def Invocation.MeetsLimit (tokens : List Token) (i : Invocation) : Prop :=
  i.trouble tokens = some (.inr .nestedTooDeeply)

/-- A nested call that finds the limit reached. -/
def Invocation.IsRefused (i : Invocation) : Prop :=
  i.callee = .nested ∧ nestingLimit ≤ i.state.depth

section

variable {tokens : List Token} {fuel : Nat} {s : State}

theorem exists_invokes_factor (h : MeetsLimit (factor tokens (fuel + 1) s)) :
    ∃ j, Invokes tokens ⟨.factor, fuel + 1, s⟩ j ∧ j.MeetsLimit tokens := by
  rw [factor] at h
  rcases h.of_peek with ⟨token, htoken, h⟩
  rcases h.of_peekSecond with ⟨ahead, hahead, h⟩
  split at h
  · rw [advance_bind htoken] at h
    cases h
  · rw [advance_bind htoken] at h
    split at h
    · cases h
    · exact absurd h not_meetsLimit_lookUp
    · cases h
    · -- Of all that a factor does, only what stands in its parentheses opens another group.
      rcases of_trouble_bind h with h | ⟨value, s', -, h⟩
      · exact ⟨_, .parenthesis htoken hahead, h⟩
      · exact absurd h not_meetsLimit_closing
    · exact absurd h not_meetsLimit_negated
    · cases h
    · cases h
    · cases h

theorem exists_invokes_term (h : MeetsLimit (term tokens (fuel + 1) s)) :
    ∃ j, Invokes tokens ⟨.term, fuel + 1, s⟩ j ∧ j.MeetsLimit tokens := by
  rw [term] at h
  rcases of_trouble_bind h with h | ⟨lhs, s', hlhs, h⟩
  · exact ⟨_, .firstFactor, h⟩
  · exact ⟨_, .product hlhs, h⟩

theorem exists_invokes_product {lhs : Operand} (h : MeetsLimit (product tokens (fuel + 1) lhs s)) :
    ∃ j, Invokes tokens ⟨.product lhs, fuel + 1, s⟩ j ∧ j.MeetsLimit tokens := by
  rw [product] at h
  rcases h.of_peek with ⟨token, htoken, h⟩
  cases hop : token.productOp? with
  | none =>
      rw [hop] at h
      cases h
  | some op =>
      rw [hop] at h
      dsimp only at h
      rw [advance_bind htoken] at h
      -- The limit is met in the next factor or behind the operator, since no arithmetic meets it.
      rcases of_trouble_bind h with h | ⟨rhs, s', hrhs, h⟩
      · exact ⟨_, .nextFactor htoken hop, h⟩
      · rcases MeetsLimit.of_ofExcept (toNumber_ne_nestedTooDeeply lhs) h with ⟨x, hx, h⟩
        rcases MeetsLimit.of_ofExcept (toNumber_ne_nestedTooDeeply rhs) h with ⟨y, hy, h⟩
        rcases MeetsLimit.of_ofExcept (apply_ne_nestedTooDeeply op x y) h with ⟨value, hvalue, h⟩
        exact ⟨_, .restOfProduct htoken hop hrhs hx hy hvalue, h⟩

theorem exists_invokes_expr (h : MeetsLimit (expr tokens (fuel + 1) s)) :
    ∃ j, Invokes tokens ⟨.expr, fuel + 1, s⟩ j ∧ j.MeetsLimit tokens := by
  rw [expr] at h
  rcases of_trouble_bind h with h | ⟨operand, s', hterm, h⟩
  · exact ⟨_, .firstTerm, h⟩
  · cases operand with
    | number value => exact ⟨_, .sum hterm, h⟩
    | letWord =>
        -- Behind the name and the equals sign there is one more call, and the write that follows it
        -- meets no limit.
        rcases of_trouble_bind h with h | ⟨name, s'', htarget, h⟩
        · exact absurd h not_meetsLimit_target
        · rcases of_trouble_bind h with h | ⟨value, s₃, -, h⟩
          · exact ⟨_, .letAssignment hterm htarget, h⟩
          · cases h
    | target name =>
        rcases MeetsLimit.of_advance h with ⟨token, htoken, h⟩
        rcases of_trouble_bind h with h | ⟨value, s₃, -, h⟩
        · exact ⟨_, .assignment hterm htoken, h⟩
        · cases h

theorem exists_invokes_nested (h : MeetsLimit (nested tokens (fuel + 1) s)) :
    nestingLimit ≤ s.depth ∨
      ∃ j, Invokes tokens ⟨.nested, fuel + 1, s⟩ j ∧ j.MeetsLimit tokens := by
  by_cases hlimit : s.depth < nestingLimit
  · refine .inr ⟨_, .inside hlimit, ?_⟩
    cases hout : expr tokens fuel { s with depth := s.depth + 1 } with
    | error fault =>
        rw [nested_of_fault hlimit hout] at h
        cases h
    | ok p =>
        rcases p with ⟨r, s'⟩
        rw [nested_of_lt hlimit hout ((keeps tokens fuel).expr _ r s' hout).1] at h
        rw [Invocation.MeetsLimit, Invocation.trouble, hout]
        cases r with
        | error e => exact h
        | ok value => cases h
  · exact .inl (Nat.not_lt.mp hlimit)

theorem exists_invokes_sum {lhs : Binary64} (h : MeetsLimit (sum tokens (fuel + 1) lhs s)) :
    ∃ j, Invokes tokens ⟨.sum lhs, fuel + 1, s⟩ j ∧ j.MeetsLimit tokens := by
  rw [sum] at h
  rcases h.of_peek with ⟨token, htoken, h⟩
  cases hop : token.sumOp? with
  | none =>
      rw [hop] at h
      cases h
  | some op =>
      rw [hop] at h
      dsimp only at h
      rw [advance_bind htoken] at h
      rcases of_trouble_bind h with h | ⟨rhs, s', hrhs, h⟩
      · exact ⟨_, .nextTerm htoken hop, h⟩
      · rcases MeetsLimit.of_ofExcept (toNumber_ne_nestedTooDeeply rhs) h with ⟨y, hy, h⟩
        exact ⟨_, .restOfSum htoken hop hrhs hy, h⟩

theorem exists_invokes_program {last : Option Binary64}
    (h : MeetsLimit (program tokens (fuel + 1) last s)) :
    ∃ j, Invokes tokens ⟨.program last, fuel + 1, s⟩ j ∧ j.MeetsLimit tokens := by
  rw [program] at h
  rcases h.of_peek with ⟨token, htoken, h⟩
  by_cases hend : token.isEnd = true
  · rw [if_pos hend] at h
    cases h
  · rw [if_neg hend] at h
    rw [Bool.not_eq_true] at hend
    rcases of_trouble_bind h with h | ⟨value, s', hvalue, h⟩
    · exact ⟨_, .statement htoken hend, h⟩
    · exact ⟨_, .restOfProgram htoken hend hvalue, h⟩

end

section

variable {tokens : List Token} {i j : Invocation}

/-- A call that fails because the limit is reached is refused, or has made a call that fails
    so. -/
theorem exists_invokes (h : i.MeetsLimit tokens) :
    i.IsRefused ∨ ∃ j, Invokes tokens i j ∧ j.MeetsLimit tokens := by
  rcases i with ⟨callee, fuel, s⟩
  cases fuel with
  | zero => cases callee <;> cases h
  | succ fuel =>
      cases callee with
      | factor => exact .inr (exists_invokes_factor h)
      | term => exact .inr (exists_invokes_term h)
      | product lhs => exact .inr (exists_invokes_product h)
      | expr => exact .inr (exists_invokes_expr h)
      | nested => exact (exists_invokes_nested h).imp_left fun hlimit => ⟨rfl, hlimit⟩
      | sum lhs => exact .inr (exists_invokes_sum h)
      | program last => exact .inr (exists_invokes_program h)

/-- All that a call comes to, directly or through others, or is. -/
def Reaches (tokens : List Token) : Invocation → Invocation → Prop :=
  Relation.ReflTransGen (Invokes tokens)

theorem Reaches.trouble {t : Fault ⊕ EvalError} (h : Reaches tokens i j)
    (ht : j.trouble tokens = some t) : i.trouble tokens = some t := by
  induction h using Relation.ReflTransGen.head_induction_on with
  | refl => exact ht
  | head hinvokes _ ih => exact hinvokes.trouble ih

/-- A call fails because the limit is reached exactly if it comes to a call that is refused,
    unless it is a fault. -/
theorem meetsLimit_iff (hfault : ∀ fault, i.trouble tokens ≠ some (.inl fault)) :
    i.MeetsLimit tokens ↔ ∃ j, Reaches tokens i j ∧ j.IsRefused := by
  constructor
  · -- Less fuel is left in each call that fails so, and at last one is refused.
    intro h
    clear hfault
    induction hfuel : i.fuel generalizing i with
    | zero =>
        rcases exists_invokes h with hrefused | ⟨j, hinvokes, -⟩
        · exact ⟨i, .refl, hrefused⟩
        · rw [hinvokes.fuel] at hfuel
          cases hfuel
    | succ fuel ih =>
        rcases exists_invokes h with hrefused | ⟨j, hinvokes, hj⟩
        · exact ⟨i, .refl, hrefused⟩
        · rw [hinvokes.fuel] at hfuel
          rcases ih hj (Nat.succ.inj hfuel) with ⟨k, hreaches, hrefused⟩
          exact ⟨k, .head hinvokes hreaches, hrefused⟩
  · rintro ⟨⟨callee, fuel, s⟩, hreaches, hcallee, hlimit⟩
    dsimp only at hcallee hlimit
    rw [hcallee] at hreaches
    cases fuel with
    | zero => exact absurd (hreaches.trouble rfl) (hfault .outOfFuel)
    | succ fuel =>
        refine hreaches.trouble ?_
        rw [Invocation.trouble, nested_of_le hlimit]
        rfl

end

end Descent

end Calculator
