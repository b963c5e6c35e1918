import Calculator.Evaluation.Groups
import Calculator.Proofs.Descent

/-!
# What a Call Leaves Open

The depth of the descent, and what its tokens say is open, over a single call.

The depth is the same behind a call as before it, whether the call fails or not. What is open
by the tokens is the same only where a call has a value: a factor closes the parenthesis that
it has opened, and so a term, a product and a sum leave open what they have found open. A
statement may also end behind the right-hand side of an assignment. Nothing in the tokens ends
the assignment there, so it counts as open, and so do those whose right-hand side it is. The
end of a parenthesis or of the whole statement, which is all that can follow, ends them.

Nothing is assumed of the tokens or of the fuel, since a call that ends in a fault leaves
nothing.

## Main definitions

* `Descent.openAt`: What is open in a state, by its tokens.
* `Descent.Leaves`: A way from a state to another, with the assignments that are left open.
* `Descent.Keeps`: A call that keeps the depth, and whose value has a property.

## Theorems

* `Descent.Keeps.bind`: Calls one after the other.
* `Descent.factor_keeps`, `Descent.term_keeps`, `Descent.product_keeps`,
  `Descent.expr_keeps`, `Descent.nested_keeps`, `Descent.sum_keeps`: Each function, from the
  functions it calls.
* `Descent.keeps`: All functions, by induction on the fuel.
-/

namespace Calculator

namespace Descent

variable {tokens : List Token}

/-- What is open in a state, by the tokens since the beginning of its statement. -/
def openAt (tokens : List Token) (start : Nat) (s : State) : List Group :=
  openBetween tokens start s.position

/-- A way from a state to another, on which some assignments have begun whose right-hand sides
    end there. Apart from them, what is open is what was open before. -/
structure Leaves (tokens : List Token) (count : Nat) (s s' : State) : Prop where
  position_le : s.position ≤ s'.position
  openAt_eq : ∀ start ≤ s.position,
    openAt tokens start s' = List.replicate count .assignment ++ openAt tokens start s

theorem Leaves.refl (s : State) : Leaves tokens 0 s s :=
  ⟨Nat.le_refl _, fun _ _ => rfl⟩

theorem Leaves.trans {m n : Nat} {s s' s'' : State} (h : Leaves tokens m s s')
    (h' : Leaves tokens n s' s'') : Leaves tokens (n + m) s s'' := by
  refine ⟨Nat.le_trans h.position_le h'.position_le, fun start hstart => ?_⟩
  rw [h'.openAt_eq start (Nat.le_trans hstart h.position_le), h.openAt_eq start hstart,
    ← List.append_assoc, List.replicate_append_replicate]

/-- A token has been taken that is no mark of the end. -/
theorem openAt_behind {s : State} {token : Token} {start : Nat} (hstart : start ≤ s.position)
    (htoken : tokens[s.position]? = some token) (hend : token.isEnd = false) :
    openAt tokens start (s.behind token) = openAfter (openAt tokens start s) token := by
  rw [State.behind_of_not_isEnd hend]
  exact openBetween_succ hstart htoken

theorem position_le_behind (s : State) (token : Token) :
    s.position ≤ (s.behind token).position := by
  unfold State.behind
  split
  · exact Nat.le_refl _
  · exact Nat.le_succ _

theorem depth_behind (s : State) (token : Token) : (s.behind token).depth = s.depth := by
  unfold State.behind
  split <;> rfl

/-- Taking a token that opens and closes nothing. -/
theorem Leaves.behind {s : State} {token : Token} (htoken : tokens[s.position]? = some token)
    (h : ∀ groups, openAfter groups token = groups) : Leaves tokens 0 s (s.behind token) := by
  refine ⟨position_le_behind s token, fun start hstart => ?_⟩
  by_cases hend : token.isEnd = true
  · rw [State.behind, if_pos hend]
    rfl
  · rw [Bool.not_eq_true] at hend
    rw [openAt_behind hstart htoken hend, h]
    rfl

theorem Leaves.equals {s : State} (htoken : tokens[s.position]? = some .equals) :
    Leaves tokens 1 s (s.behind .equals) :=
  ⟨position_le_behind s _, fun _ hstart => openAt_behind hstart htoken rfl⟩

/-- Taking a parenthesis, with a statement inside and its end behind it. -/
theorem Leaves.parenthesis {count : Nat} {s s' : State}
    (hopen : tokens[s.position]? = some .openParen)
    (hinside : Leaves tokens count (s.behind .openParen) s')
    (hclose : tokens[s'.position]? = some .closeParen) :
    Leaves tokens 0 s (s'.behind .closeParen) := by
  have hle := Nat.le_trans (position_le_behind s _) hinside.position_le
  refine ⟨Nat.le_trans hle (position_le_behind s' _), fun start hstart => ?_⟩
  have hbehind := Nat.le_trans hstart (position_le_behind s .openParen)
  rw [openAt_behind (Nat.le_trans hstart hle) hclose rfl, hinside.openAt_eq start hbehind,
    openAt_behind hstart hopen rfl]
  exact openAfter_closeParen count _

/-- A call that comes to `out` keeps the depth of a state, and if it has a value, `post`
    holds. -/
def Keeps {α : Type} (s : State) (out : Except Fault (Except EvalError α × State))
    (post : α → State → Prop) : Prop :=
  ∀ r s', out = .ok (r, s') → s'.depth = s.depth ∧ ∀ a, r = .ok a → post a s'

section

variable {α β : Type} {s s₁ : State} {post : α → State → Prop}

theorem Keeps.fault (f : Fault) : Keeps s (.error f) post :=
  fun _ _ h => nomatch h

theorem Keeps.fail (h : s₁.depth = s.depth) (e : EvalError) :
    Keeps s (.ok (.error e, s₁)) post := by
  intro r s' hout
  cases hout
  exact ⟨h, fun a ha => by cases ha⟩

theorem Keeps.ok {a : α} (h : s₁.depth = s.depth) (ha : post a s₁) :
    Keeps s (.ok (.ok a, s₁)) post := by
  intro r s' hout
  cases hout
  refine ⟨h, fun b hb => ?_⟩
  cases hb
  exact ha

theorem Keeps.mono {out : Except Fault (Except EvalError α × State)} {post' : α → State → Prop}
    (h : Keeps s out post) (himp : ∀ a s', post a s' → post' a s') : Keeps s out post' :=
  fun r s' hout => ⟨(h r s' hout).1, fun a ha => himp a s' ((h r s' hout).2 a ha)⟩

theorem Keeps.of_depth {out : Except Fault (Except EvalError α × State)}
    (h : Keeps s₁ out post) (hdepth : s₁.depth = s.depth) : Keeps s out post :=
  fun r s' hout => ⟨(h r s' hout).1.trans hdepth, (h r s' hout).2⟩

/-- Calls one after the other. -/
theorem Keeps.bind {x : Call α} {f : α → Call β} {post' : β → State → Prop}
    (hx : Keeps s (x s₁) post)
    (hf : ∀ a s₂, s₂.depth = s.depth → post a s₂ → Keeps s (f a s₂) post') :
    Keeps s ((x >>= f) s₁) post' := by
  rw [bind_apply, Call.andThen]
  cases hout : x s₁ with
  | error fault => exact .fault fault
  | ok p =>
      rcases p with ⟨r, s₂⟩
      rcases hx r s₂ hout with ⟨hdepth, hpost⟩
      cases r with
      | error e => exact .fail hdepth e
      | ok a => exact hf a s₂ hdepth (hpost a rfl)

theorem Keeps.peek {f : Token → Call α}
    (h : ∀ token, tokens[s₁.position]? = some token → Keeps s (f token s₁) post) :
    Keeps s ((peek tokens >>= f) s₁) post := by
  cases htoken : tokens[s₁.position]? with
  | none =>
      rw [bind_apply, Call.andThen, Descent.peek, tokenAt, htoken]
      exact .fault _
  | some token =>
      rw [peek_bind htoken]
      exact h token htoken

theorem Keeps.peekSecond {f : Token → Call α}
    (h : ∀ ahead, tokens[s₁.position + 1]? = some ahead → Keeps s (f ahead s₁) post) :
    Keeps s ((peekSecond tokens >>= f) s₁) post := by
  cases hahead : tokens[s₁.position + 1]? with
  | none =>
      rw [bind_apply, Call.andThen, Descent.peekSecond, tokenAt, hahead]
      exact .fault _
  | some ahead =>
      rw [peekSecond_bind hahead]
      exact h ahead hahead

theorem Keeps.advance {f : Token → Call α}
    (h : ∀ token, tokens[s₁.position]? = some token → Keeps s (f token (s₁.behind token)) post) :
    Keeps s ((advance tokens >>= f) s₁) post := by
  cases htoken : tokens[s₁.position]? with
  | none =>
      rw [bind_apply, Call.andThen, Descent.advance, htoken]
      exact .fault _
  | some token =>
      rw [advance_bind htoken]
      exact h token htoken

theorem Keeps.ofExcept {r : Except EvalError β} {f : β → Call α} (hdepth : s₁.depth = s.depth)
    (h : ∀ b, Keeps s (f b s₁) post) : Keeps s ((Call.ofExcept r >>= f) s₁) post := by
  cases r with
  | error e => exact .fail hdepth e
  | ok b => exact h b

end

/-- A name that begins an assignment is handed upwards in front of its equals sign. -/
def BeforeEquals (tokens : List Token) (o : Operand) (s : State) : Prop :=
  ∀ name, o = .target name → tokens[s.position]? = some .equals

theorem beforeEquals_number (value : Binary64) (s : State) :
    BeforeEquals tokens (.number value) s := by
  intro name h
  cases h

theorem beforeEquals_letWord (s : State) : BeforeEquals tokens .letWord s := by
  intro name h
  cases h

def FactorKeeps (tokens : List Token) (fuel : Nat) : Prop :=
  ∀ s, Keeps s (factor tokens fuel s) fun o s' =>
    Leaves tokens 0 s s' ∧ BeforeEquals tokens o s'

def TermKeeps (tokens : List Token) (fuel : Nat) : Prop :=
  ∀ s, Keeps s (term tokens fuel s) fun o s' =>
    Leaves tokens 0 s s' ∧ BeforeEquals tokens o s'

def ProductKeeps (tokens : List Token) (fuel : Nat) : Prop :=
  ∀ lhs s, BeforeEquals tokens lhs s →
    Keeps s (product tokens fuel lhs s) fun o s' =>
      Leaves tokens 0 s s' ∧ BeforeEquals tokens o s'

def ExprKeeps (tokens : List Token) (fuel : Nat) : Prop :=
  ∀ s, Keeps s (expr tokens fuel s) fun _ s' => ∃ count, Leaves tokens count s s'

def NestedKeeps (tokens : List Token) (fuel : Nat) : Prop :=
  ∀ s, Keeps s (nested tokens fuel s) fun _ s' => ∃ count, Leaves tokens count s s'

def SumKeeps (tokens : List Token) (fuel : Nat) : Prop :=
  ∀ lhs s, Keeps s (sum tokens fuel lhs s) fun _ s' => Leaves tokens 0 s s'

theorem openAfter_of_productOp? {token : Token} {op : ProductOp}
    (h : token.productOp? = some op) (groups : List Group) : openAfter groups token = groups := by
  cases token <;> first | rfl | cases h

theorem openAfter_of_sumOp? {token : Token} {op : SumOp} (h : token.sumOp? = some op)
    (groups : List Group) : openAfter groups token = groups := by
  cases token <;> first | rfl | cases h

section

variable {fuel : Nat}

theorem negated_keeps (s : State) :
    Keeps s (negated tokens s) fun o s' => Leaves tokens 0 s s' ∧ BeforeEquals tokens o s' := by
  rw [negated]
  refine .advance fun token htoken => ?_
  have hdepth := depth_behind s token
  split
  · exact .ok hdepth ⟨.behind htoken fun _ => rfl, beforeEquals_number _ _⟩
  · exact .fail hdepth _

/-- The name and the equals sign behind the word for assignment open an assignment. -/
theorem target_keeps (s : State) :
    Keeps s (target tokens s) fun _ s' => Leaves tokens 1 s s' := by
  rw [target]
  refine .advance fun token htoken => ?_
  have hdepth := depth_behind s token
  split
  · refine .advance fun second hsecond => ?_
    have hdepth' := (depth_behind _ second).trans hdepth
    split
    · exact .ok hdepth' ((Leaves.behind htoken fun _ => rfl).trans (.equals hsecond))
    · exact .fail hdepth' _
  · exact .fail hdepth _

theorem lookUp_keeps (tokens : List Token) (name : String) (s : State) :
    Keeps s (lookUp name s) fun o s' => Leaves tokens 0 s s' ∧ BeforeEquals tokens o s' := by
  rw [lookUp]
  split
  · exact .ok rfl ⟨.refl s, beforeEquals_number _ _⟩
  · exact .fail rfl _

theorem factor_keeps (hnested : NestedKeeps tokens fuel) : FactorKeeps tokens (fuel + 1) := by
  intro s
  rw [factor]
  refine .peek fun token htoken => .peekSecond fun ahead hahead => ?_
  have hdepth := depth_behind s token
  split
  · -- A name is left in front of its equals sign.
    rw [advance_bind htoken]
    exact .ok hdepth ⟨.behind htoken fun _ => rfl, fun _ _ => hahead⟩
  · rw [advance_bind htoken]
    split
    · exact .ok hdepth ⟨.behind htoken fun _ => rfl, beforeEquals_number _ _⟩
    · refine ((lookUp_keeps tokens _ _).of_depth hdepth).mono fun _ s' hs' => ?_
      exact ⟨(Leaves.behind htoken fun _ => rfl).trans hs'.1, hs'.2⟩
    · exact .ok hdepth ⟨.behind htoken fun _ => rfl, beforeEquals_letWord _⟩
    · -- The parenthesis is closed with all that was begun in it.
      refine ((hnested _).of_depth hdepth).bind fun value s₂ hdepth₂ hinside => ?_
      rcases hinside with ⟨count, hinside⟩
      rw [closing]
      refine .advance fun token' htoken' => ?_
      have hdepth₃ := (depth_behind s₂ token').trans hdepth₂
      split
      · exact .ok hdepth₃ ⟨.parenthesis htoken hinside htoken', beforeEquals_number _ _⟩
      · exact .fail hdepth₃ _
    · refine ((negated_keeps _).of_depth hdepth).mono fun _ s' hs' => ?_
      exact ⟨(Leaves.behind htoken fun _ => rfl).trans hs'.1, hs'.2⟩
    · exact .fail hdepth _
    · exact .fail hdepth _
    · exact .fail hdepth _

theorem term_keeps (hfactor : FactorKeeps tokens fuel) (hproduct : ProductKeeps tokens fuel) :
    TermKeeps tokens (fuel + 1) := by
  intro s
  rw [term]
  refine (hfactor s).bind fun lhs s₁ hdepth hlhs => ?_
  refine ((hproduct lhs s₁ hlhs.2).of_depth hdepth).mono fun _ _ ho => ?_
  exact ⟨hlhs.1.trans ho.1, ho.2⟩

theorem product_keeps (hfactor : FactorKeeps tokens fuel) (hproduct : ProductKeeps tokens fuel) :
    ProductKeeps tokens (fuel + 1) := by
  intro lhs s hlhs
  rw [product]
  refine .peek fun token htoken => ?_
  cases hop : token.productOp? with
  | none => exact .ok rfl ⟨.refl s, hlhs⟩
  | some op =>
      -- An operator neither opens nor closes a group, so only the two calls behind it count.
      have hbehind : Leaves tokens 0 s (s.behind token) :=
        .behind htoken (openAfter_of_productOp? hop)
      dsimp only
      rw [advance_bind htoken]
      refine ((hfactor _).of_depth (depth_behind s token)).bind fun rhs s₂ hdepth hrhs => ?_
      refine .ofExcept hdepth fun x => .ofExcept hdepth fun y => .ofExcept hdepth fun value => ?_
      have hnumber : BeforeEquals tokens (.number value) s₂ := beforeEquals_number value s₂
      refine ((hproduct _ s₂ hnumber).of_depth hdepth).mono fun _ _ ho => ?_
      exact ⟨(hbehind.trans hrhs.1).trans ho.1, ho.2⟩

theorem sum_keeps (hterm : TermKeeps tokens fuel) (hsum : SumKeeps tokens fuel) :
    SumKeeps tokens (fuel + 1) := by
  intro lhs s
  rw [sum]
  refine .peek fun token htoken => ?_
  cases hop : token.sumOp? with
  | none => exact .ok rfl (.refl s)
  | some op =>
      have hbehind : Leaves tokens 0 s (s.behind token) :=
        .behind htoken (openAfter_of_sumOp? hop)
      dsimp only
      rw [advance_bind htoken]
      refine ((hterm _).of_depth (depth_behind s token)).bind fun rhs s₂ hdepth hrhs => ?_
      refine .ofExcept hdepth fun y => ?_
      refine ((hsum _ s₂).of_depth hdepth).mono fun _ _ hs' => ?_
      exact (hbehind.trans hrhs.1).trans hs'

theorem expr_keeps (hterm : TermKeeps tokens fuel) (hsum : SumKeeps tokens fuel)
    (hnested : NestedKeeps tokens fuel) : ExprKeeps tokens (fuel + 1) := by
  intro s
  -- Behind the right-hand side, the assignment is left open with those inside.
  have hassign {name : String} {s₂ : State} (hdepth : s₂.depth = s.depth)
      (hs₂ : Leaves tokens 1 s s₂) :
      Keeps s ((nested tokens fuel >>= write name) s₂) fun _ s' =>
        ∃ count, Leaves tokens count s s' := by
    refine ((hnested s₂).of_depth hdepth).bind fun value s₃ hdepth₃ hs₃ => ?_
    rcases hs₃ with ⟨count, hs₃⟩
    have hleaves := hs₂.trans hs₃
    exact .ok hdepth₃ ⟨count + 1, hleaves.position_le, hleaves.openAt_eq⟩
  rw [expr]
  refine (hterm s).bind fun operand s₁ hdepth hs₁ => ?_
  rcases hs₁ with ⟨hs₁, hequals⟩
  cases operand with
  | number value =>
      exact ((hsum value s₁).of_depth hdepth).mono fun _ _ hs' => ⟨0, hs₁.trans hs'⟩
  | letWord =>
      refine ((target_keeps s₁).of_depth hdepth).bind fun name s₂ hdepth₂ hs₂ => ?_
      exact hassign hdepth₂ (hs₁.trans hs₂)
  | target name =>
      have htoken := hequals name rfl
      dsimp only
      rw [advance_bind htoken]
      exact hassign ((depth_behind s₁ _).trans hdepth) (hs₁.trans (.equals htoken))

/-- A fault inside is the fault of the nested call. -/
theorem nested_of_fault {s : State} {fault : Fault} (h : s.depth < nestingLimit)
    (hexpr : expr tokens fuel { s with depth := s.depth + 1 } = .error fault) :
    nested tokens (fuel + 1) s = .error fault := by
  have henter : (enter.andThen fun _ => expr tokens fuel) s = .error fault := by
    rw [Call.andThen, enter, if_pos h]
    exact hexpr
  rw [nested]
  refine (if_neg (Nat.not_le.mpr h)).trans ?_
  rw [henter]

theorem nested_keeps (hexpr : ExprKeeps tokens fuel) : NestedKeeps tokens (fuel + 1) := by
  intro s
  by_cases hlimit : s.depth < nestingLimit
  · cases hout : expr tokens fuel { s with depth := s.depth + 1 } with
    | error fault =>
        rw [nested_of_fault hlimit hout]
        exact .fault fault
    | ok p =>
        -- The depth behind what is inside is the one there, so that it can be taken back.
        rcases p with ⟨r, s'⟩
        rcases hexpr _ r s' hout with ⟨hdepth, hpost⟩
        rw [nested_of_lt hlimit hout hdepth]
        cases r with
        | error e => exact .fail rfl e
        | ok value =>
            rcases hpost value rfl with ⟨count, hleaves⟩
            exact .ok rfl ⟨count, hleaves.position_le, hleaves.openAt_eq⟩
  · rw [nested_of_le (Nat.not_lt.mp hlimit)]
    exact .fail rfl _

end

/-- All functions keep the depth. -/
structure AllKeep (tokens : List Token) (fuel : Nat) : Prop where
  factor : FactorKeeps tokens fuel
  term : TermKeeps tokens fuel
  product : ProductKeeps tokens fuel
  expr : ExprKeeps tokens fuel
  nested : NestedKeeps tokens fuel
  sum : SumKeeps tokens fuel

theorem keeps (tokens : List Token) (fuel : Nat) : AllKeep tokens fuel := by
  induction fuel with
  | zero =>
      -- Without fuel every call is a fault.
      exact
        { factor := fun _ => .fault _
          term := fun _ => .fault _
          product := fun _ _ _ => .fault _
          expr := fun _ => .fault _
          nested := fun _ => .fault _
          sum := fun _ _ => .fault _ }
  | succ fuel ih =>
      exact
        { factor := factor_keeps ih.nested
          term := term_keeps ih.factor ih.product
          product := product_keeps ih.factor ih.product
          expr := expr_keeps ih.term ih.sum ih.nested
          nested := nested_keeps ih.expr
          sum := sum_keeps ih.term ih.sum }

end Descent

end Calculator
