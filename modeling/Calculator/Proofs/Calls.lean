import Calculator.Evaluation.Descent
import Calculator.Proofs.Simulation

/-!
# Calls that Follow the Machine

How the descent and the machine are compared.

A call of the descent is compared with the machine by what is left to do. Where the call is
made, the machine stands at the same token in a certain phase and ends in some way. Where
the call returns, the machine stands at the token after it in another phase and ends in the
same way, since it is the same run; and where the call fails, that is how the run ends, with
the tokens from the cursor on left over. `Follows` says this for one call, together with
what a call leaves as it was: as much is open as before, and the cursor has not gone back
or past the last token but one.

The cursor stays there because the last two tokens are marks of the end and there is no mark
before them. A look at the next token and at the one behind it is then inside the tokens,
and taking a token that is no mark leads to a place where the same holds.

A word that begins an assignment is handed upwards by the descent, while the machine decides
at once what it is. `WordAt` is a word that has been handed upwards, and the machine is
moved over it only where it is known what goes on with it.

## Main definitions

* `Descent.Marked`: Tokens that end with two marks and have none before.
* `Descent.Stays`: The states that a call may return in.
* `Descent.Follows`: A call that goes on as the machine does.
* `Descent.At`: A place where the machine and the descent meet.
* `Descent.endAt`, `Descent.endWith`, `Descent.endInside`: How a statement ends that goes on
  from there.
* `Descent.WordAt`: A word that begins an assignment has been taken.

## Theorems

* `Descent.Marked.stays_behind`: Taking a token is safe.
* `Descent.Follows.bind`: Calls one after the other.
* `Descent.WordAt.endAt_of_product`, `Descent.WordAt.endAt_of_sum`,
  `Descent.WordAt.endAt_start`: What the machine makes of a word.
-/

namespace Calculator

namespace Descent

/-- Tokens that end with exactly two marks of the end and have none before them. -/
def Marked (tokens : List Token) : Prop :=
  ∃ front, tokens = front ++ [.endOfText, .endOfText] ∧ Token.endOfText ∉ front

-- Behind a token that is no mark there are two more.
theorem Marked.lt_of_not_isEnd {tokens : List Token} (h : Marked tokens) {index : Nat}
    {token : Token} (htoken : tokens[index]? = some token) (hend : token.isEnd = false) :
    index + 2 < tokens.length := by
  rcases h with ⟨front, rfl, -⟩
  rw [List.length_append]
  by_cases hlt : index < front.length
  · simp only [List.length_cons, List.length_nil]
    omega
  · -- There are only marks where the tokens of the text have ended.
    exfalso
    rw [List.getElem?_append_right (by omega)] at htoken
    have hmark : token = .endOfText := by
      have hmem := List.mem_of_getElem? htoken
      simp only [List.mem_cons, List.not_mem_nil, or_false, or_self] at hmem
      exact hmem
    rw [hmark] at hend
    cases hend

theorem exists_getElem? {tokens : List Token} {index : Nat} (h : index < tokens.length) :
    ∃ token, tokens[index]? = some token :=
  ⟨tokens[index], List.getElem?_eq_getElem h⟩

/-- The states that a call may return in: as much is open as before, and the cursor has not
    gone back, nor past the last token but one. -/
structure Stays (tokens : List Token) (s s' : State) : Prop where
  depth : s'.depth = s.depth
  position_le : s.position ≤ s'.position
  inside : s'.position + 1 < tokens.length

theorem Stays.trans {tokens : List Token} {s s' s'' : State} (h : Stays tokens s s')
    (h' : Stays tokens s' s'') : Stays tokens s s'' :=
  ⟨h'.depth.trans h.depth, Nat.le_trans h.position_le h'.position_le, h'.inside⟩

theorem Stays.refl {tokens : List Token} {s : State} (h : s.position + 1 < tokens.length) :
    Stays tokens s s :=
  ⟨rfl, Nat.le_refl _, h⟩

/-- Taking a token leads to a state that a call may return in. -/
theorem Marked.stays_behind {tokens : List Token} (h : Marked tokens) {s : State} {token : Token}
    (hinside : s.position + 1 < tokens.length) (htoken : tokens[s.position]? = some token) :
    Stays tokens s (s.behind token) := by
  rw [State.behind]
  by_cases hend : token.isEnd = true
  · -- The mark of the end is not taken.
    rw [if_pos hend]
    exact Stays.refl hinside
  · rw [if_neg hend]
    rw [Bool.not_eq_true] at hend
    exact ⟨rfl, Nat.le_succ _, h.lt_of_not_isEnd htoken hend⟩

theorem State.behind_of_not_isEnd {token : Token} (h : token.isEnd = false) (s : State) :
    s.behind token = { s with position := s.position + 1 } := by
  rw [behind, if_neg (ne_true_of_eq_false h)]

-- An operation is no mark of the end.
theorem isEnd_of_productOp? {token : Token} {op : ProductOp} (h : token.productOp? = some op) :
    token.isEnd = false := by
  cases token <;> first | rfl | cases h

theorem isEnd_of_sumOp? {token : Token} {op : SumOp} (h : token.sumOp? = some op) :
    token.isEnd = false := by
  cases token <;> first | rfl | cases h

theorem drop_eq_cons {tokens : List Token} {index : Nat} {token : Token}
    (h : tokens[index]? = some token) :
    tokens.drop index = token :: tokens.drop (index + 1) := by
  rcases List.getElem?_eq_some_iff.mp h with ⟨hlt, rfl⟩
  exact List.drop_eq_getElem_cons hlt

theorem headD_drop {tokens : List Token} {index : Nat} {token : Token}
    (h : tokens[index]? = some token) : (tokens.drop index).headD .endOfText = token := by
  rw [drop_eq_cons h, List.headD_cons]

theorem endsProduct_drop {tokens : List Token} {index : Nat} {token : Token}
    (h : tokens[index]? = some token) :
    EndsProduct (tokens.drop index) ↔ token.productOp? = none := by
  rw [drop_eq_cons h, EndsProduct]
  simp only [List.head?_cons, Option.mem_some_iff, forall_eq']

/-- A failure at a token leaves over the tokens from the cursor on, behind that token. -/
theorem restAfterFailure_drop {tokens : List Token} {s : State} {token : Token}
    (h : tokens[s.position]? = some token) :
    restAfterFailure token (tokens.drop (s.position + 1)) =
      tokens.drop (s.behind token).position := by
  rw [restAfterFailure, State.behind]
  by_cases hend : token.isEnd = true
  · rw [if_pos hend, if_pos hend, drop_eq_cons h]
  · rw [if_neg hend, if_neg hend]

/-- How a statement ends that fails in a state. -/
def failedAt (tokens : List Token) (s : State) (e : EvalError) : StatementEnd :=
  { result := .error e, memory := s.memory, rest := tokens.drop s.position }

section

variable {tokens : List Token} {s : State} {token ahead : Token}
  (htoken : tokens[s.position]? = some token) (hahead : tokens[s.position + 1]? = some ahead)

include htoken hahead

theorem run_of_advance {m m' : Machine} (h : m.step token ahead = .advance m') :
    m.run (tokens.drop s.position) = m'.run (tokens.drop (s.position + 1)) := by
  rw [drop_eq_cons htoken, Machine.run, headD_drop hahead, h]

theorem run_of_finish {m : Machine} {memory : Memory} {value : Binary64}
    (h : m.step token ahead = .finish memory value) :
    m.run (tokens.drop s.position) =
      { result := .ok value, memory, rest := tokens.drop s.position } := by
  rw [drop_eq_cons htoken, Machine.run, headD_drop hahead, h]

theorem run_of_fail {m : Machine} {e : EvalError} (h : m.step token ahead = .fail s.memory e) :
    m.run (tokens.drop s.position) = failedAt tokens (s.behind token) e := by
  have hmemory : (s.behind token).memory = s.memory := by
    rw [State.behind]
    split <;> rfl
  rw [drop_eq_cons htoken, Machine.run, headD_drop hahead, h, failedAt, hmemory,
    ← restAfterFailure_drop htoken]

end

theorem bind_apply {α β : Type} (x : Call α) (f : α → Call β) (s : State) :
    (x >>= f) s = x.andThen f s :=
  rfl

theorem peek_bind {α : Type} {tokens : List Token} {s : State} {token : Token}
    (h : tokens[s.position]? = some token) (f : Token → Call α) :
    (peek tokens >>= f) s = f token s := by
  rw [bind_apply, Call.andThen, peek, tokenAt, h]

theorem peekSecond_bind {α : Type} {tokens : List Token} {s : State} {token : Token}
    (h : tokens[s.position + 1]? = some token) (f : Token → Call α) :
    (peekSecond tokens >>= f) s = f token s := by
  rw [bind_apply, Call.andThen, peekSecond, tokenAt, h]

theorem advance_bind {α : Type} {tokens : List Token} {s : State} {token : Token}
    (h : tokens[s.position]? = some token) (f : Token → Call α) :
    (advance tokens >>= f) s = f token (s.behind token) := by
  rw [bind_apply, Call.andThen, advance, h]

theorem ofExcept_bind_ok {α β : Type} (a : α) (f : α → Call β) (s : State) :
    (Call.ofExcept (.ok a) >>= f) s = f a s :=
  rfl

/-- A call from a state `s` that comes to `out` and goes on as the machine does, whose
    statement ends as `ended`: if it returns a value, `post` holds, and if it fails, so does
    the machine. It does not end in a fault. -/
def Follows {α : Type} (tokens : List Token) (ended : StatementEnd) (s : State)
    (out : Except Fault (Except EvalError α × State)) (post : α → State → Prop) : Prop :=
  ∃ r s', out = .ok (r, s') ∧ Stays tokens s s' ∧
    match r with
    | .ok a => post a s'
    | .error e => ended = failedAt tokens s' e

section

variable {α β : Type} {tokens : List Token} {ended : StatementEnd} {s : State}

theorem Follows.ok {a : α} {s' : State} {post : α → State → Prop} (hstays : Stays tokens s s')
    (h : post a s') : Follows tokens ended s (.ok (.ok a, s')) post :=
  ⟨.ok a, s', rfl, hstays, h⟩

theorem Follows.fail {e : EvalError} {s' : State} {post : α → State → Prop}
    (hstays : Stays tokens s s') (h : ended = failedAt tokens s' e) :
    Follows tokens ended s (.ok (.error e, s')) post :=
  ⟨.error e, s', rfl, hstays, h⟩

/-- A call follows the machine from any state that leads to the one it is made in. -/
theorem Follows.of_stays {s₀ : State} {out : Except Fault (Except EvalError α × State)}
    {post : α → State → Prop} (hstays : Stays tokens s₀ s) (h : Follows tokens ended s out post) :
    Follows tokens ended s₀ out post := by
  rcases h with ⟨r, s', hout, hs', hpost⟩
  exact ⟨r, s', hout, hstays.trans hs', hpost⟩

/-- A call leads to all that follows from what it leads to. -/
theorem Follows.mono {out : Except Fault (Except EvalError α × State)}
    {post post' : α → State → Prop} (h : Follows tokens ended s out post)
    (himp : ∀ a s', Stays tokens s s' → post a s' → post' a s') :
    Follows tokens ended s out post' := by
  rcases h with ⟨r, s', hout, hs', hpost⟩
  refine ⟨r, s', hout, hs', ?_⟩
  cases r with
  | error e => exact hpost
  | ok a => exact himp a s' hs' hpost

/-- Calls that follow the machine one after the other. -/
theorem Follows.bind {x : Call α} {f : α → Call β} {mid : α → State → Prop}
    {post : β → State → Prop} (hx : Follows tokens ended s (x s) mid)
    (hf : ∀ a s', Stays tokens s s' → mid a s' → Follows tokens ended s' (f a s') post) :
    Follows tokens ended s ((x >>= f) s) post := by
  rcases hx with ⟨r, s', hout, hs', hmid⟩
  rw [bind_apply, Call.andThen, hout]
  cases r with
  | error e => exact .fail hs' hmid
  | ok a => exact (hf a s' hs' hmid).of_stays hs'

end

/-- A place in the tokens where the machine and the descent have the same open. -/
structure At (tokens : List Token) (enclosing : List Enclosure) (s : State) : Prop where
  inside : s.position + 1 < tokens.length
  depth : enclosing.length = s.depth
  limit : s.depth ≤ nestingLimit

theorem At.of_stays {tokens : List Token} {enclosing : List Enclosure} {s s' : State}
    (h : At tokens enclosing s) (hstays : Stays tokens s s') : At tokens enclosing s' :=
  ⟨hstays.inside, hstays.depth ▸ h.depth, hstays.depth ▸ h.limit⟩

-- There is a next token, and one behind it to look at.
theorem At.exists_tokens {tokens : List Token} {enclosing : List Enclosure} {s : State}
    (h : At tokens enclosing s) :
    ∃ token ahead, tokens[s.position]? = some token ∧ tokens[s.position + 1]? = some ahead := by
  have hinside := h.inside
  rcases exists_getElem? hinside with ⟨ahead, hahead⟩
  rcases exists_getElem? (Nat.lt_of_succ_lt hinside) with ⟨token, htoken⟩
  exact ⟨token, ahead, htoken, hahead⟩

/-- How a statement ends that goes on from a state in some phase. -/
def endAt (tokens : List Token) (enclosing : List Enclosure) (phase : Phase) (s : State) :
    StatementEnd :=
  Machine.run { memory := s.memory, enclosing, phase } (tokens.drop s.position)

/-- How a statement ends that goes on with an operand. -/
def endWith (tokens : List Token) (enclosing : List Enclosure) (left : Left)
    (operand : Calculator.Operand) (s : State) : StatementEnd :=
  match left.supply operand with
  | .ok phase => endAt tokens enclosing phase s
  | .error e => failedAt tokens s e

/-- How a statement ends that goes on inside one more parenthesis or assignment. -/
def endInside (tokens : List Token) (enclosing : List Enclosure) (enclosure : Enclosure)
    (s : State) : StatementEnd :=
  if enclosing.length < nestingLimit then
    endAt tokens (enclosure :: enclosing) (.operand .start) s
  else failedAt tokens s .nestedTooDeeply

/-- An operand as the machine has it, which tells apart the two kinds of words by its
    phase. -/
def Operand.toMachine : Operand → Calculator.Operand
  | .number value => .number value
  | .letWord => .word Token.letWord.text
  | .target name => .word name

theorem Operand.toNumber_toMachine (o : Operand) : o.toMachine.toNumber = o.toNumber := by
  cases o <;> rfl

/-- The phase behind a word that begins an assignment. -/
def Operand.next : Operand → Phase
  | .number _ => .operand .start
  | .letWord => .target
  | .target name => .equals name

/-- A word has been taken, and the cursor is behind it. -/
def WordAt (tokens : List Token) (s s' : State) : Operand → Prop
  | .number _ => False
  | .letWord =>
      tokens[s.position]? = some .letWord ∧ s' = { s with position := s.position + 1 }
  | .target name =>
      tokens[s.position]? = some (.name name) ∧ tokens[s.position + 1]? = some .equals ∧
        s' = { s with position := s.position + 1 }

section

variable {tokens : List Token} {enclosing : List Enclosure} {s : State} {token ahead : Token}
  (htoken : tokens[s.position]? = some token) (hahead : tokens[s.position + 1]? = some ahead)

include htoken hahead

/-- A token that completes an operand is taken. -/
theorem endAt_of_supply {outer : List Enclosure} {phase phase' : Phase} {left : Left}
    {operand : Calculator.Operand} (hend : token.isEnd = false)
    (h : Machine.step { memory := s.memory, enclosing, phase } token ahead =
      .ofExcept s.memory
        (Machine.supply { memory := s.memory, enclosing := outer, phase := phase' } left
          operand)) :
    endAt tokens enclosing phase s = endWith tokens outer left operand (s.behind token) := by
  rw [Machine.supply] at h
  rw [endAt, endWith]
  cases hsupply : left.supply operand with
  | error e =>
      rw [hsupply] at h
      exact run_of_fail htoken hahead h
  | ok phase' =>
      rw [hsupply] at h
      rw [run_of_advance htoken hahead h, State.behind_of_not_isEnd hend]
      rfl

/-- A token that opens a parenthesis or an assignment is taken. -/
theorem endAt_of_enter {phase : Phase} {enclosure : Enclosure} (hend : token.isEnd = false)
    (h : Machine.step { memory := s.memory, enclosing, phase } token ahead =
      .ofExcept s.memory (Machine.enter { memory := s.memory, enclosing, phase } enclosure)) :
    endAt tokens enclosing phase s = endInside tokens enclosing enclosure (s.behind token) := by
  rw [Machine.enter] at h
  rw [endAt, endInside]
  by_cases hlimit : enclosing.length < nestingLimit
  · rw [if_pos hlimit] at h
    rw [if_pos hlimit, run_of_advance htoken hahead h, State.behind_of_not_isEnd hend]
    rfl
  · rw [if_neg hlimit] at h
    rw [if_neg hlimit]
    exact run_of_fail htoken hahead h

end

-- What a word leads to is decided by what waits for it and by the token behind it.
theorem WordAt.step {tokens : List Token} {s s' : State} {o : Operand}
    (h : WordAt tokens s s' o) (hinside : s.position + 1 < tokens.length)
    (enclosing : List Enclosure) (left : Left) :
    ∃ token ahead word, tokens[s.position]? = some token ∧
      tokens[s.position + 1]? = some ahead ∧ o.toMachine = .word word ∧
      s' = s.behind token ∧ s' = { s with position := s.position + 1 } ∧ token.isEnd = false ∧
      o.toNumber = .error (.notANumber word) ∧
      Machine.step { memory := s.memory, enclosing, phase := .operand left } token ahead =
        .ofExcept s.memory
          (Machine.startAssignment { memory := s.memory, enclosing, phase := .operand left } left
            word o.next ahead) := by
  cases o with
  | number value => exact h.elim
  | letWord =>
      rcases h with ⟨htoken, rfl⟩
      rcases exists_getElem? hinside with ⟨ahead, hahead⟩
      exact ⟨.letWord, ahead, _, htoken, hahead, rfl, rfl, rfl, rfl, rfl, rfl⟩
  | target name =>
      rcases h with ⟨htoken, hequals, rfl⟩
      exact ⟨.name name, .equals, name, htoken, hequals, rfl, rfl, rfl, rfl, rfl, rfl⟩

section

variable {tokens : List Token} {enclosing : List Enclosure} {s s' : State} {o : Operand}

-- A product goes on with the word, or has gone before it.
theorem WordAt.endAt_of_product (h : WordAt tokens s s' o)
    (hinside : s.position + 1 < tokens.length) {left : Left}
    (hproduct : left.product.isSome = true ∨ ¬ EndsProduct (tokens.drop s'.position)) :
    endAt tokens enclosing (.operand left) s = endWith tokens enclosing left o.toMachine s' := by
  rcases h.step hinside enclosing left with
    ⟨token, ahead, word, htoken, hahead, hword, hs', hposition, hend, -, hstep⟩
  rw [hposition, endsProduct_drop hahead, ← ne_eq, Option.ne_none_iff_isSome,
    ← Bool.or_eq_true] at hproduct
  rw [Machine.startAssignment, if_pos hproduct] at hstep
  rw [hword, hs', endAt_of_supply htoken hahead hend hstep]

-- No product goes on with the word, and nothing waits for it: an assignment begins.
theorem WordAt.endAt_start (h : WordAt tokens s s' o)
    (hinside : s.position + 1 < tokens.length) (hends : EndsProduct (tokens.drop s'.position)) :
    endAt tokens enclosing (.operand .start) s = endAt tokens enclosing o.next s' := by
  rcases h.step hinside enclosing .start with
    ⟨token, ahead, word, htoken, hahead, -, -, hposition, -, -, hstep⟩
  rw [hposition, endsProduct_drop hahead] at hends
  rw [Machine.startAssignment, hends] at hstep
  rw [endAt, run_of_advance htoken hahead hstep, hposition]
  rfl

-- No product goes on with the word, and a sum waits for it.
theorem WordAt.endAt_of_sum (h : WordAt tokens s s' o)
    (hinside : s.position + 1 < tokens.length) (hends : EndsProduct (tokens.drop s'.position))
    (waiting : Binary64 × SumOp) :
    ∃ e, o.toNumber = .error e ∧
      endAt tokens enclosing (.operand { sum := some waiting, product := none }) s =
        failedAt tokens s' e := by
  rcases h.step hinside enclosing { sum := some waiting, product := none } with
    ⟨token, ahead, word, htoken, hahead, -, hs', hposition, -, hnumber, hstep⟩
  rw [hposition, endsProduct_drop hahead] at hends
  rw [Machine.startAssignment, hends] at hstep
  refine ⟨_, hnumber, ?_⟩
  rw [hs', endAt, run_of_fail htoken hahead hstep]

end

end Descent

end Calculator
