import Calculator.Proofs.Descent
import Calculator.Proofs.Scanning
import Calculator.Proofs.Writes
import Calculator.Session

/-!
# Evaluators

What holds of an evaluator between its calls, and what a run makes of it.

An evaluator is sound if its tokens are those of a text, its cursor has not passed the first
mark of their end, nothing is open, and the constants still have a value. All but the last is
what a run needs in order not to end in a fault, and it is called steady by itself, since some
things are true of any store. A run keeps an evaluator sound, whether it fails or not, so it is
sound after any requests. A steady evaluator and the session with the same tokens, cursor and
store give the same answers.

## Main definitions

* `Evaluator.Sound`: What holds between the calls.
* `Evaluator.Steady`: The part of it that a run needs.
* `Evaluator.session`: The session that an evaluator is.
* `Evaluator.Ended.ofAnswer`: What a session gives back, as an evaluator does.

## Theorems

* `tokenize_marked`, `isFinite_of_mem_tokenize`: The tokens of a text.
* `Evaluator.Steady.runWith`: A run ends in no fault, and as the run of the session does.
* `Evaluator.Sound.runWith`, `Evaluator.Sound.eval`: It leaves an evaluator that is sound.
* `Evaluator.Sound.after`, `Evaluator.Sound.afterAll`: Requests keep an evaluator sound.
* `Evaluator.sound_afterAll`: Every evaluator is sound.
-/

namespace Calculator

/-- The tokens of a text end with two marks and have none before. -/
theorem tokenize_marked (text : String) : Descent.Marked (tokenize text) :=
  ⟨_, rfl, Scanner.endOfText_notMem_tokensOf false text.toList⟩

/-- The numbers among the tokens of a text are finite. -/
theorem isFinite_of_mem_tokenize {text : String} {value : Binary64}
    (h : .number value ∈ tokenize text) : value.isFinite = true := by
  rw [tokenize, List.mem_append] at h
  rcases h with h | h
  · exact Scanner.isFinite_of_mem_tokensOf h
  · simp only [List.mem_cons, reduceCtorEq, List.not_mem_nil, or_self] at h

namespace Descent

-- The first mark is the last token but one.
theorem Marked.findIdx_isEnd {tokens : List Token} (h : Marked tokens) :
    tokens.findIdx Token.isEnd + 2 = tokens.length := by
  rcases h with ⟨front, rfl, hfront⟩
  have hnone : ∀ token ∈ front, token.isEnd = false := by
    intro token htoken
    refine eq_false_of_ne_true fun hend => hfront ?_
    rw [← Token.isEnd_iff.mp hend]
    exact htoken
  rw [List.findIdx_append, List.findIdx_eq_length_of_false hnone, if_neg (Nat.lt_irrefl _),
    List.length_append]
  exact congrArg (· + 2) (Nat.zero_add front.length)

end Descent

-- What a run records adds a name or none.
theorem Session.get?_recordResult_isSome {store : Store} {name : String}
    (h : (store.get? name).isSome = true) (result : Except EvalError (Option Binary64)) :
    ((recordResult store result).get? name).isSome = true := by
  cases result with
  | error e => exact h
  | ok last =>
      cases last with
      | none => exact h
      | some value => exact Store.get?_insert_isSome h resultName value

-- The tokens that a run leaves over tell where its cursor is.
theorem Session.run_of_evaluate {s : Session} {result : Except EvalError (Option Binary64)}
    {memory : Memory} {position : Nat} (hposition : position ≤ s.tokens.length)
    (h : evaluate s.store s.pending = { result, memory, rest := s.tokens.drop position }) :
    s.run =
      { result
        events := memory.assignments.map .assigned ++ resultEvents result
        session := { s with cursor := position, store := recordResult memory.store result } } := by
  have hcursor : s.tokens.length - (s.tokens.drop position).length = position := by
    rw [List.length_drop]
    omega
  rw [run, h]
  dsimp only
  rw [hcursor]

namespace Evaluator

/-- What holds of an evaluator between its calls. -/
structure Sound (e : Evaluator) : Prop where
  marked : Descent.Marked e.tokens
  finite : ∀ value, .number value ∈ e.tokens → value.isFinite = true
  position_le : e.position ≤ e.tokens.findIdx Token.isEnd
  depth_eq : e.depth = 0
  pi : (e.get? "pi").isSome = true
  e : (e.get? "e").isSome = true

/-- The session that an evaluator is. -/
def session (e : Evaluator) : Session :=
  { tokens := e.tokens, cursor := e.position, store := e.store }

/-- What a session gives back, as an evaluator does. -/
def Ended.ofAnswer (answer : Answer) : Ended :=
  { result := answer.result
    events := answer.events
    evaluator :=
      { tokens := answer.session.tokens
        position := answer.session.cursor
        depth := 0
        store := answer.session.store } }

/-- The part of a sound evaluator that a run needs. -/
structure Steady (e : Evaluator) : Prop where
  marked : Descent.Marked e.tokens
  inside : e.position + 1 < e.tokens.length
  depth_eq : e.depth = 0

theorem new_sound : Sound new where
  marked := tokenize_marked ""
  finite _ := isFinite_of_mem_tokenize
  position_le := Nat.zero_le _
  depth_eq := rfl
  pi := rfl
  e := rfl

theorem steady_load (e : Evaluator) (text : String) : (e.load text).Steady := by
  refine ⟨tokenize_marked text, ?_, rfl⟩
  have hmarks := (tokenize_marked text).findIdx_isEnd
  change 0 + 1 < (tokenize text).length
  omega

namespace Steady

variable {e : Evaluator}

-- The descent begins where the machine does, with nothing open.
theorem starts (h : e.Steady) :
    Descent.At e.tokens []
      { position := e.position, depth := e.depth, memory := .ofStore e.store } := by
  refine ⟨h.inside, h.depth_eq.symm, ?_⟩
  rw [h.depth_eq]
  exact Nat.zero_le _

/-- A run with enough fuel ends in no fault. It ends as the run of the session does, and
    leaves an evaluator that is steady. -/
theorem runWith (h : e.Steady) {fuel : Nat} (hfuel : e.fuelBound ≤ fuel) :
    e.runWith fuel = .ok (.ofAnswer e.session.run) ∧
      (Ended.ofAnswer e.session.run).evaluator.Steady := by
  rcases Descent.program_eq_evaluateFrom h.marked fuel none h.starts hfuel with
    ⟨result, s', hout, hstays, hended⟩
  have hinside := hstays.inside
  have hdepth : s'.depth = 0 := hstays.depth.trans h.depth_eq
  have hevaluate : evaluate e.session.store e.session.pending =
      { result, memory := s'.memory, rest := e.session.tokens.drop s'.position } := hended
  rw [Session.run_of_evaluate (Nat.le_of_lt (Nat.lt_of_succ_lt hinside)) hevaluate]
  refine ⟨?_, h.marked, hinside, rfl⟩
  rw [Evaluator.runWith, hout]
  dsimp only
  rw [hdepth]
  rfl

end Steady

namespace Sound

variable {e : Evaluator}

theorem load (h : e.Sound) (text : String) : (e.load text).Sound where
  marked := tokenize_marked text
  finite _ := isFinite_of_mem_tokenize
  position_le := Nat.zero_le _
  depth_eq := rfl
  pi := h.pi
  e := h.e

-- A look at the next token and at the one behind it is inside the tokens.
theorem steady (h : e.Sound) : e.Steady := by
  refine ⟨h.marked, ?_, h.depth_eq⟩
  have hposition := h.position_le
  have hmarks := h.marked.findIdx_isEnd
  omega

/-- A run with enough fuel ends in no fault. It ends as the run of the session does, and
    leaves an evaluator that is sound. -/
theorem runWith (h : e.Sound) {fuel : Nat} (hfuel : e.fuelBound ≤ fuel) :
    e.runWith fuel = .ok (.ofAnswer e.session.run) ∧
      (Ended.ofAnswer e.session.run).evaluator.Sound := by
  rcases h.steady.runWith hfuel with ⟨hrun, hsteady⟩
  -- A run has only written to the memory, so no name is lost.
  have hkept {name : String} (hname : (e.get? name).isSome = true) :
      ((Ended.ofAnswer e.session.run).evaluator.get? name).isSome = true := by
    have hold : ((Memory.ofStore e.store).store.get? name).isSome = true := hname
    rcases evaluateFrom_grows (.ofStore e.store) none e.session.pending with ⟨new, hnew⟩
    have hgrown := Memory.get?_assignAll_isSome hold new
    rw [← hnew] at hgrown
    exact Session.get?_recordResult_isSome hgrown _
  have hposition : (Ended.ofAnswer e.session.run).evaluator.position ≤
      e.tokens.findIdx Token.isEnd := by
    have hmarks := h.marked.findIdx_isEnd
    have hinside : (Ended.ofAnswer e.session.run).evaluator.position + 1 < e.tokens.length :=
      hsteady.inside
    omega
  exact ⟨hrun,
    { marked := h.marked
      finite := h.finite
      position_le := hposition
      depth_eq := rfl
      pi := hkept h.pi
      e := hkept h.e }⟩

/-- An evaluation ends in no fault. It ends as the evaluation of the session does, and leaves an
    evaluator that is sound. -/
theorem eval (h : e.Sound) (text : String) :
    e.eval text = .ok (.ofAnswer (e.session.eval text)) ∧
      (Ended.ofAnswer (e.session.eval text)).evaluator.Sound := by
  rcases (h.load text).runWith (Nat.le_refl _) with ⟨hrun, hsound⟩
  refine ⟨?_, hsound⟩
  rw [Evaluator.eval, Evaluator.run, hrun]
  rfl

/-- A request ends in no fault and leaves an evaluator that is sound, which is the session
    after the same request. -/
theorem after (h : e.Sound) (request : Session.Request) :
    ∃ e', e.after request = .ok e' ∧ e'.Sound ∧ e'.session = e.session.after request := by
  cases request with
  | load text => exact ⟨_, rfl, h.load text, rfl⟩
  | run =>
      rcases h.runWith (Nat.le_refl _) with ⟨hended, hsound⟩
      refine ⟨_, ?_, hsound, rfl⟩
      rw [Evaluator.after, Evaluator.run, hended]
      rfl
  | eval text =>
      rcases h.eval text with ⟨hended, hsound⟩
      refine ⟨_, ?_, hsound, rfl⟩
      rw [Evaluator.after, hended]
      rfl
  | read name => exact ⟨e, rfl, h, rfl⟩

/-- Requests one after the other end in no fault either. -/
theorem afterAll (h : e.Sound) (requests : List Session.Request) :
    ∃ e', e.afterAll requests = .ok e' ∧ e'.Sound ∧
      e'.session = e.session.afterAll requests := by
  induction requests generalizing e with
  | nil => exact ⟨e, rfl, h, rfl⟩
  | cons request rest ih =>
      rcases h.after request with ⟨e₁, hafter, hsound, hsession⟩
      rcases ih hsound with ⟨e', hrest, hsound', hsession'⟩
      refine ⟨e', ?_, hsound', ?_⟩
      · rw [Evaluator.afterAll, List.foldlM_cons, hafter]
        exact hrest
      · rw [hsession', hsession]
        rfl

end Sound

/-- Whatever is asked of a new evaluator, one request after the other, no request ends in a
    fault: every token is looked at inside the tokens, never more is open than the limit
    allows, nothing is closed that is not open, and a run ends within a number of calls that
    is known before. The evaluator behind them is sound, and any run of it ends as the run of
    the session behind the same requests. -/
theorem sound_afterAll (requests : List Session.Request) :
    ∃ e, new.afterAll requests = .ok e ∧ e.Sound ∧
      e.session = Session.new.afterAll requests ∧
      ∀ fuel, e.fuelBound ≤ fuel → e.runWith fuel = .ok (.ofAnswer e.session.run) := by
  rcases new_sound.afterAll requests with ⟨e, hafter, hsound, hsession⟩
  exact ⟨e, hafter, hsound, hsession, fun fuel hfuel => (hsound.runWith hfuel).1⟩

end Evaluator

end Calculator
