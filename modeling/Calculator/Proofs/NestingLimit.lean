import Calculator.Proofs.RunStatements
import Calculator.Proofs.TwoPhases
import Mathlib.Data.List.Basic

/-!
# The Limit of Nesting

The depth of an evaluator is the number of parentheses and assignments that are open, and the
limit is applied to that number.

The depth is counted up and down around a call that may fail, while the groups that are open
are told from the tokens of the statement so far. The two are compared wherever a call is made
inside a statement. A call that has been made from another is made with what is open there,
and behind calls that have left nothing open, so that one step keeps the two equal, and from
the beginning of the statement on every step does. The beginning is the same for every
statement: nothing is open, and the depth is zero, since no run, failed or not, leaves another
depth behind, and no statement before does.

So the limit is met where a group is reached with as many others open as there may be. A
statement whose tree is not nested deeper than that is evaluated as its tree is, and a tree
has no limit to fail at.

## Main definitions

* `Descent.Counted`: A call whose depth is what is open by the tokens.
* `Evaluator.Opens`: A group that a run comes to, in the statement that it belongs to.

## Theorems

* `Descent.Counted.invokes`: A call keeps the count for the calls that are made in it.
* `Descent.Counted.reaches`: The count is right in all that a statement comes to.
* `Statement.ne_nestedTooDeeply`: A tree within the limit does not fail for it.
* `Evaluator.result_eq_nestedTooDeeply_iff`: A run fails for the limit by a call that is refused.
* `Evaluator.nestedTooDeeply_iff`: The limit of nesting is exact.
-/

namespace Calculator

namespace Descent

variable {tokens : List Token}

/-- What a call is about to open, which its tokens count already. -/
def Callee.entering : Callee → Nat
  | .nested => 1
  | _ => 0

/-- A call inside a statement whose depth is what is open by the tokens of the statement, and
    within the limit. -/
structure Counted (tokens : List Token) (start : Nat) (i : Invocation) : Prop where
  start_le : start ≤ i.state.position
  depth_le : i.state.depth ≤ nestingLimit
  length_eq : (openAt tokens start i.state).length = i.state.depth + i.callee.entering
  isProgram_eq : i.callee.isProgram = false

section

variable {start count fuel fuel' : Nat} {callee callee' : Callee} {s s' : State}

/-- The count is right behind calls and tokens that leave open what is entered next. -/
theorem Counted.of_leaves (h : Counted tokens start ⟨callee, fuel, s⟩)
    (hleaves : Leaves tokens count s s') (hdepth : s'.depth = s.depth)
    (hcallee : callee'.isProgram = false)
    (hentering : callee'.entering = callee.entering + count) :
    Counted tokens start ⟨callee', fuel', s'⟩ := by
  have hlength := h.length_eq
  dsimp only at hlength
  refine ⟨Nat.le_trans h.start_le hleaves.position_le, ?_, ?_, hcallee⟩
  · rw [hdepth]
    exact h.depth_le
  · dsimp only
    rw [hleaves.openAt_eq start h.start_le, List.length_append, List.length_replicate, hdepth,
      hentering]
    omega

/-- The count is right behind a token that begins a parenthesis. -/
theorem Counted.parenthesis (h : Counted tokens start ⟨.factor, fuel, s⟩)
    (htoken : tokens[s.position]? = some .openParen) :
    Counted tokens start ⟨.nested, fuel', s.behind .openParen⟩ := by
  have hbehind := openAt_behind h.start_le htoken rfl
  refine ⟨Nat.le_trans h.start_le (position_le_behind s _), h.depth_le, ?_, rfl⟩
  exact (congrArg List.length hbehind).trans (congrArg (· + 1) h.length_eq)

/-- Inside a group the depth has been counted up, and the group counts as open already. -/
theorem Counted.inside (h : Counted tokens start ⟨.nested, fuel, s⟩)
    (hlimit : s.depth < nestingLimit) :
    Counted tokens start ⟨.expr, fuel', { s with depth := s.depth + 1 }⟩ :=
  ⟨h.start_le, hlimit, h.length_eq, rfl⟩

end

section

variable {start : Nat} {i j : Invocation}

/-- The count is right in the calls that are made in a call in which it is right. -/
theorem Counted.invokes (h : Counted tokens start i) (hinvokes : Invokes tokens i j) :
    Counted tokens start j := by
  cases hinvokes with
  | parenthesis htoken _ => exact h.parenthesis htoken
  | firstFactor => exact h.of_leaves (.refl _) rfl rfl rfl
  | product hlhs =>
      rcases (keeps tokens _).factor _ _ _ hlhs with ⟨hdepth, hpost⟩
      exact h.of_leaves (hpost _ rfl).1 hdepth rfl rfl
  | nextFactor htoken hop =>
      exact h.of_leaves (.behind htoken (openAfter_of_productOp? hop)) (depth_behind _ _) rfl rfl
  | restOfProduct htoken hop hrhs _ _ _ =>
      rcases (keeps tokens _).factor _ _ _ hrhs with ⟨hdepth, hpost⟩
      have hbehind := Leaves.behind htoken (openAfter_of_productOp? hop)
      exact h.of_leaves (hbehind.trans (hpost _ rfl).1) (hdepth.trans (depth_behind _ _)) rfl rfl
  | firstTerm => exact h.of_leaves (.refl _) rfl rfl rfl
  | sum hterm =>
      rcases (keeps tokens _).term _ _ _ hterm with ⟨hdepth, hpost⟩
      exact h.of_leaves (hpost _ rfl).1 hdepth rfl rfl
  | letAssignment hterm htarget =>
      rcases (keeps tokens _).term _ _ _ hterm with ⟨hdepth, hpost⟩
      rcases target_keeps _ _ _ htarget with ⟨hdepth', hpost'⟩
      exact h.of_leaves ((hpost _ rfl).1.trans (hpost' _ rfl)) (hdepth'.trans hdepth) rfl rfl
  | assignment hterm htoken =>
      rcases (keeps tokens _).term _ _ _ hterm with ⟨hdepth, hpost⟩
      rcases hpost _ rfl with ⟨hleaves, hequals⟩
      -- The token that is taken behind the name is its equals sign.
      have heq := htoken.symm.trans (hequals _ rfl)
      rw [Option.some.inj heq] at htoken ⊢
      exact h.of_leaves (hleaves.trans (.equals htoken)) ((depth_behind _ _).trans hdepth) rfl
        rfl
  | inside hlimit => exact h.inside hlimit
  | nextTerm htoken hop =>
      exact h.of_leaves (.behind htoken (openAfter_of_sumOp? hop)) (depth_behind _ _) rfl rfl
  | restOfSum htoken hop hrhs _ =>
      rcases (keeps tokens _).term _ _ _ hrhs with ⟨hdepth, hpost⟩
      have hbehind := Leaves.behind htoken (openAfter_of_sumOp? hop)
      exact h.of_leaves (hbehind.trans (hpost _ rfl).1) (hdepth.trans (depth_behind _ _)) rfl rfl
  | statement _ _ => cases h.isProgram_eq
  | restOfProgram _ _ _ => cases h.isProgram_eq

/-- The count is right in all that a call comes to in which it is right. -/
theorem Counted.reaches (h : Counted tokens start i) (hreaches : Reaches tokens i j) :
    Counted tokens start j := by
  induction hreaches with
  | refl => exact h
  | tail _ hinvokes ih => exact ih.invokes hinvokes

/-- The count is right at the beginning of a statement. -/
theorem counted_start {fuel : Nat} {s : State} (h : s.depth = 0) :
    Counted tokens s.position ⟨.expr, fuel, s⟩ := by
  refine ⟨Nat.le_refl _, ?_, ?_, rfl⟩
  · dsimp only
    rw [h]
    exact Nat.zero_le _
  · dsimp only
    rw [openAt, openBetween_self, h]
    rfl

end

end Descent

open Descent (Invocation Reaches Counted)

/-- A statement that is nested within the limit does not fail for it, whatever comes behind
    it. -/
theorem Statement.ne_nestedTooDeeply {s : Statement} {rest : List Token}
    (hends : EndsStatement rest) (hdetached : Detached s.tokens rest)
    (hnesting : s.nesting ≤ nestingLimit) (memory : Memory) :
    (evaluateStatement memory (s.tokens ++ rest)).result ≠ .error .nestedTooDeeply := by
  have houtcome := outcome_evaluateStatement hends hdetached memory
  rw [s.evaluateWithin_of_nesting_le memory hnesting] at houtcome
  intro hfailed
  have htree := s.evaluate_failsAsTree memory
  cases hvalue : s.evaluate memory with
  | mk r memory' =>
      rw [hvalue] at houtcome htree
      cases r with
      | ok value =>
          rw [(StatementEnd.of_outcome_ok houtcome).1] at hfailed
          cases hfailed
      | error e =>
          rw [(StatementEnd.of_outcome_error houtcome).1] at hfailed
          cases hfailed
          exact htree _ rfl

namespace Evaluator

/-- A run comes to the inside of a parenthesis or the right-hand side of an assignment, in a
    statement that begins in another state, and is about to evaluate it. -/
def Opens (e : Evaluator) (start s : Descent.State) : Prop :=
  ∃ fuel fuel', e.Begins fuel start ∧ Reaches e.tokens ⟨.expr, fuel, start⟩ ⟨.nested, fuel', s⟩

section

variable {e : Evaluator}

/-- The depth of a run that is about to enter a group is the number of other groups that are
    open, which is within the limit. -/
theorem Sound.counted (h : e.Sound) {start s : Descent.State} (hopens : e.Opens start s) :
    s.depth ≤ nestingLimit ∧
      ∃ group others, openBetween e.tokens start.position s.position = group :: others ∧
        others.length = s.depth := by
  rcases hopens with ⟨fuel, fuel', hbegins, hreaches⟩
  have hdepth : start.depth = 0 := (h.ready hbegins).starts.depth.symm
  have hcounted : Counted e.tokens start.position ⟨.nested, fuel', s⟩ :=
    (Descent.counted_start hdepth).reaches hreaches
  refine ⟨hcounted.depth_le, ?_⟩
  have hlength := hcounted.length_eq
  rw [Descent.openAt] at hlength
  -- The parenthesis that is being entered has been taken, so the list is not empty, and the
  -- depth counts the others.
  cases hgroups : openBetween e.tokens start.position s.position with
  | nil =>
      rw [hgroups] at hlength
      exact absurd hlength.symm (Nat.succ_ne_zero _)
  | cons group others =>
      rw [hgroups] at hlength
      exact ⟨group, others, rfl, Nat.succ.inj hlength⟩

/-- The loop over the statements fails because the limit is reached exactly if it comes to a call
    that is refused, unless it ends in a fault. -/
theorem result_eq_nestedTooDeeply_iff {result : Except EvalError (Option Binary64)}
    {s : Descent.State}
    (hout : Descent.program e.tokens e.fuelBound none e.invocation.state = .ok (result, s)) :
    result = .error .nestedTooDeeply ↔
      ∃ j, Reaches e.tokens e.invocation j ∧ j.IsRefused := by
  have htrouble : e.invocation.trouble e.tokens = Descent.trouble (.ok (result, s)) :=
    congrArg Descent.trouble hout
  have hfault (fault : Descent.Fault) : e.invocation.trouble e.tokens ≠ some (.inl fault) := by
    rw [htrouble]
    intro h
    cases result <;> cases h
  -- A run without a fault fails with the limit as soon as one of its calls is refused.
  rw [← Descent.meetsLimit_iff hfault, Invocation.MeetsLimit, htrouble]
  cases result with
  | error e' => rw [Except.error.injEq, Descent.trouble, Option.some.injEq, Sum.inr.injEq]
  | ok last => simp only [Descent.trouble, reduceCtorEq]

/-- A call that is refused is about to enter a group of a statement, at the limit. -/
theorem exists_isRefused_iff :
    (∃ j, Reaches e.tokens e.invocation j ∧ j.IsRefused) ↔
      ∃ start s, e.Opens start s ∧ nestingLimit ≤ s.depth := by
  constructor
  · rintro ⟨⟨callee, fuel', s⟩, hreaches, rfl, hlimit⟩
    rcases Descent.exists_statement hreaches rfl with
      ⟨last, fuel, start, hprogram, hstatement, hinside⟩
    exact ⟨start, s, ⟨fuel, fuel', ⟨last, hprogram, hstatement⟩, hinside⟩, hlimit⟩
  · rintro ⟨start, s, ⟨fuel, fuel', ⟨last, hprogram, hstatement⟩, hinside⟩, hlimit⟩
    exact ⟨_, (hprogram.tail hstatement).trans hinside, rfl, hlimit⟩

end

/-- The limit of nesting is exact. Whatever has been asked of a new evaluator, wherever its run
    is about to evaluate the inside of a parenthesis or the right-hand side of an assignment,
    the depth is the number of other parentheses and assignments of the statement that are open
    there. The run fails because of the limit exactly if it comes to such a place with as many
    others open as the limit allows. A statement that is nested within the limit does not fail
    because of it. -/
theorem nestedTooDeeply_iff (requests : List Session.Request) :
    ∃ e ended, new.afterAll requests = .ok e ∧ e.run = .ok ended ∧
      (∀ start s, e.Opens start s →
        ∃ group others, openBetween e.tokens start.position s.position = group :: others ∧
          others.length = s.depth) ∧
      (ended.result = .error .nestedTooDeeply ↔
        ∃ start s, e.Opens start s ∧
          ∃ group others, openBetween e.tokens start.position s.position = group :: others ∧
            others.length = nestingLimit) ∧
      (∀ fuel start (statement : Statement) rest, e.Begins fuel start →
        e.tokens.drop start.position = statement.tokens ++ rest → EndsStatement rest →
        Detached statement.tokens rest → statement.nesting ≤ nestingLimit →
        ∀ s, Descent.expr e.tokens fuel start ≠ .ok (.error .nestedTooDeeply, s)) ∧
      EvalError.nestedTooDeeply.message = "expression nested too deeply (limit 128)" := by
  rcases new_sound.afterAll requests with ⟨e, hafter, hsound, -⟩
  rcases hsound.exists_run with ⟨_, s', ended, hout, hrun, rfl, -⟩
  refine ⟨e, ended, hafter, hrun, fun start s hopens => (hsound.counted hopens).2, ?_, ?_, rfl⟩
  · rw [result_eq_nestedTooDeeply_iff hout, exists_isRefused_iff]
    constructor
    · rintro ⟨start, s, hopens, hlimit⟩
      -- The depth never passes the limit, so to reach it is to be at it.
      rcases hsound.counted hopens with ⟨hle, group, others, hgroups, hlength⟩
      exact ⟨start, s, hopens, group, others, hgroups, hlength.trans (Nat.le_antisymm hle hlimit)⟩
    · rintro ⟨start, s, hopens, group, others, hgroups, hlength⟩
      rcases hsound.counted hopens with ⟨-, group', others', hgroups', hlength'⟩
      rw [hgroups, List.cons.injEq] at hgroups'
      rw [← hgroups'.2, hlength] at hlength'
      exact ⟨start, s, hopens, Nat.le_of_eq hlength'⟩
  · intro fuel start statement rest hbegins htokens hends hdetached hnesting s hfailed
    rcases (hsound.ready hbegins).expr hsound.marked with ⟨r, s'', hout', hended⟩
    rw [hfailed] at hout'
    cases hout'
    rw [htokens] at hended
    exact statement.ne_nestedTooDeeply hends hdetached hnesting start.memory
      (congrArg StatementEnd.result hended)

/-- One parenthesis more than the limit allows, and an assignment of a sum in parentheses. -/
theorem nestedTooDeeply_iff_sample :
    (∃ e ended start s, new.afterAll [.load (String.ofList (List.replicate 129 '('))] = .ok e ∧
      e.run = .ok ended ∧ ended.result = .error .nestedTooDeeply ∧ e.Opens start s ∧
      ∃ group others, openBetween e.tokens start.position s.position = group :: others ∧
        others.length = nestingLimit ∧ others.length = s.depth) ∧
    ∃ e fuel start, ∃ statement : Statement, ∃ rest,
      new.afterAll [.load "x = (y)"] = .ok e ∧ e.Begins fuel start ∧
      e.tokens.drop start.position = statement.tokens ++ rest ∧ EndsStatement rest ∧
      Detached statement.tokens rest ∧ statement.nesting = 2 ∧ statement.nesting ≤ nestingLimit ∧
      ∀ s, Descent.expr e.tokens fuel start ≠ .ok (.error .nestedTooDeeply, s) := by
  constructor
  · rcases nestedTooDeeply_iff [.load (String.ofList (List.replicate 129 '('))] with
      ⟨e, ended, hafter, hrun, hdepth, hlimit, -, -⟩
    cases hafter
    have hsteady :=
      (new.steady_load (String.ofList (List.replicate 129 '('))).runWith (Nat.le_refl _)
    have hresult : ended.result = .error .nestedTooDeeply := by
      rw [← Except.ok.inj (hsteady.1.symm.trans hrun)]
      decide +kernel
    rcases hlimit.mp hresult with ⟨start, s, hopens, group, others, hgroups, hlength⟩
    rcases hdepth start s hopens with ⟨group', others', hgroups', hlength'⟩
    rw [hgroups, List.cons.injEq] at hgroups'
    rw [← hgroups'.2] at hlength'
    exact ⟨_, ended, start, s, rfl, hrun, hresult, hopens, group, others, hgroups, hlength,
      hlength'⟩
  · rcases nestedTooDeeply_iff [.load "x = (y)"] with ⟨e, _, hafter, -, -, -, hwithin, -⟩
    cases hafter
    have hfirst : (new.load "x = (y)").tokens[0]? = some (.name "x") := by decide +kernel
    have hbegins : (new.load "x = (y)").Begins _ (new.load "x = (y)").invocation.state :=
      ⟨none, .refl, .statement hfirst rfl⟩
    have htokens : (new.load "x = (y)").tokens.drop 0 =
        (Statement.assign false "x" (.sum (.single (.single (.group
          (.sum (.single (.single (.name "y"))))))))).tokens ++ [.endOfText, .endOfText] := by
      decide +kernel
    have hnesting : (Statement.assign false "x" (.sum (.single (.single (.group
        (.sum (.single (.single (.name "y"))))))))).nesting ≤ nestingLimit := by decide
    have hends := endsStatement_endOfText [.endOfText]
    exact ⟨_, _, _, _, _, rfl, hbegins, htokens, hends, detached_endOfText _ _, rfl,
      hnesting, hwithin _ _ _ _ hbegins htokens hends (detached_endOfText _ _) hnesting⟩

end Evaluator

end Calculator
