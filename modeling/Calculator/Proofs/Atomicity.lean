import Calculator.Proofs.OpenGroups
import Calculator.Proofs.Recognition
import Calculator.Proofs.Replay
import Calculator.Proofs.RunStatements

/-!
# Atomicity

What a run that fails has written.

The statements before the one that fails have had their effect, and that one is given up. It
has written nothing, unless an assignment in one of its parentheses was complete before it
failed. This is a matter of the tokens that it has taken, and not of how or where it fails.

The case that is met most is a chain of assignments whose value is a sum. A sum without an
equals sign writes nothing, and the names of the chain are written only when its value is
known, from the inside out. Nothing fails in between, so either all of the names have the value
or the memory is what it was.

## Main definitions

* `assignmentChain`: Assignments of a sum to names.
* `chainWrites`: The writes of a chain.

## Theorems

* `SumTree.evaluateWithin_snd`: A sum without an equals sign writes nothing.
* `evaluateWithin_assignmentChain`: A chain writes to all its names or to none.
* `Descent.Ready.memory_of_error`: A statement that fails has written nothing.
* `Evaluator.run_atomic`: A run that fails is atomic in its last statement.
-/

namespace Calculator

/-- Going on leaves a memory as it is, if both evaluations do. -/
theorem Evaluated.andThen_snd {α β : Type} {x : Evaluated α} {f : α → Memory → Evaluated β}
    {memory : Memory} (hx : x.2 = memory) (hf : ∀ a, (f a memory).2 = memory) :
    (x.andThen f).2 = memory := by
  rcases x with ⟨e | a, memory'⟩
  · exact hx
  · cases hx
    exact hf a

mutual

/-- A statement without an equals sign writes nothing. -/
theorem Statement.evaluateWithin_snd (room : Nat) (memory : Memory) (s : Statement)
    (h : .equals ∉ s.tokens) : (s.evaluateWithin room memory).2 = memory := by
  match s with
  | .assign spelled name value =>
      have hmem : Token.equals ∈ (Statement.assign spelled name value).tokens :=
        List.mem_append_right _ (List.mem_cons_of_mem _ List.mem_cons_self)
      exact absurd hmem h
  | .sum s => exact s.evaluateWithin_snd room memory h

/-- A sum without an equals sign writes nothing. -/
theorem SumTree.evaluateWithin_snd (room : Nat) (memory : Memory) (s : SumTree)
    (h : .equals ∉ s.tokens) : (s.evaluateWithin room memory).2 = memory := by
  match s with
  | .single p => exact p.evaluateWithin_snd room memory h
  | .join s op p =>
      rw [SumTree.tokens, List.mem_append, List.mem_cons, not_or, not_or] at h
      exact Evaluated.andThen_snd (s.evaluateWithin_snd room memory h.1) fun x =>
        Evaluated.andThen_snd (p.evaluateWithin_snd room memory h.2.2) fun _ => rfl

/-- A product without an equals sign writes nothing. -/
theorem ProductTree.evaluateWithin_snd (room : Nat) (memory : Memory) (p : ProductTree)
    (h : .equals ∉ p.tokens) : (p.evaluateWithin room memory).2 = memory := by
  match p with
  | .single f => exact f.evaluateWithin_snd room memory h
  | .join p op f =>
      rw [ProductTree.tokens, List.mem_append, List.mem_cons, not_or, not_or] at h
      exact Evaluated.andThen_snd (p.evaluateWithin_snd room memory h.1) fun x =>
        Evaluated.andThen_snd (f.evaluateWithin_snd room memory h.2.2) fun _ => rfl

/-- A factor without an equals sign writes nothing. -/
theorem Factor.evaluateWithin_snd (room : Nat) (memory : Memory) (f : Factor)
    (h : .equals ∉ f.tokens) : (f.evaluateWithin room memory).2 = memory := by
  match f with
  | .number _ => rfl
  | .negated _ => rfl
  | .name name =>
      rw [Factor.evaluateWithin]
      split <;> rfl
  | .group s =>
      rw [Factor.tokens, List.mem_cons, List.mem_append, not_or, not_or] at h
      rw [Factor.evaluateWithin]
      split
      · rfl
      · exact s.evaluateWithin_snd _ memory h.2.1

end

/-- Assignments of a sum to names, each with or without the word for assignment. -/
def assignmentChain (targets : List (Bool × String)) (sum : SumTree) : Statement :=
  targets.foldr (fun target statement => .assign target.1 target.2 statement) (.sum sum)

/-- The writes of a value to the names of a chain, the innermost one first. -/
def chainWrites (targets : List (Bool × String)) (value : Binary64) : List Assignment :=
  targets.reverse.map fun target => { name := target.2, value }

/-- A chain of assignments writes the value of its sum to all its names, or it fails and
    writes nothing. -/
theorem evaluateWithin_assignmentChain {sum : SumTree} (hsum : .equals ∉ sum.tokens)
    (targets : List (Bool × String)) (room : Nat) (memory : Memory) :
    (∃ value, sum.evaluate memory = (.ok value, memory) ∧
        (assignmentChain targets sum).evaluateWithin room memory =
          (.ok value, memory.assignAll (chainWrites targets value))) ∨
      ∃ e, (assignmentChain targets sum).evaluateWithin room memory = (.error e, memory) := by
  induction targets generalizing room with
  | nil =>
      have hmemory := sum.evaluateWithin_snd room memory hsum
      have hsame := sum.evaluateWithin_sameUpToLimit room memory
      have hchain : (assignmentChain [] sum).evaluateWithin room memory =
          sum.evaluateWithin room memory := rfl
      rw [hchain]
      rcases hvalue : sum.evaluateWithin room memory with ⟨e | value, memory'⟩
      · rw [hvalue] at hmemory
        cases hmemory
        exact .inr ⟨e, rfl⟩
      · rw [hvalue] at hmemory hsame
        cases hmemory
        rcases hsame with hlimit | hsame
        · cases hlimit
        · exact .inl ⟨value, hsame.symm, rfl⟩
  | cons target rest ih =>
      have hchain : (assignmentChain (target :: rest) sum).evaluateWithin room memory =
          if room = 0 then (.error .nestedTooDeeply, memory)
          else ((assignmentChain rest sum).evaluateWithin (room - 1) memory).andThen
            fun x memory => (.ok x, memory.assign target.2 x) := rfl
      rw [hchain]
      by_cases hroom : room = 0
      · rw [if_pos hroom]
        exact .inr ⟨_, rfl⟩
      · rw [if_neg hroom]
        rcases ih (room - 1) with ⟨value, hvalue, hrest⟩ | ⟨e, hrest⟩
        · -- The name of the outermost assignment is written last.
          have hwrites : chainWrites (target :: rest) value =
              chainWrites rest value ++ [{ name := target.2, value }] := by
            rw [chainWrites, List.reverse_cons, List.map_append]
            rfl
          refine .inl ⟨value, hvalue, ?_⟩
          rw [hrest, Evaluated.andThen_ok, hwrites, Memory.assignAll_append]
          rfl
        · rw [hrest]
          exact .inr ⟨e, rfl⟩

/-- Behind writes of one value, the names that are written have it. -/
theorem Memory.get?_assignAll_of_mem {writes : List Assignment} {value : Binary64}
    {name : String} (hvalue : ∀ write ∈ writes, write.value = value) (memory : Memory)
    (hname : memory.store.get? name = some value ∨ ∃ write ∈ writes, write.name = name) :
    (memory.assignAll writes).store.get? name = some value := by
  induction writes generalizing memory with
  | nil =>
      rcases hname with hold | ⟨write, hwrite, -⟩
      · exact hold
      · exact absurd hwrite List.not_mem_nil
  | cons write rest ih =>
      rw [List.forall_mem_cons] at hvalue
      refine ih hvalue.2 (memory.assign write.name write.value) ?_
      have hget := memory.store.get?_insert write.name name write.value
      -- Every write is of the same value, so a later one to the same name changes nothing.
      by_cases hwrite : name = write.name
      · rw [if_pos hwrite, hvalue.1] at hget
        refine .inl ?_
        rw [Memory.assign, hvalue.1]
        exact hget
      · rw [if_neg hwrite] at hget
        rcases hname with hold | ⟨write', hwrite', rfl⟩
        · exact .inl (hget.trans hold)
        · rcases List.mem_cons.mp hwrite' with rfl | hrest
          · exact absurd rfl hwrite
          · exact .inr ⟨write', hrest, rfl⟩

/-- A call for a statement that fails has written nothing, if it has taken no equals sign in a
    parenthesis. -/
theorem Descent.Ready.memory_of_error {tokens : List Token} (hmarked : Marked tokens)
    {fuel : Nat} {start s : State} (h : Ready tokens (fuel + 1) start) {e : EvalError}
    (hfailed : Descent.expr tokens fuel start = .ok (.error e, s))
    (hassigns : AssignsOutside tokens start.position s.position) : s.memory = start.memory := by
  rcases h.expr hmarked with ⟨r, s', hout, hended⟩
  rw [hfailed] at hout
  cases hout
  have hgroups : (Machine.start start.memory).groups =
      openBetween tokens start.position start.position :=
    (openBetween_self tokens start.position).symm
  have hrun := Machine.run_memory_of_error hassigns (Nat.le_refl _) hgroups ⟨0, 0, rfl⟩
    (congrArg StatementEnd.result hended) (congrArg StatementEnd.rest hended)
  exact (congrArg StatementEnd.memory hended).symm.trans hrun

/-- A statement that fails is atomic, unless it assigns inside parentheses. Whatever has been
    asked of a new evaluator, if its run fails, then it fails in a statement, and if that
    statement has taken no equals sign in a parenthesis, the store behind the run is the one that
    the statement began with. A chain of assignments of a sum that does not assign itself gives
    the value of the sum to all its names, or it fails and nothing is written. -/
theorem Evaluator.run_atomic (requests : List Session.Request) :
    ∃ e ended, new.afterAll requests = .ok e ∧ e.run = .ok ended ∧
      (∀ error, ended.result = .error error →
        ∃ fuel start s, e.Begins fuel start ∧
          Descent.expr e.tokens fuel start = .ok (.error error, s) ∧
          (AssignsOutside e.tokens start.position s.position →
            ended.evaluator.store = start.memory.store)) ∧
      ∀ fuel start targets (sum : SumTree) rest, e.Begins fuel start →
        e.tokens.drop start.position = (assignmentChain targets sum).tokens ++ rest →
        EndsStatement rest → Detached (assignmentChain targets sum).tokens rest →
        .equals ∉ sum.tokens →
        ∃ result s, Descent.expr e.tokens fuel start = .ok (result, s) ∧
          ((∃ value, result = .ok value ∧
              sum.evaluate start.memory = (.ok value, start.memory) ∧
              s.memory = start.memory.assignAll (chainWrites targets value) ∧
              ∀ target ∈ targets, s.memory.store.get? target.2 = some value) ∨
            ∃ error, result = .error error ∧ s.memory = start.memory) := by
  rcases new_sound.afterAll requests with ⟨e, hafter, hsound, -⟩
  rcases hsound.exists_run with ⟨_, s', ended, hout, hrun, rfl, hstore⟩
  refine ⟨e, ended, hafter, hrun, fun error herror => ?_, ?_⟩
  · rw [herror] at hout hstore
    -- The error of the run is that of its last statement, which began with a store of its own.
    rcases Descent.exists_failed_statement hout with
      ⟨last, fuel, start, hreaches, hstatement, hfailed⟩
    have hbegins : e.Begins fuel start := ⟨last, hreaches, hstatement⟩
    refine ⟨fuel, start, s', hbegins, hfailed, fun hassigns => ?_⟩
    rw [hstore, Session.recordResult,
      (hsound.ready hbegins).memory_of_error hsound.marked hfailed hassigns]
  · intro fuel start targets sum rest hbegins htokens hends hdetached hsum
    rcases (hsound.ready hbegins).expr hsound.marked with ⟨r, s, hout, hended⟩
    refine ⟨r, s, hout, ?_⟩
    -- What stands behind the chain does not belong to it, so the statement is the chain alone.
    have houtcome := outcome_evaluateStatement hends hdetached start.memory
    rw [htokens] at hended
    rw [hended] at houtcome
    rcases evaluateWithin_assignmentChain hsum targets nestingLimit start.memory with
      ⟨value, hvalue, hchain⟩ | ⟨error, hchain⟩
    · rw [hchain] at houtcome
      rcases StatementEnd.of_outcome_ok houtcome with ⟨hresult, hmemory, -⟩
      refine .inl ⟨value, hresult, hvalue, hmemory, fun target htarget => ?_⟩
      dsimp only at hmemory
      rw [hmemory]
      refine Memory.get?_assignAll_of_mem (fun write hwrite => ?_) _ (.inr ?_)
      · rcases List.mem_map.mp hwrite with ⟨_, -, rfl⟩
        rfl
      · exact ⟨_, List.mem_map_of_mem (List.mem_reverse.mpr htarget), rfl⟩
    · rw [hchain] at houtcome
      rcases StatementEnd.of_outcome_error houtcome with ⟨hresult, hmemory⟩
      exact .inr ⟨error, hresult, hmemory⟩

/-- A chain of two assignments, in both spellings, of an unknown name. -/
theorem Evaluator.run_atomic_sample :
    ∃ e ended, new.afterAll [.load "x = let y = z"] = .ok e ∧ e.run = .ok ended ∧
      (∃ fuel start s, e.Begins fuel start ∧
        Descent.expr e.tokens fuel start = .ok (.error (.undefinedVariable "z"), s) ∧
        AssignsOutside e.tokens start.position s.position ∧
        ended.evaluator.store = start.memory.store) ∧
      ∃ fuel start targets, ∃ sum : SumTree, ∃ rest, e.Begins fuel start ∧
        e.tokens.drop start.position = (assignmentChain targets sum).tokens ++ rest ∧
        EndsStatement rest ∧ Detached (assignmentChain targets sum).tokens rest ∧
        .equals ∉ sum.tokens ∧ targets = [(false, "x"), (true, "y")] ∧
        ∃ error s, Descent.expr e.tokens fuel start = .ok (.error error, s) ∧
          s.memory = start.memory := by
  rcases run_atomic [.load "x = let y = z"] with ⟨e, ended, hafter, hrun, hfails, hchain⟩
  cases hafter
  refine ⟨_, ended, rfl, hrun, ?_, ?_⟩
  · have hsteady := (new.steady_load "x = let y = z").runWith (Nat.le_refl _)
    have hresult : ended.result = .error (.undefinedVariable "z") := by
      rw [← Except.ok.inj (hsteady.1.symm.trans hrun)]
      decide +kernel
    rcases hfails _ hresult with ⟨fuel, start, s, hbegins, hfailed, hatomic⟩
    have hassigns : AssignsOutside (new.load "x = let y = z").tokens start.position
        s.position := by
      have hall : ∀ index < (new.load "x = let y = z").tokens.length, ∀ first ≤ index,
          (new.load "x = let y = z").tokens[index]? = some .equals →
            .parenthesis ∉ openBetween (new.load "x = let y = z").tokens first index := by
        decide +kernel
      intro index hle _ hequals
      exact hall index (List.getElem?_eq_some_iff.mp hequals).1 _ hle hequals
    exact ⟨fuel, start, s, hbegins, hfailed, hassigns, hatomic hassigns⟩
  · have hfirst : (new.load "x = let y = z").tokens[0]? = some (.name "x") := by
      decide +kernel
    have hbegins : (new.load "x = let y = z").Begins _
        (new.load "x = let y = z").invocation.state := ⟨none, .refl, .statement hfirst rfl⟩
    have htokens : (new.load "x = let y = z").tokens.drop 0 =
        (assignmentChain [(false, "x"), (true, "y")] (.single (.single (.name "z")))).tokens ++
          [.endOfText, .endOfText] := by decide +kernel
    have hsum : .equals ∉ (SumTree.single (.single (.name "z"))).tokens := by decide
    have hends := endsStatement_endOfText [.endOfText]
    refine ⟨_, _, _, _, _, hbegins, htokens, hends, detached_endOfText _ _, hsum,
      rfl, ?_⟩
    rcases hchain _ _ _ _ _ hbegins htokens hends (detached_endOfText _ _) hsum with
      ⟨result, s, hout, ⟨value, -, hvalue, -⟩ | ⟨error, herror, hmemory⟩⟩
    · have hnone : (SumTree.evaluate (.ofStore .constants) (.single (.single (.name "z")))).1 =
          .error (.undefinedVariable "z") := by decide +kernel
      exact absurd (hnone.symm.trans (congrArg Prod.fst hvalue)) nofun
    · exact ⟨error, s, herror ▸ hout, hmemory⟩

-- An assignment in a parenthesis is written, although the statement fails behind it.
example :
    (Session.new.eval "(x = 1) / 0").session.get? "x" = some (.round false unitsPerOne 1) ∧
      (Session.new.eval "x = 1 / 0").session.get? "x" = none := by
  decide +kernel

end Calculator
