import Calculator.Evaluation.Groups
import Calculator.Evaluation.Machine
import Calculator.Proofs.Writes

/-!
# Groups around the Machine

What is open around the machine, and what it can have written while that is open.

The machine holds what is open as a list, and changes it with the tokens that it takes. The
groups of that list are the ones that the tokens tell of, so each step opens and closes what
its token does.

An assignment is written when it is closed. As long as no assignment is begun in a parenthesis,
the parentheses that are open are all inside of the assignments that are. Then nothing is
written while a parenthesis is open, and where none is, all assignments are closed together at
the end of the statement, behind which nothing can fail any more. So a statement that fails has
written nothing.

## Main definitions

* `Machine.groups`: What is open around a machine.
* `Unmixed`: Groups in which no assignment is inside a parenthesis.

## Theorems

* `Machine.step_groups`: A step opens and closes what its token does.
* `Machine.step_memory`: A step that does not end the statement writes nothing.
* `Machine.run_memory_of_error`: A statement that fails has written nothing.
-/

namespace Calculator

/-- The group that an enclosure belongs to. -/
def Enclosure.group : Enclosure → Group
  | .parenthesis _ => .parenthesis
  | .assignment _ => .assignment

namespace Machine

/-- What is open around a machine, innermost first. -/
def groups (m : Machine) : List Group :=
  m.enclosing.map Enclosure.group

variable {m m' : Machine} {token ahead : Token}

theorem supply_enclosing {left : Left} {operand : Operand}
    (h : m.supply left operand = .ok m') : m'.enclosing = m.enclosing := by
  unfold supply at h
  split at h
  · rw [← Except.ok.inj h]
  · exact nomatch h

theorem enter_enclosing {enclosure : Enclosure} (h : m.enter enclosure = .ok m') :
    m'.enclosing = enclosure :: m.enclosing := by
  unfold enter at h
  split at h
  · rw [← Except.ok.inj h]
  · exact nomatch h

theorem startAssignment_enclosing {left : Left} {word : String} {next : Phase}
    (h : m.startAssignment left word next ahead = .ok m') : m'.enclosing = m.enclosing := by
  unfold startAssignment at h
  split at h
  · exact supply_enclosing h
  · split at h
    · exact nomatch h
    · rw [← Except.ok.inj h]

/-- Closing a parenthesis leaves open what encloses it. -/
theorem closeAssignments_groups (value : Binary64) (memory : Memory)
    (enclosing : List Enclosure) {memory' : Memory} {left : Left} {outer : List Enclosure}
    (h : closeAssignments value memory enclosing = (memory', some (left, outer))) :
    outer.map Enclosure.group =
      ((enclosing.map Enclosure.group).dropWhile (· = .assignment)).tail := by
  induction enclosing generalizing memory with
  | nil => cases h
  | cons enclosure rest ih =>
      cases enclosure with
      | parenthesis waiting =>
          cases h
          rfl
      | assignment name => exact ih _ h

theorem readOperand_groups {left : Left} (h : m.readOperand left token ahead = .ok m') :
    m'.groups = openAfter m.groups token := by
  unfold readOperand at h
  -- Only an opening parenthesis changes what is open.
  split at h
  · rw [groups, supply_enclosing h]
    rfl
  · split at h
    · rw [groups, startAssignment_enclosing h]
      rfl
    · split at h
      · rw [groups, supply_enclosing h]
        rfl
      · cases h
  · rw [groups, startAssignment_enclosing h]
    rfl
  · rw [groups, enter_enclosing h]
    rfl
  · cases h
    rfl
  · cases h
  · cases h
  · cases h

theorem readOperator_groups {sum : WaitingSum} {term : Operand}
    (h : m.readOperator sum term token = .advance m') :
    m'.groups = openAfter m.groups token := by
  rcases readOperator_cases h with
    ⟨op, hproduct, rfl⟩ | ⟨value, op, -, -, hsum, rfl⟩ |
      ⟨value, memory, left, outer, rfl, -, hclose, hsupply⟩
  · cases token <;> first | rfl | cases hproduct
  · cases token <;> first | rfl | cases hsum
  · -- The statement goes on only behind the end of a parenthesis.
    rw [groups, supply_enclosing hsupply]
    exact closeAssignments_groups _ _ _ hclose

/-- A step opens and closes what its token does. -/
theorem step_groups (h : m.step token ahead = .advance m') :
    m'.groups = openAfter m.groups token := by
  -- Parentheses open and close in the first and the third case, assignments open in the last one.
  rcases step_cases h with
    ⟨left, -, hread⟩ | ⟨left, value, -, rfl, hsupply⟩ | ⟨sum, term, -, hread⟩ |
      ⟨name, -, rfl, rfl⟩ | ⟨name, -, rfl, henter⟩
  · exact readOperand_groups hread
  · rw [groups, supply_enclosing hsupply]
    rfl
  · exact readOperator_groups hread
  · rfl
  · rw [groups, enter_enclosing henter]
    rfl

end Machine

/-- Groups in which no assignment is inside a parenthesis. -/
def Unmixed (groups : List Group) : Prop :=
  ∃ inner outer,
    groups = List.replicate inner .parenthesis ++ List.replicate outer .assignment

/-- A token keeps groups unmixed, unless it is an equals sign in a parenthesis. -/
theorem Unmixed.openAfter {groups : List Group} {token : Token} (h : Unmixed groups)
    (hequals : token = .equals → .parenthesis ∉ groups) : Unmixed (openAfter groups token) := by
  rcases h with ⟨inner, outer, rfl⟩
  cases token with
  | openParen => exact ⟨inner + 1, outer, rfl⟩
  -- The only token that could open an assignment inside a parenthesis, which `hequals` excludes.
  | equals =>
      cases inner with
      | zero => exact ⟨0, outer + 1, rfl⟩
      | succ inner => exact absurd (List.mem_append_left _ List.mem_cons_self) (hequals rfl)
  | closeParen =>
      cases inner with
      | zero =>
          refine ⟨0, 0, ?_⟩
          -- Without a parenthesis to close, all assignments are left.
          rw [Calculator.openAfter, List.replicate_zero, List.nil_append,
            List.dropWhile_replicate]
          rfl
      | succ inner => exact ⟨inner, outer, rfl⟩
  | _ => exact ⟨inner, outer, rfl⟩

namespace Machine

variable {m m' : Machine} {token ahead : Token}

/-- Outside of all parentheses, all assignments are closed together. -/
theorem closeAssignments_of_notMem (value : Binary64) (memory : Memory)
    {enclosing : List Enclosure} (h : .parenthesis ∉ enclosing.map Enclosure.group) :
    (closeAssignments value memory enclosing).2 = none := by
  induction enclosing generalizing memory with
  | nil => rfl
  | cons enclosure rest ih =>
      rw [List.map_cons, List.mem_cons, not_or] at h
      cases enclosure with
      | parenthesis left => exact absurd rfl h.1
      | assignment name => exact ih _ h.2

/-- Where no assignment is inside a parenthesis, nothing is written before the end of a
    statement. -/
theorem closeAssignments_of_unmixed (value : Binary64) (memory : Memory)
    {enclosing : List Enclosure} (h : Unmixed (enclosing.map Enclosure.group)) :
    (closeAssignments value memory enclosing).2 = none ∨
      (closeAssignments value memory enclosing).1 = memory := by
  rcases h with ⟨inner, outer, heq⟩
  cases inner with
  | zero =>
      refine .inl (closeAssignments_of_notMem value memory fun hmem => ?_)
      rw [heq, List.replicate_zero, List.nil_append] at hmem
      exact absurd (List.eq_of_mem_replicate hmem) (by decide)
  | succ inner =>
      -- The innermost group is a parenthesis.
      cases enclosing with
      | nil => cases heq
      | cons enclosure rest =>
          cases enclosure with
          | parenthesis left => exact .inr rfl
          | assignment name => cases heq

theorem readOperator_memory (h : Unmixed m.groups) (sum : WaitingSum) (term : Operand) :
    (∃ memory value, m.readOperator sum term token = .finish memory value) ∨
      (m.readOperator sum term token).memory = m.memory := by
  unfold readOperator
  cases token.productOp? with
  | some op => exact .inr rfl
  | none =>
      cases term.toNumber with
      | error e => exact .inr rfl
      | ok value =>
          cases token.sumOp? with
          | some op => exact .inr rfl
          | none =>
              -- Only the end of a sum writes. With all assignments outside of the parentheses, it
              -- ends the statement, or stops at a parenthesis before it meets an assignment.
              have hclose := closeAssignments_of_unmixed (sum.total value) m.memory h
              dsimp only
              unfold closeSum
              split
              · exact .inl ⟨_, _, rfl⟩
              · next memory left outer heq =>
                  rw [heq] at hclose
                  rcases hclose with hnone | hmemory
                  · cases hnone
                  · refine .inr ?_
                    dsimp only at hmemory
                    rw [hmemory]
                    split
                    · exact memory_ofExcept (supply_still { m with enclosing := outer } left _)
                    · rfl

/-- Where no assignment is inside a parenthesis, a step writes nothing unless it ends the
    statement. -/
theorem step_memory (h : Unmixed m.groups) :
    (∃ memory value, m.step token ahead = .finish memory value) ∨
      (m.step token ahead).memory = m.memory := by
  unfold step
  split
  · exact .inr (memory_ofExcept (readOperand_still m _ token ahead))
  · exact .inr (memory_ofExcept (readNegated_still m _ token))
  · exact readOperator_memory h _ _
  · exact .inr (memory_ofExcept (readTarget_still m token))
  · exact .inr (memory_ofExcept (readEquals_still m _ token))

/-- A statement that fails has written nothing, if it has taken no equals sign in a
    parenthesis. -/
theorem run_memory_of_error {tokens : List Token} {start stop index : Nat} {e : EvalError}
    (hassigns : AssignsOutside tokens start stop) (hle : start ≤ index)
    (hgroups : m.groups = openBetween tokens start index) (hunmixed : Unmixed m.groups)
    (hfailed : (m.run (tokens.drop index)).result = .error e)
    (hrest : (m.run (tokens.drop index)).rest = tokens.drop stop) :
    (m.run (tokens.drop index)).memory = m.memory := by
  induction hdrop : tokens.drop index generalizing index m with
  | nil => rfl
  | cons token rest ih =>
      have htoken : tokens[index]? = some token := by
        rw [← Nat.add_zero index, ← List.getElem?_drop, hdrop]
        rfl
      have hnext : tokens.drop (index + 1) = rest := by
        rw [← List.tail_drop, hdrop]
        rfl
      rw [hdrop, run] at hfailed hrest
      rw [run]
      have hmemory : (∃ memory value, m.step token (rest.headD .endOfText) =
          .finish memory value) ∨ (m.step token (rest.headD .endOfText)).memory = m.memory :=
        step_memory hunmixed
      cases hstep : m.step token (rest.headD .endOfText) with
      | advance m' =>
          rw [hstep] at hfailed hrest hmemory
          -- The token is taken, since what is left over is behind it.
          have htaken : index < stop := by
            have hsuffix := (m'.run_rest_suffix rest).length_le
            have hlength := congrArg List.length hdrop
            rw [hrest, List.length_drop] at hsuffix
            rw [List.length_drop, List.length_cons] at hlength
            omega
          have hequals : token = .equals → .parenthesis ∉ m.groups := by
            rintro rfl
            rw [hgroups]
            exact hassigns index hle htaken htoken
          have hgroups' : m'.groups = openBetween tokens start (index + 1) := by
            rw [openBetween_succ hle htoken, ← hgroups]
            exact step_groups hstep
          have hunmixed' : Unmixed m'.groups := by
            rw [step_groups hstep]
            exact hunmixed.openAfter hequals
          rw [← hnext] at hfailed hrest
          have hrun := ih (Nat.le_succ_of_le hle) hgroups' hunmixed' hfailed hrest hnext
          rcases hmemory with ⟨_, _, hfinish⟩ | hmemory
          · cases hfinish
          · exact hrun.trans hmemory
      | finish memory value =>
          rw [hstep] at hfailed
          cases hfailed
      | fail memory e' =>
          rw [hstep] at hmemory
          rcases hmemory with ⟨_, _, hfinish⟩ | hmemory
          · cases hfinish
          · exact hmemory

end Machine

end Calculator
