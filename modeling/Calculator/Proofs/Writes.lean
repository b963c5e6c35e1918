import Calculator.Evaluation.Statement

/-!
# What is Written

The memory after an evaluation is the memory before it and the writes that were made.

Nothing but an assignment touches the memory, and an assignment writes the store and the
trail together. So there is no need to look at the two apart: each state of an evaluation
has a memory that comes from the one before by some writes in a row. What a single write
keeps, an evaluation keeps, and the writes themselves are what has been added to the trail.

## Main definitions

* `Memory.assignAll`: The memory after writes in a row.
* `Memory.Grows`: A memory that comes from another by writes.

## Theorems

* `Memory.assignments_assignAll`: The writes are what is added to the trail.
* `Memory.get?_assignAll_isSome`: No name is lost.
* `Machine.run_grows`, `evaluateFrom_grows`: An evaluation does nothing else to the memory.
-/

namespace Calculator

namespace Memory

/-- The memory after writes, in the order in which they are made. -/
def assignAll (memory : Memory) (new : List Assignment) : Memory :=
  new.foldl (fun memory write => memory.assign write.name write.value) memory

/-- A memory that comes from another by writes. -/
def Grows (memory memory' : Memory) : Prop :=
  ∃ new, memory' = memory.assignAll new

theorem assignAll_append (memory : Memory) (new new' : List Assignment) :
    memory.assignAll (new ++ new') = (memory.assignAll new).assignAll new' :=
  List.foldl_append

/-- The writes are what is added to the trail. -/
theorem assignments_assignAll (memory : Memory) (new : List Assignment) :
    (memory.assignAll new).assignments = memory.assignments ++ new := by
  induction new generalizing memory with
  | nil => exact (List.append_nil _).symm
  | cons write rest ih =>
      have hwrite : (memory.assign write.name write.value).assignments =
          memory.assignments ++ [write] := List.reverse_cons
      have hrest := ih (memory.assign write.name write.value)
      rw [hwrite, List.append_assoc] at hrest
      exact hrest

/-- No name is lost. -/
theorem get?_assignAll_isSome {memory : Memory} {name : String}
    (h : (memory.store.get? name).isSome = true) (new : List Assignment) :
    ((memory.assignAll new).store.get? name).isSome = true := by
  induction new generalizing memory with
  | nil => exact h
  | cons write rest ih => exact ih (Store.get?_insert_isSome h write.name write.value)

variable {memory memory' memory'' : Memory}

theorem Grows.refl (memory : Memory) : Grows memory memory :=
  ⟨[], rfl⟩

theorem Grows.trans (h : Grows memory memory') (h' : Grows memory' memory'') :
    Grows memory memory'' := by
  rcases h with ⟨new, rfl⟩
  rcases h' with ⟨new', rfl⟩
  exact ⟨new ++ new', (assignAll_append memory new new').symm⟩

theorem grows_assign (memory : Memory) (name : String) (value : Binary64) :
    Grows memory (memory.assign name value) :=
  ⟨[{ name, value }], rfl⟩

end Memory

/-- The memory behind a step. -/
def Step.memory : Step → Memory
  | .advance machine => machine.memory
  | .finish memory _ => memory
  | .fail memory _ => memory

namespace Machine

/-- What a token may make of a machine without writing anything. -/
def Still (m : Machine) (read : Except EvalError Machine) : Prop :=
  ∀ m', read = .ok m' → m'.memory = m.memory

theorem still_error (m : Machine) (e : EvalError) : m.Still (.error e) :=
  fun _ h => by cases h

theorem still_ok {m m' : Machine} (h : m'.memory = m.memory) : m.Still (.ok m') := by
  intro m'' heq
  rw [← Except.ok.inj heq, h]

theorem supply_still (m : Machine) (left : Left) (operand : Operand) :
    m.Still (m.supply left operand) := by
  rw [supply]
  cases left.supply operand with
  | error e => exact still_error m e
  | ok phase => exact still_ok rfl

theorem enter_still (m : Machine) (enclosure : Enclosure) : m.Still (m.enter enclosure) := by
  rw [enter]
  split
  · exact still_ok rfl
  · exact still_error m _

theorem startAssignment_still (m : Machine) (left : Left) (word : String) (next : Phase)
    (ahead : Token) : m.Still (m.startAssignment left word next ahead) := by
  rw [startAssignment]
  split
  · exact supply_still m left _
  split
  · exact still_error m _
  · exact still_ok rfl

theorem readOperand_still (m : Machine) (left : Left) (token ahead : Token) :
    m.Still (m.readOperand left token ahead) := by
  cases token with
  | number value => exact supply_still m left _
  | name name =>
      rw [readOperand]
      split
      · exact startAssignment_still m left _ _ ahead
      split
      · exact supply_still m left _
      · exact still_error m _
  | letWord => exact startAssignment_still m left _ _ ahead
  | openParen => exact enter_still m _
  | minus => exact still_ok rfl
  | _ => exact still_error m _

theorem readNegated_still (m : Machine) (left : Left) (token : Token) :
    m.Still (m.readNegated left token) := by
  cases token with
  | number value => exact supply_still m left _
  | _ => exact still_error m _

theorem readTarget_still (m : Machine) (token : Token) : m.Still (m.readTarget token) := by
  cases token with
  | name name => exact still_ok rfl
  | _ => exact still_error m _

theorem readEquals_still (m : Machine) (name : String) (token : Token) :
    m.Still (m.readEquals name token) := by
  cases token with
  | equals => exact enter_still m _
  | _ => exact still_error m _

-- A token that is read without writing leaves the memory of its machine.
theorem memory_ofExcept {m : Machine} {read : Except EvalError Machine} (h : m.Still read) :
    (Step.ofExcept m.memory read).memory = m.memory := by
  cases read with
  | error e => rfl
  | ok m' => exact h m' rfl

theorem closeAssignments_grows (value : Binary64) (memory : Memory) (enclosing : List Enclosure) :
    memory.Grows (closeAssignments value memory enclosing).1 := by
  induction enclosing generalizing memory with
  | nil => exact .refl memory
  | cons enclosure rest ih =>
      cases enclosure with
      | parenthesis left => exact .refl memory
      | assignment name => exact (memory.grows_assign name value).trans (ih _)

theorem closeSum_grows (m : Machine) (value : Binary64) (token : Token) :
    m.memory.Grows (m.closeSum value token).memory := by
  have hclose := closeAssignments_grows value m.memory m.enclosing
  rw [closeSum]
  rcases hpair : closeAssignments value m.memory m.enclosing with ⟨memory, outer⟩
  rw [hpair] at hclose
  cases outer with
  | none => exact hclose
  | some found =>
      rcases found with ⟨left, outer⟩
      dsimp only
      split
      · -- The machine outside the parenthesis has the memory that was grown.
        have hsupply := supply_still { m with memory, enclosing := outer } left (.number value)
        rw [memory_ofExcept hsupply]
        exact hclose
      · exact hclose

theorem readOperator_grows (m : Machine) (sum : WaitingSum) (term : Operand) (token : Token) :
    m.memory.Grows (m.readOperator sum term token).memory := by
  rw [readOperator]
  cases token.productOp? with
  | some op => exact .refl _
  | none =>
      cases term.toNumber with
      | error e => exact .refl _
      | ok value =>
          cases token.sumOp? with
          | some op => exact .refl _
          | none => exact closeSum_grows m _ token

/-- A step does nothing to the memory but write to it. -/
theorem step_grows (m : Machine) (token ahead : Token) :
    m.memory.Grows (m.step token ahead).memory := by
  -- Only the token behind an operand can complete an assignment.
  have hstill {read : Except EvalError Machine} (h : m.Still read) :
      m.memory.Grows (Step.ofExcept m.memory read).memory := by
    rw [memory_ofExcept h]
    exact .refl _
  rw [step]
  cases m.phase with
  | operand left => exact hstill (readOperand_still m left token ahead)
  | negated left => exact hstill (readNegated_still m left token)
  | operator sum term => exact readOperator_grows m sum term token
  | target => exact hstill (readTarget_still m token)
  | equals name => exact hstill (readEquals_still m name token)

/-- A statement does nothing to the memory but write to it. -/
theorem run_grows (m : Machine) (tokens : List Token) :
    m.memory.Grows (m.run tokens).memory := by
  induction tokens generalizing m with
  | nil => exact .refl _
  | cons token rest ih =>
      -- The step has grown the memory, and the rest of the run grows it further.
      have hstep := m.step_grows token (rest.headD .endOfText)
      rw [run]
      cases hcase : m.step token (rest.headD .endOfText) with
      | advance m' =>
          rw [hcase] at hstep
          exact hstep.trans (ih m')
      | finish memory value =>
          rw [hcase] at hstep
          exact hstep
      | fail memory e =>
          rw [hcase] at hstep
          exact hstep

end Machine

/-- An evaluation does nothing to the memory but write to it. -/
theorem evaluateFrom_grows (memory : Memory) (last : Option Binary64) (tokens : List Token) :
    memory.Grows (evaluateFrom memory last tokens).memory := by
  -- The induction follows the statements, each of which grows the memory once more.
  induction memory, last, tokens using evaluateFrom.induct with
  | case1 memory last =>
      rw [evaluateFrom]
      exact .refl memory
  | case2 memory last token rest hend =>
      rw [evaluateFrom_of_isEnd hend]
      exact .refl memory
  | case3 memory last token rest hend ended e hfailed =>
      rw [evaluateFrom_of_error (eq_false_of_ne_true hend) hfailed]
      exact (Machine.start memory).run_grows _
  | case4 memory last token rest hend ended value hvalue _ ih =>
      have hrun : memory.Grows ended.memory := (Machine.start memory).run_grows _
      rw [evaluateFrom_of_ok (eq_false_of_ne_true hend) hvalue]
      exact hrun.trans ih

end Calculator
