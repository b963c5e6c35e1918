import Calculator.Proofs.Writes
import Calculator.Session

/-!
# Names That Are Not Mentioned

An evaluation cannot tell apart two stores that differ in a name that is not mentioned.

A name is looked up and written only where its token is, so two runs over the same tokens
from stores that agree on all other names do the same thing step by step. What they have in
common at each point is `Memory.Beside`: the stores still agree, the name that is not
mentioned is as it was at the start of each run, and the writes since then are the same
ones. The starting memories stay in the relation because the two runs may have different
ones, and what was written before the start is of no concern to either.

The machine holds names too, those of the assignments that are open. `Machine.Avoids` keeps
the name out of them, and every step preserves it as long as its token is another.

A session adds one write to this, that of the value of a run to `result`. It is the same
write in both sessions, so it disturbs nothing but `result` itself, and there it leaves the
two with one value.

## Main definitions

* `Memory.Beside`: Two memories on the way from two starting points.
* `Machine.Avoids`: A machine that has not taken the name.
* `Step.Beside`: Steps that two machines take side by side.

## Theorems

* `Machine.step_beside`: One step.
* `Machine.run_beside`: One statement.
* `evaluateFrom_beside`: Statements up to the end of the text.
* `Session.eval_of_name_notMem`: Two sessions that differ in a name answer alike to a text
  that does not mention it.
-/

namespace Calculator

/-- Two memories that two runs have reached from their starting memories, of which only the
    number of `x` differs. -/
structure Memory.Beside (x : String) (start start' memory memory' : Memory) : Prop where
  others : ∀ name, name ≠ x → memory.store.get? name = memory'.store.get? name
  left : memory.store.get? x = start.store.get? x
  right : memory'.store.get? x = start'.store.get? x
  trail : ∃ new, memory.trail = new ++ start.trail ∧ memory'.trail = new ++ start'.trail

/-- A machine that is in no assignment to `x`. -/
structure Machine.Avoids (x : String) (m : Machine) : Prop where
  enclosing : Enclosure.assignment x ∉ m.enclosing
  phase : m.phase ≠ .equals x

/-- A machine with another memory. -/
def Machine.withMemory (memory : Memory) (m : Machine) : Machine :=
  { m with memory }

/-- Steps of two machines side by side. -/
inductive Step.Beside (x : String) (start start' : Memory) : Step → Step → Prop where
  | advance {m : Machine} {memory' : Memory} (hm : m.Avoids x)
      (h : Memory.Beside x start start' m.memory memory') :
      Beside x start start' (.advance m) (.advance (m.withMemory memory'))
  | finish {memory memory' : Memory} (value : Binary64)
      (h : Memory.Beside x start start' memory memory') :
      Beside x start start' (.finish memory value) (.finish memory' value)
  | fail {memory memory' : Memory} (e : EvalError)
      (h : Memory.Beside x start start' memory memory') :
      Beside x start start' (.fail memory e) (.fail memory' e)

variable {x : String} {start start' memory memory' : Memory}

-- Two runs begin with nothing written.
theorem Memory.beside_start
    (h : ∀ name, name ≠ x → start.store.get? name = start'.store.get? name) :
    Beside x start start' start start' :=
  ⟨h, rfl, rfl, [], rfl, rfl⟩

theorem Memory.Beside.assign (h : Beside x start start' memory memory') {name : String}
    (hname : name ≠ x) (value : Binary64) :
    Beside x start start' (memory.assign name value) (memory'.assign name value) := by
  rcases h with ⟨hothers, hleft, hright, new, htrail, htrail'⟩
  refine ⟨?_, ?_, ?_, { name, value } :: new, ?_, ?_⟩
  · intro other hother
    rw [Memory.assign, Memory.assign, Store.get?_insert, Store.get?_insert, hothers other hother]
  · rw [Memory.assign, Store.get?_insert, if_neg hname.symm, hleft]
  · rw [Memory.assign, Store.get?_insert, if_neg hname.symm, hright]
  · rw [Memory.assign, htrail, List.cons_append]
  · rw [Memory.assign, htrail', List.cons_append]

namespace Machine

theorem supply_withMemory (m : Machine) (left : Left) (operand : Operand) :
    (m.withMemory memory').supply left operand =
      (m.supply left operand).map (withMemory memory') := by
  rw [supply, supply]
  split <;> rfl

theorem enter_withMemory (m : Machine) (enclosure : Enclosure) :
    (m.withMemory memory').enter enclosure = (m.enter enclosure).map (withMemory memory') := by
  have hlength : (m.withMemory memory').enclosing = m.enclosing := rfl
  rw [enter, enter, hlength]
  split <;> rfl

theorem startAssignment_withMemory (m : Machine) (left : Left) (word : String) (next : Phase)
    (ahead : Token) :
    (m.withMemory memory').startAssignment left word next ahead =
      (m.startAssignment left word next ahead).map (withMemory memory') := by
  rw [startAssignment, startAssignment, supply_withMemory]
  split
  · rfl
  split <;> rfl

/-- What a token may make of a machine so that it avoids `x`. -/
def Keeps (x : String) (read : Except EvalError Machine) : Prop :=
  ∀ m, read = .ok m → m.Avoids x

theorem keeps_error (e : EvalError) : Keeps x (.error e) :=
  fun _ h => by cases h

theorem keeps_phase {m : Machine} (hm : m.Avoids x) {phase : Phase} (hphase : phase ≠ .equals x) :
    Keeps x (.ok { m with phase }) := by
  intro m' h
  rw [← Except.ok.inj h]
  exact ⟨hm.enclosing, hphase⟩

theorem supply_keeps {m : Machine} (hm : m.Avoids x) (left : Left) (operand : Operand) :
    Keeps x (m.supply left operand) := by
  rw [supply]
  cases hphase : left.supply operand with
  | error e => exact keeps_error e
  | ok phase =>
      refine keeps_phase hm ?_
      -- A complete operand leads to the phase that expects an operation.
      rw [Left.supply] at hphase
      split at hphase
      · cases hphase
        exact fun h => by cases h
      split at hphase
      · cases hphase
      · cases hphase
      split at hphase
      · cases hphase
      · cases hphase
        exact fun h => by cases h

theorem enter_keeps {m : Machine} (hm : m.Avoids x) {enclosure : Enclosure}
    (h : enclosure ≠ .assignment x) : Keeps x (m.enter enclosure) := by
  rw [enter]
  split
  · intro m' hm'
    rw [← Except.ok.inj hm']
    refine ⟨?_, fun h => by cases h⟩
    rw [List.mem_cons]
    rintro (heq | hmem)
    · exact h heq.symm
    · exact hm.enclosing hmem
  · exact keeps_error _

theorem startAssignment_keeps {m : Machine} (hm : m.Avoids x) (left : Left) (word : String)
    {next : Phase} (hnext : next ≠ .equals x) (ahead : Token) :
    Keeps x (m.startAssignment left word next ahead) := by
  rw [startAssignment]
  split
  · exact supply_keeps hm left _
  split
  · exact keeps_error _
  · exact keeps_phase hm hnext

theorem readOperand_keeps {m : Machine} (hm : m.Avoids x) (left : Left) {token : Token}
    (htoken : token ≠ .name x) (ahead : Token) : Keeps x (m.readOperand left token ahead) := by
  cases token with
  | number value => exact supply_keeps hm left _
  | name name =>
      rw [readOperand]
      split
      · -- An assignment may start here, and what it waits for is the name that is read, not `x`.
        refine startAssignment_keeps hm left _ (fun heq => htoken ?_) ahead
        rw [Phase.equals.inj heq]
      split
      · exact supply_keeps hm left _
      · exact keeps_error _
  | letWord =>
      have hnext : Phase.target ≠ .equals x := fun h => by cases h
      exact startAssignment_keeps hm left _ hnext ahead
  | openParen => exact enter_keeps hm fun h => by cases h
  | minus => exact keeps_phase hm fun h => by cases h
  | _ => exact keeps_error _

theorem readOperand_withMemory {m : Machine}
    (hothers : ∀ name, name ≠ x → m.memory.store.get? name = memory'.store.get? name) (left : Left)
    {token : Token} (htoken : token ≠ .name x) (ahead : Token) :
    (m.withMemory memory').readOperand left token ahead =
      (m.readOperand left token ahead).map (withMemory memory') := by
  cases token with
  | number value => exact supply_withMemory m left _
  | name name =>
      -- The one place where the store is read, and it is not read at `x`.
      have hname : name ≠ x := fun heq => htoken (congrArg _ heq)
      have hget : (m.withMemory memory').memory.store.get? name = m.memory.store.get? name :=
        (hothers name hname).symm
      rw [readOperand, readOperand, hget]
      split
      · exact startAssignment_withMemory m left _ _ ahead
      cases m.memory.store.get? name with
      | none => rfl
      | some value => exact supply_withMemory m left _
  | letWord => exact startAssignment_withMemory m left _ _ ahead
  | openParen => exact enter_withMemory m _
  | _ => rfl

theorem readNegated_keeps {m : Machine} (hm : m.Avoids x) (left : Left) (token : Token) :
    Keeps x (m.readNegated left token) := by
  cases token with
  | number value => exact supply_keeps hm left _
  | _ => exact keeps_error _

theorem readTarget_keeps {m : Machine} (hm : m.Avoids x) {token : Token}
    (htoken : token ≠ .name x) : Keeps x (m.readTarget token) := by
  cases token with
  | name name =>
      refine keeps_phase hm fun heq => htoken ?_
      rw [Phase.equals.inj heq]
  | _ => exact keeps_error _

theorem readEquals_keeps {m : Machine} (hm : m.Avoids x) {name : String} (hname : name ≠ x)
    (token : Token) : Keeps x (m.readEquals name token) := by
  cases token with
  | equals => exact enter_keeps hm fun heq => hname (Enclosure.assignment.inj heq)
  | _ => exact keeps_error _

-- What is read without writing anything is a step of both machines, or a failure of both.
theorem beside_ofExcept {m : Machine} {read : Except EvalError Machine}
    (h : Memory.Beside x start start' m.memory memory') (hstill : m.Still read)
    (hkeeps : Keeps x read) :
    Step.Beside x start start' (.ofExcept m.memory read)
      (.ofExcept memory' (read.map (withMemory memory'))) := by
  cases read with
  | error e => exact .fail e h
  | ok m' =>
      rw [← hstill m' rfl] at h
      exact .advance (hkeeps m' rfl) h

-- The assignments that are closed are to other names, and what encloses them avoids `x`.
theorem closeAssignments_beside (value : Binary64) (enclosing : List Enclosure)
    (havoids : Enclosure.assignment x ∉ enclosing)
    (h : Memory.Beside x start start' memory memory') :
    (closeAssignments value memory enclosing).2 = (closeAssignments value memory' enclosing).2 ∧
      Memory.Beside x start start' (closeAssignments value memory enclosing).1
        (closeAssignments value memory' enclosing).1 ∧
      ∀ left outer, (closeAssignments value memory enclosing).2 = some (left, outer) →
        Enclosure.assignment x ∉ outer := by
  -- The names that are written are those of the assignments, and `x` is none of them.
  induction enclosing generalizing memory memory' with
  | nil => exact ⟨rfl, h, fun _ _ hnone => by cases hnone⟩
  | cons enclosure rest ih =>
      rw [List.mem_cons, not_or] at havoids
      cases enclosure with
      | parenthesis left =>
          refine ⟨rfl, h, fun _ _ hsome => ?_⟩
          cases hsome
          exact havoids.2
      | assignment name =>
          have hname : name ≠ x := fun heq => havoids.1 (congrArg _ heq.symm)
          exact ih havoids.2 (h.assign hname value)

theorem closeSum_beside {m : Machine} (hm : m.Avoids x)
    (h : Memory.Beside x start start' m.memory memory') (value : Binary64) (token : Token) :
    Step.Beside x start start' (m.closeSum value token)
      ((m.withMemory memory').closeSum value token) := by
  rcases closeAssignments_beside value m.enclosing hm.enclosing h with ⟨houter, hmemory, havoids⟩
  have hother : m.withMemory memory' =
      { memory := memory', enclosing := m.enclosing, phase := m.phase } := rfl
  rw [hother, closeSum, closeSum]
  dsimp only
  rcases hclose : closeAssignments value m.memory m.enclosing with ⟨memory₁, outer⟩
  rcases hclose' : closeAssignments value memory' m.enclosing with ⟨memory₂, outer'⟩
  rw [hclose, hclose'] at houter hmemory
  rw [hclose] at havoids
  dsimp only at houter hmemory havoids
  subst houter
  cases outer with
  | none => exact .finish value hmemory
  | some found =>
      rcases found with ⟨left, outer⟩
      dsimp only
      by_cases hparen : token = .closeParen
      · rw [if_pos hparen, if_pos hparen]
        -- Both machines are the one outside the parenthesis, each with its own memory.
        have hinner : Avoids x { m with memory := memory₁, enclosing := outer } :=
          ⟨havoids left outer rfl, hm.phase⟩
        have hsupply :
            supply { m with memory := memory₂, enclosing := outer } left (.number value) =
              (supply { m with memory := memory₁, enclosing := outer } left
                (.number value)).map (withMemory memory₂) :=
          supply_withMemory { m with memory := memory₁, enclosing := outer } left (.number value)
        rw [hsupply]
        exact beside_ofExcept hmemory (supply_still _ left _) (supply_keeps hinner left _)
      · rw [if_neg hparen, if_neg hparen]
        exact .fail _ hmemory

theorem readOperator_beside {m : Machine} (hm : m.Avoids x)
    (h : Memory.Beside x start start' m.memory memory') (sum : WaitingSum) (term : Operand)
    (token : Token) :
    Step.Beside x start start' (m.readOperator sum term token)
      ((m.withMemory memory').readOperator sum term token) := by
  -- The store is not read behind an operand, so both machines come to the same end of the sum.
  rw [readOperator, readOperator]
  cases token.productOp? with
  | some op => exact .advance ⟨hm.enclosing, fun h => by cases h⟩ h
  | none =>
      cases term.toNumber with
      | error e => exact .fail e h
      | ok value =>
          cases token.sumOp? with
          | some op => exact .advance ⟨hm.enclosing, fun h => by cases h⟩ h
          | none => exact closeSum_beside hm h _ _

/-- A token that is not the name `x` moves two machines side by side. -/
theorem step_beside {m : Machine} (hm : m.Avoids x)
    (h : Memory.Beside x start start' m.memory memory') {token : Token} (htoken : token ≠ .name x)
    (ahead : Token) :
    Step.Beside x start start' (m.step token ahead) ((m.withMemory memory').step token ahead) := by
  have hphase : (m.withMemory memory').phase = m.phase := rfl
  rw [step, step, hphase]
  -- Only behind an operand does a step write. In the other phases it is enough that the steps
  -- of the two machines agree and keep the memory.
  cases hcase : m.phase with
  | operand left =>
      dsimp only
      rw [readOperand_withMemory h.others left htoken]
      exact beside_ofExcept h (readOperand_still m left token ahead)
        (readOperand_keeps hm left htoken ahead)
  | negated left =>
      have hread : (m.withMemory memory').readNegated left token =
          (m.readNegated left token).map (withMemory memory') := by
        cases token with
        | number value => exact supply_withMemory m left _
        | _ => rfl
      dsimp only
      rw [hread]
      exact beside_ofExcept h (readNegated_still m left token) (readNegated_keeps hm left token)
  | operator sum term => exact readOperator_beside hm h sum term token
  | target =>
      have hread : (m.withMemory memory').readTarget token =
          (m.readTarget token).map (withMemory memory') := by
        cases token <;> rfl
      dsimp only
      rw [hread]
      exact beside_ofExcept h (readTarget_still m token) (readTarget_keeps hm htoken)
  | equals name =>
      have hname : name ≠ x := by
        intro heq
        rw [heq] at hcase
        exact hm.phase hcase
      have hread : (m.withMemory memory').readEquals name token =
          (m.readEquals name token).map (withMemory memory') := by
        cases token with
        | equals => exact enter_withMemory m _
        | _ => rfl
      dsimp only
      rw [hread]
      exact beside_ofExcept h (readEquals_still m name token) (readEquals_keeps hm hname token)

/-- A statement that does not mention `x` ends alike for two machines side by side. -/
theorem run_beside {tokens : List Token} (hname : Token.name x ∉ tokens) {m : Machine}
    (hm : m.Avoids x) (h : Memory.Beside x start start' m.memory memory') :
    (m.run tokens).result = ((m.withMemory memory').run tokens).result ∧
      (m.run tokens).rest = ((m.withMemory memory').run tokens).rest ∧
      Memory.Beside x start start' (m.run tokens).memory
        ((m.withMemory memory').run tokens).memory := by
  induction tokens generalizing m memory' with
  | nil => exact ⟨rfl, rfl, h⟩
  | cons token rest ih =>
      -- One step of both machines, and then the rest of both runs.
      rw [List.mem_cons, not_or] at hname
      have hstep := step_beside hm h (Ne.symm hname.1) (rest.headD .endOfText)
      rw [run, run]
      generalize m.step token (rest.headD .endOfText) = step₁ at hstep ⊢
      generalize (m.withMemory memory').step token (rest.headD .endOfText) = step₂ at hstep ⊢
      cases hstep with
      | advance hm' h' => exact ih hname.2 hm' h'
      | finish value h' => exact ⟨rfl, rfl, h'⟩
      | fail e h' => exact ⟨rfl, rfl, h'⟩

end Machine

-- What follows a statement mentions no more names than there were.
theorem notMem_rest {tokens : List Token} (hname : Token.name x ∉ tokens) (m : Machine) :
    Token.name x ∉ (m.run tokens).rest :=
  fun h => hname ((m.run_rest_suffix tokens).mem h)

-- A machine at the start of a statement has no name yet.
theorem evaluateStatement_beside {tokens : List Token} (hname : Token.name x ∉ tokens)
    (h : Memory.Beside x start start' memory memory') :
    (evaluateStatement memory tokens).result = (evaluateStatement memory' tokens).result ∧
      (evaluateStatement memory tokens).rest = (evaluateStatement memory' tokens).rest ∧
      Memory.Beside x start start' (evaluateStatement memory tokens).memory
        (evaluateStatement memory' tokens).memory := by
  have havoids : (Machine.start memory).Avoids x :=
    ⟨List.not_mem_nil, fun h => by cases h⟩
  exact Machine.run_beside hname havoids h

/-- An evaluation of tokens that do not mention `x` ends alike from two memories side by
    side. -/
theorem evaluateFrom_beside {tokens : List Token} (hname : Token.name x ∉ tokens)
    (h : Memory.Beside x start start' memory memory') (last : Option Binary64) :
    (evaluateFrom memory last tokens).result = (evaluateFrom memory' last tokens).result ∧
      (evaluateFrom memory last tokens).rest = (evaluateFrom memory' last tokens).rest ∧
      Memory.Beside x start start' (evaluateFrom memory last tokens).memory
        (evaluateFrom memory' last tokens).memory := by
  induction memory, last, tokens using evaluateFrom.induct generalizing memory' with
  | case1 memory last =>
      rw [evaluateFrom, evaluateFrom]
      exact ⟨rfl, rfl, h⟩
  | case2 memory last token rest hend =>
      rw [evaluateFrom_of_isEnd hend, evaluateFrom_of_isEnd hend]
      exact ⟨rfl, rfl, h⟩
  | case3 memory last token rest hend ended e =>
      -- The statement fails in the other run as well.
      rename_i hfailed
      rw [Bool.not_eq_true] at hend
      rcases evaluateStatement_beside hname h with ⟨hresult, hrest, hmemory⟩
      rw [evaluateFrom_of_error hend hfailed,
        evaluateFrom_of_error hend (hresult.symm.trans hfailed)]
      exact ⟨rfl, hrest, hmemory⟩
  | case4 memory last token rest hend ended value hvalue _ =>
      -- Both runs go on with the same tokens.
      rename_i ih
      rw [Bool.not_eq_true] at hend
      rcases evaluateStatement_beside hname h with ⟨hresult, hrest, hmemory⟩
      rw [evaluateFrom_of_ok hend hvalue,
        evaluateFrom_of_ok hend (hresult.symm.trans hvalue), ← hrest]
      exact ih (notMem_rest hname _) hmemory

-- Values can be compared where failures cannot.
theorem eq_ok_of_toOption {ε α : Type} {r : Except ε α} {a : α} (h : r.toOption = some a) :
    r = .ok a := by
  cases r with
  | error e => cases h
  | ok b => exact congrArg Except.ok (Option.some.inj h)

namespace Session

variable {s s' : Session}

/-- A result is recorded nowhere but in `result`, and only if it is a value. -/
theorem get?_recordResult_of_unwritten {name : String}
    {result : Except EvalError (Option Binary64)}
    (h : name ≠ resultName ∨ ∀ value, result ≠ .ok (some value)) (store : Store) :
    (recordResult store result).get? name = store.get? name := by
  match result with
  | .ok (some value) =>
      have hname : name ≠ resultName := h.resolve_right fun hvalue => hvalue value rfl
      exact (store.get?_insert resultName name value).trans (if_neg hname)
  | .ok none => rfl
  | .error e => rfl

/-- Recording one result keeps two stores alike at the names where they were alike. -/
theorem get?_recordResult_congr {store store' : Store} {name : String}
    (h : store.get? name = store'.get? name) (result : Except EvalError (Option Binary64)) :
    (recordResult store result).get? name = (recordResult store' result).get? name := by
  match result with
  | .ok (some value) =>
      rw [recordResult, recordResult, Store.get?_insert, Store.get?_insert, h]
  | .ok none => exact h
  | .error e => exact h

/-- Two sessions that differ in a name at most answer alike to a text that does not mention
    it: with the same result and the same reports, and with the same numbers of all other
    names afterwards. The name itself is left as it was in each, except that a value is
    recorded in `result`. -/
theorem eval_of_name_notMem {text : String} (hname : Token.name x ∉ tokenize text)
    (hothers : ∀ name, name ≠ x → s.get? name = s'.get? name) :
    (s.eval text).result = (s'.eval text).result ∧
      (s.eval text).events = (s'.eval text).events ∧
      (∀ name, name ≠ x →
        (s.eval text).session.get? name = (s'.eval text).session.get? name) ∧
      (x ≠ resultName ∨ (∀ value, (s.eval text).result ≠ .ok (some value)) →
        (s.eval text).session.get? x = s.get? x ∧
          (s'.eval text).session.get? x = s'.get? x) ∧
      ∀ value, x = resultName → (s.eval text).result = .ok (some value) →
        (s.eval text).session.get? x = some value ∧
          (s'.eval text).session.get? x = some value := by
  have hstart : Memory.Beside x (.ofStore s.store) (.ofStore s'.store) (.ofStore s.store)
      (.ofStore s'.store) := Memory.beside_start hothers
  rcases evaluateFrom_beside hname hstart none with ⟨hresult, -, hmemory⟩
  -- The answer to a text is made from the end of its evaluation.
  have hanswer (s : Session) :
      (s.eval text).result = (evaluateFrom (.ofStore s.store) none (tokenize text)).result ∧
        (s.eval text).events = loadedEvent text ::
          ((evaluateFrom (.ofStore s.store) none (tokenize text)).memory.assignments.map
            .assigned ++ resultEvents (s.eval text).result) ∧
        (s.eval text).session.store =
          recordResult (evaluateFrom (.ofStore s.store) none (tokenize text)).memory.store
            (s.eval text).result := ⟨rfl, rfl, rfl⟩
  rcases hanswer s with ⟨hresult₁, hevents₁, hstore₁⟩
  rcases hanswer s' with ⟨hresult₂, hevents₂, hstore₂⟩
  have hsame : (s.eval text).result = (s'.eval text).result :=
    hresult₁.trans (hresult.trans hresult₂.symm)
  rw [← hsame] at hevents₂ hstore₂
  refine ⟨hsame, ?_, fun name hne => ?_, fun hunwritten => ⟨?_, ?_⟩, fun value hx hvalue => ?_⟩
  · -- Both runs have made the same writes, and there were none before them.
    rcases hmemory.trail with ⟨new, htrail₁, htrail₂⟩
    rw [hevents₁, hevents₂, Memory.assignments, Memory.assignments, htrail₁, htrail₂]
    rfl
  · rw [get?, get?, hstore₁, hstore₂]
    exact get?_recordResult_congr (hmemory.others name hne) _
  · rw [get?, hstore₁, get?_recordResult_of_unwritten hunwritten, hmemory.left]
    rfl
  · rw [get?, hstore₂, get?_recordResult_of_unwritten hunwritten, hmemory.right]
    rfl
  · rw [get?, get?, hstore₁, hstore₂, hvalue, hx]
    exact ⟨(Store.get?_insert _ _ _ _).trans (if_pos rfl),
      (Store.get?_insert _ _ _ _).trans (if_pos rfl)⟩

/-- The name `result` itself, which one of two sessions has and the other has not. -/
theorem eval_of_name_notMem_sample :
    Token.name "result" ∉ tokenize "x = 2; x / 4" ∧
      (∀ name, name ≠ "result" →
        (new.eval "7").session.get? name = new.get? name) ∧
      ((new.eval "7").session.eval "x = 2; x / 4").result =
        (new.eval "x = 2; x / 4").result ∧
      ((new.eval "7").session.eval "x = 2; x / 4").session.get? "result" =
        (new.eval "x = 2; x / 4").session.get? "result" := by
  have hname : Token.name "result" ∉ tokenize "x = 2; x / 4" := by decide +kernel
  have hothers (name : String) (hne : name ≠ "result") :
      (new.eval "7").session.get? name = new.get? name := by
    -- The text `7` assigns nothing, so only its value has been recorded.
    have hstore : (new.eval "7").session.store =
        recordResult Store.constants (new.eval "7").result := by decide +kernel
    rw [get?, hstore, get?_recordResult_of_unwritten (.inl hne)]
    rfl
  have hvalue : ((new.eval "7").session.eval "x = 2; x / 4").result =
      .ok (some (.ofBits 0x3fe0000000000000)) := eq_ok_of_toOption (by decide +kernel)
  rcases eval_of_name_notMem hname hothers with ⟨hresult, -, -, -, hrecorded⟩
  rcases hrecorded _ rfl hvalue with ⟨hleft, hright⟩
  exact ⟨hname, hothers, hresult, hleft.trans hright.symm⟩

end Session

end Calculator
