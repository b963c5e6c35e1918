import Calculator.Proofs.Writes
import Calculator.Session

/-!
# Replaying the Reports

The values of all names, reconstructed from what a session reports.

A session reports each assignment when it is made, also in a run that fails later on, and it
gives back the value of a run. That is all it takes to know the values: the assignments are
made again in the order of the reports, and behind those of a run that has a value the value
is written to `result`. What is replayed here are values of names, and neither the store nor
the tokens are looked at.

A request makes the writes that its own report tells of, which is one lemma for one request.
The reports of a whole session are then replayed by induction on the requests.

## Main definitions

* `replay`: The values after writes in a row.
* `Report`: What a request reports.
* `Report.writes`: The writes that a report tells of.
* `Session.reports`: The reports of requests, one after the other.

## Theorems

* `get?_assignAll`: The store after assignments has the values after their replay.
* `Session.get?_after`: A request makes the writes of its report.
* `Session.get?_afterAll`: Requests make the writes of their reports.
* `Session.get?_eq_replay`: The values after any requests to a new session, and what a
  further request can do to them.
-/

namespace Calculator

/-- The values of names after writes, in the order in which they are made. -/
def replay (values : String → Option Binary64) (writes : List Assignment) :
    String → Option Binary64 :=
  writes.foldl
    (fun values write name => if name = write.name then some write.value else values name) values

theorem replay_append (values : String → Option Binary64) (front back : List Assignment) :
    replay values (front ++ back) = replay (replay values front) back :=
  List.foldl_append

/-- A replay keeps the value of a name or gives it one of the writes. -/
theorem replay_eq_or_mem (values : String → Option Binary64) (writes : List Assignment)
    (name : String) :
    replay values writes name = values name ∨
      ∃ value, replay values writes name = some value ∧ { name, value } ∈ writes := by
  induction writes generalizing values with
  | nil => exact .inl rfl
  | cons write rest ih =>
      -- The name has the value of a later write, or else that of this one if it is its own.
      rcases ih (fun name => if name = write.name then some write.value else values name) with
        hkept | ⟨value, hvalue, hmem⟩
      · by_cases hname : name = write.name
        · refine .inr ⟨write.value, ?_, ?_⟩
          · rw [replay, List.foldl_cons, ← replay, hkept, if_pos hname]
          · rw [hname]
            exact List.mem_cons_self
        · refine .inl ?_
          rw [replay, List.foldl_cons, ← replay, hkept, if_neg hname]
      · exact .inr ⟨value, hvalue, List.mem_cons_of_mem _ hmem⟩

theorem Store.get?_insert_eq_replay (store : Store) (name : String) (value : Binary64) :
    (store.insert name value).get? = replay store.get? [{ name, value }] := by
  funext other
  exact store.get?_insert name other value

/-- The store after assignments has the values after their replay. -/
theorem Memory.get?_assignAll (memory : Memory) (writes : List Assignment) :
    (memory.assignAll writes).store.get? = replay memory.store.get? writes := by
  induction writes generalizing memory with
  | nil => rfl
  | cons write rest ih =>
      have hrest := ih (memory.assign write.name write.value)
      have hwrite := memory.store.get?_insert_eq_replay write.name write.value
      rw [Memory.assign, hwrite] at hrest
      exact hrest

/-- An evaluation makes the assignments that it has in its memory at the end. -/
theorem get?_evaluate (store : Store) (tokens : List Token) :
    (evaluate store tokens).memory.store.get? =
      replay store.get? (evaluate store tokens).memory.assignments := by
  rcases evaluateFrom_grows (.ofStore store) none tokens with ⟨new, hnew⟩
  rw [evaluate, hnew, Memory.get?_assignAll, Memory.assignments_assignAll]
  rfl

/-- The assignment that an event reports. -/
def Event.assignment? : Event → Option Assignment
  | .assigned assignment => some assignment
  | .loaded _ => none
  | .failed _ => none

/-- What a request reports: its events, and its result if it runs anything. -/
structure Report where
  events : List Event
  result : Option (Except EvalError (Option Binary64))

/-- The report of a run. -/
def Answer.report (answer : Answer) : Report :=
  { events := answer.events, result := some answer.result }

/-- The write of the value that a run has. -/
def resultWrites : Option (Except EvalError (Option Binary64)) → List Assignment
  | some (.ok (some value)) => [{ name := resultName, value }]
  | _ => []

/-- The writes that a report tells of: the assignments in their order, and behind them the
    value. -/
def Report.writes (report : Report) : List Assignment :=
  report.events.filterMap Event.assignment? ++ resultWrites report.result

/-- A write that a report tells of is an assignment it has reported, or the value it has
    given back. -/
theorem Report.mem_writes {report : Report} {write : Assignment} (h : write ∈ report.writes) :
    .assigned write ∈ report.events ∨
      (write.name = resultName ∧ report.result = some (.ok (some write.value))) := by
  -- The writes of a report are those it has logged, and then the one of its result.
  rcases List.mem_append.mp h with hevent | hvalue
  · rcases List.mem_filterMap.mp hevent with ⟨event, hmem, hwrite⟩
    cases event with
    | assigned assignment =>
        rw [← Option.some.inj hwrite]
        exact .inl hmem
    | loaded _ => cases hwrite
    | failed _ => cases hwrite
  · unfold resultWrites at hvalue
    split at hvalue
    · next value hresult =>
        rw [List.mem_singleton.mp hvalue]
        exact .inr ⟨rfl, hresult⟩
    · cases hvalue

namespace Session

/-- The report of a request. -/
def report (s : Session) : Request → Report
  | .load text => { events := [loadedEvent text], result := none }
  | .run => s.run.report
  | .eval text => (s.eval text).report
  | .read _ => { events := [], result := none }

/-- The reports of requests, one after the other. -/
def reports (s : Session) : List Request → List Report
  | [] => []
  | request :: rest => s.report request :: (s.after request).reports rest

-- Neither a failure nor a value is reported as an assignment.
theorem filterMap_assignment?_resultEvents (result : Except EvalError (Option Binary64)) :
    (resultEvents result).filterMap Event.assignment? = [] := by
  cases result <;> rfl

-- What a run records is the write of its value.
theorem get?_recordResult (store : Store) (result : Except EvalError (Option Binary64)) :
    (recordResult store result).get? = replay store.get? (resultWrites (some result)) := by
  match result with
  | .ok (some value) => exact store.get?_insert_eq_replay resultName value
  | .ok none => rfl
  | .error e => rfl

/-- A run makes the writes of its report. -/
theorem get?_run (s : Session) : s.run.session.get? = replay s.get? s.run.report.writes := by
  have hassigned (writes : List Assignment) :
      (writes.map Event.assigned).filterMap Event.assignment? = writes := by
    rw [List.filterMap_map]
    exact List.filterMap_some
  have hrecord := get?_recordResult (evaluate s.store s.pending).memory.store
    (evaluate s.store s.pending).result
  rw [get?_evaluate, ← replay_append] at hrecord
  refine hrecord.trans ?_
  rw [Report.writes, Answer.report, run, List.filterMap_append, hassigned,
    filterMap_assignment?_resultEvents, List.append_nil]
  rfl

/-- A request makes the writes of its report. -/
theorem get?_after (s : Session) (request : Request) :
    (s.after request).get? = replay s.get? (s.report request).writes := by
  cases request with
  | load text => rfl
  | run => exact s.get?_run
  | eval text => exact (s.load text).get?_run
  | read name => rfl

/-- Requests make the writes of their reports. -/
theorem get?_afterAll (s : Session) (requests : List Request) :
    (s.afterAll requests).get? = replay s.get? ((s.reports requests).flatMap Report.writes) := by
  induction requests generalizing s with
  | nil => rfl
  | cons request rest ih =>
      have hrest := ih (s.after request)
      rw [get?_after, ← replay_append] at hrest
      exact hrest

/-- After any requests to a new session, the values are those of the constants after a
    replay of all reports. A further request removes no name and changes a value only to
    one that it assigns or gives back, so without either it leaves `result` alone. -/
theorem get?_eq_replay (requests : List Request) :
    (new.afterAll requests).get? =
        replay Store.constants.get? ((new.reports requests).flatMap Report.writes) ∧
      ∀ request : Request,
        let before := new.afterAll requests
        let after := before.after request
        let report := before.report request
        (∀ name, (before.get? name).isSome = true → (after.get? name).isSome = true) ∧
          (∀ name, after.get? name ≠ before.get? name →
            ∃ value, after.get? name = some value ∧
              (.assigned { name, value } ∈ report.events ∨
                (name = resultName ∧ report.result = some (.ok (some value))))) ∧
          ((∀ value, report.result ≠ some (.ok (some value))) →
            (∀ value, .assigned { name := resultName, value } ∉ report.events) →
              after.get? resultName = before.get? resultName) := by
  refine ⟨get?_afterAll new requests, fun request => ?_⟩
  dsimp only
  generalize new.afterAll requests = before
  -- All three consequences say what one request can do to one name.
  have hstep (name : String) :
      (before.after request).get? name = before.get? name ∨
        ∃ value, (before.after request).get? name = some value ∧
          (.assigned { name, value } ∈ (before.report request).events ∨
            (name = resultName ∧ (before.report request).result = some (.ok (some value)))) := by
    rw [get?_after]
    rcases replay_eq_or_mem before.get? (before.report request).writes name with
      hkept | ⟨value, hvalue, hmem⟩
    · exact .inl hkept
    · exact .inr ⟨value, hvalue, Report.mem_writes hmem⟩
  refine ⟨fun name hsome => ?_, fun name hne => ?_, fun hvalue hassigned => ?_⟩
  · rcases hstep name with hkept | ⟨value, hnew, -⟩
    · rw [hkept]
      exact hsome
    · rw [hnew]
      rfl
  · exact (hstep name).resolve_left hne
  · rcases hstep resultName with hkept | ⟨value, -, hreported | ⟨-, hresult⟩⟩
    · exact hkept
    · exact absurd hreported (hassigned value)
    · exact absurd hresult (hvalue value)

end Session

end Calculator
