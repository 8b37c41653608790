import Ltf.Base.Steps
import Ltf.Test

/-! What each function of the runner does to a state whose current record is known.
Every step is an equation, so nothing it leaves alone has to be listed. -/

namespace Ltf.Proofs.RunnerSteps
open CString

/-- Surroundings without surprises, for examples. -/
def plainEnv : Env where
  clock _ := .lit "12:00:00"
  luaLength := .first
  traceback := id
  sigint _ := false

/-- A runner that nothing has been registered with, for examples. -/
def newRunner : Runner where
  state := ltfStateNew (.lit "project") (.lit "1.0") (.lit "os") (.lit "1") none [] 0

@[simp] theorem takeLog_status (test : StateTest) (o : TestOutput) : (takeLog test o).status = test.status := by
  cases status : test.status <;> simp [takeLog, status]

theorem foldl_daAppend (items : List α) (da : DaPtr α) : items.foldl daAppend da = da.map (· ++ items) := by
  induction items generalizing da with
  | nil => simp
  | cons item items ih => cases da <;> simp [ih, daAppend]

/-- Logs of a running test: all of them are outputs, the errors are failure reasons too. -/
theorem takeLogs_running {test : StateTest} (running : test.status = .running) (outputs : List TestOutput) :
    outputs.foldl takeLog test = { test with
      outputs := outputs.foldl daAppend test.outputs
      failureReasons := (outputs.filter (·.level = some .error)).foldl daAppend test.failureReasons } := by
  induction outputs generalizing test with
  | nil => rfl
  | cons output outputs ih =>
    rw [List.foldl_cons, ih (by simpa using running)]
    by_cases error : output.level = some .error <;> simp [takeLog, running, error]

theorem takeLogs_teardown {test : StateTest}
    (teardown : test.status = .teardownAfterPassed ∨ test.status = .teardownAfterFailed)
    (outputs : List TestOutput) :
    outputs.foldl takeLog test = { test with teardownOutputs := outputs.foldl daAppend test.teardownOutputs } := by
  induction outputs generalizing test with
  | nil => rfl
  | cons output outputs ih =>
    rw [List.foldl_cons, ih (by simpa using teardown)]
    rcases teardown with passed | failed
    · simp [takeLog, passed]
    · simp [takeLog, failed]

def stamped (env : Env) : Nat → List LogCall → List TestOutput
  | _, [] => []
  | tick, call :: calls => logOutput (env.clock tick) call :: stamped env (tick + 1) calls

def entries : Nat → List ((List LuaValue → LuaCode) × List LuaValue) → List DeferEntry
  | _, [] => []
  | next, (fn, args) :: rest => { id := next, fn, args } :: entries (next + 1) rest

def extend (list : Option (List DeferEntry)) (added : List DeferEntry) : Option (List DeferEntry) :=
  if added = [] then list else some (list.getD [] ++ added)

@[simp] theorem extend_getD (list : Option (List DeferEntry)) (added : List DeferEntry) :
    (extend list added).getD [] = list.getD [] ++ added := by
  unfold extend
  split
  next empty => simp [empty]
  next => rfl

theorem extend_cons (list : Option (List DeferEntry)) (entry : DeferEntry) (added : List DeferEntry) :
    extend (some (list.getD [] ++ [entry])) added = extend list (entry :: added) := by
  unfold extend
  split
  next empty => simp [empty]
  next => simp

/-- What running code shows to the outside while logs go to a record. -/
def actionEvents (env : Env) (cbs : List Nat) (record : Nat) : Nat → Nat → List LuaAction → List Event
  | _, _, [] => []
  | tick, next, .log call :: rest =>
    .currentTest :: cbs.map (.testLog · record (logOutput (env.clock tick) call)) ++
      actionEvents env cbs record (tick + 1) next rest
  | tick, next, .defer fn args :: rest =>
    .deferRegistered { id := next, fn, args } :: actionEvents env cbs record tick (next + 1) rest

@[simp] theorem emit_deferList (r : Runner) (events : List Event) : (r.emit events).deferList = r.deferList := rfl
@[simp] theorem emit_marked (r : Runner) (events : List Event) :
    (r.emit events).testMarkedFailed = r.testMarkedFailed := rfl
@[simp] theorem emit_trace (r : Runner) (events : List Event) : (r.emit events).trace = r.trace ++ events := rfl
@[simp] theorem emit_nextDefer (r : Runner) (events : List Event) : (r.emit events).nextDefer = r.nextDefer := rfl
@[simp] theorem push_state (r : Runner) (slots : Nat) : (r.push slots).state = r.state := rfl
@[simp] theorem push_deferList (r : Runner) (slots : Nat) : (r.push slots).deferList = r.deferList := rfl
@[simp] theorem push_marked (r : Runner) (slots : Nat) : (r.push slots).testMarkedFailed = r.testMarkedFailed := rfl
@[simp] theorem push_trace (r : Runner) (slots : Nat) : (r.push slots).trace = r.trace := rfl
@[simp] theorem push_nextDefer (r : Runner) (slots : Nat) : (r.push slots).nextDefer = r.nextDefer := rfl
@[simp] theorem pop_state (r : Runner) (slots : Nat) : (r.pop slots).state = r.state := rfl
@[simp] theorem pop_deferList (r : Runner) (slots : Nat) : (r.pop slots).deferList = r.deferList := rfl
@[simp] theorem pop_marked (r : Runner) (slots : Nat) : (r.pop slots).testMarkedFailed = r.testMarkedFailed := rfl
@[simp] theorem pop_trace (r : Runner) (slots : Nat) : (r.pop slots).trace = r.trace := rfl
@[simp] theorem pop_nextDefer (r : Runner) (slots : Nat) : (r.pop slots).nextDefer = r.nextDefer := rfl
@[simp] theorem tick_state (r : Runner) : r.tick.state = r.state := rfl

/-- The state with its last record replaced, the earlier ones given. -/
def recorded (state : LtfState) (earlier : List StateTest) (test : StateTest) : LtfState :=
  { state with tests := some (earlier ++ [test]) }

section Recorded
variable (state : LtfState) (earlier : List StateTest) (test : StateTest)

@[simp] theorem recorded_recorded (before : List StateTest) (other : StateTest) :
    recorded (recorded state before other) earlier test = recorded state earlier test := rfl
@[simp] theorem recorded_tests : (recorded state earlier test).tests = some (earlier ++ [test]) := rfl
@[simp] theorem recorded_stage : (recorded state earlier test).currentStage = state.currentStage := rfl
@[simp] theorem recorded_testLogCbs : (recorded state earlier test).testLogCbs = state.testLogCbs := rfl

end Recorded

/-- The run state has records, and this is the last one. -/
def At (r : Runner) (earlier : List StateTest) (test : StateTest) : Prop := r.state.tests = some (earlier ++ [test])

variable (env : Env) {r : Runner} {earlier : List StateTest} {test : StateTest}

@[simp] theorem daSize_concat (items : List α) (item : α) : daSize (some (items ++ [item])) - 1 = items.length := by
  simp [daSize]

theorem At.tests (here : At r earlier test) : r.state.tests = some (earlier ++ [test]) := here

theorem At.last (here : At r earlier test) : r.tests.getLast? = some test := by simp [Runner.tests, here.tests]

theorem At.getCurrent (here : At r earlier test) : ltfStateGetCurrentTest r = .ok (test, r.emit [.currentTest]) := by
  simp only [ltfStateGetCurrentTest, here.last]

theorem At.of_last (found : r.tests.getLast? = some test) : At r r.tests.dropLast test := by
  cases tests : r.state.tests with
  | none => simp [Runner.tests, tests] at found
  | some records =>
    have known : r.tests = records := by simp [Runner.tests, tests]
    rw [At, tests, known, List.dropLast_append_getLast? test (known ▸ found)]

/-- Any records have a last one. -/
theorem At.of_length {records : List StateTest} {n : Nat} (tests : r.state.tests = some records)
    (length : records.length = n + 1) : ∃ earlier test, At r earlier test ∧ earlier.length = n := by
  have known : records ≠ [] := by
    rintro rfl
    cases length
  refine ⟨records.dropLast, records.getLast known, ?_, ?_⟩
  · rw [At, tests, List.dropLast_append_getLast known]
  · rw [List.length_dropLast, length, Nat.add_sub_cancel]

theorem At.current (here : At r earlier test) : r.current = earlier.length := by
  simp [Runner.current, daSize, here.tests]

theorem At.put (here : At r earlier test) (other : StateTest) :
    r.putCurrent other = { r with state := recorded r.state earlier other } := by
  simp [Runner.putCurrent, recorded, here.tests]

theorem At.same (here : At r earlier test) : recorded r.state earlier test = r.state := by
  rw [recorded, ← here.tests]

theorem log_test (here : At r earlier test) (stage : r.state.currentStage = .test) (call : LogCall) :
    ltfStateLog env call r = .ok { r with
      state := recorded r.state earlier (takeLog test (logOutput (env.clock r.ticks) call))
      testMarkedFailed := r.testMarkedFailed || (test.status == .running && call.level == .error)
      ticks := r.ticks + 1
      trace := r.trace ++
        .currentTest :: r.state.testLogCbs.map (.testLog · earlier.length (logOutput (env.clock r.ticks) call)) } := by
  have found : ltfStateGetCurrentTest r.tick = .ok (test, r.tick.emit [.currentTest]) := At.getCurrent here
  have put := At.put (r := r.tick.emit [.currentTest]) here
  simp only [ltfStateLog, tick_state, stage, found, bind, Except.bind, put, pure, Except.pure]
  by_cases marks : test.status = .running ∧ call.level = .error
  · simp [marks, ltfMarkTestFailed, Runner.current, Runner.tick, Runner.emit]
  · have quiet : (test.status == .running && call.level == .error) = false := by simpa using marks
    simp [marks, quiet, Runner.current, Runner.tick, Runner.emit]

theorem log_hook (stage : r.state.currentStage = .hook) (call : LogCall) :
    ltfStateLog env call r = .ok { r with
      ticks := r.ticks + 1
      trace := r.trace ++ r.state.hookLogCbs.map (.hookLog · (logOutput (env.clock r.ticks) call)) } := by
  simp only [ltfStateLog, tick_state, stage]
  rfl

/-- A log of a test needs a record. -/
theorem log_unrecorded (missing : r.tests.getLast? = none) (stage : r.state.currentStage = .test) (call : LogCall) :
    ltfStateLog env call r = .error .abort := by
  have none_there : r.tick.tests.getLast? = none := missing
  simp only [ltfStateLog, tick_state, stage, ltfStateGetCurrentTest, none_there]
  rfl

theorem log_dropped (stage : r.state.currentStage = .teardown) (call : LogCall) : ltfStateLog env call r = .ok r.tick := by
  simp only [ltfStateLog, tick_state, stage]
  rfl

/-- The runner after code has run whose logs went to the last record. -/
def ran (env : Env) (r : Runner) (earlier : List StateTest) (test : StateTest) (actions : List LuaAction) : Runner :=
  { r with
    state := recorded r.state earlier ((stamped env r.ticks (logCalls actions)).foldl takeLog test)
    testMarkedFailed := r.testMarkedFailed || (test.status == .running && (logCalls actions).any (·.level == .error))
    deferList := extend r.deferList (entries r.nextDefer (registrations actions))
    ticks := r.ticks + (logCalls actions).length
    nextDefer := r.nextDefer + (registrations actions).length
    trace := r.trace ++ actionEvents env r.state.testLogCbs earlier.length r.ticks r.nextDefer actions }

theorem actions_run (here : At r earlier test) (stage : r.state.currentStage = .test) (actions : List LuaAction) :
    actions.foldlM (luaAction env) r = .ok (ran env r earlier test actions) := by
  induction actions generalizing r test with
  | nil =>
    have empty : ran env r earlier test [] = r := by
      simp [ran, logCalls, registrations, stamped, entries, extend, actionEvents, here.same]
    simp [empty, pure, Except.pure]
  | cons action actions ih =>
    rw [List.foldlM_cons, Steps.bind_ok]
    cases action with
    | log call =>
      let test' := takeLog test (logOutput (env.clock r.ticks) call)
      refine ⟨_, log_test env here stage call, (@ih _ test' ?_ ?_).trans ?_⟩
      · simp [At, test']
      · simpa using stage
      simp [ran, test', stamped, actionEvents, Bool.and_or_distrib_left, Bool.or_assoc, Nat.add_comm, Nat.add_left_comm]
    | defer fn args =>
      refine ⟨_, rfl, (ih (r := lModuleLtfDefer fn args r) here stage).trans ?_⟩
      simp [ran, lModuleLtfDefer, Runner.emit, extend_cons, entries, actionEvents, Nat.add_assoc, Nat.add_comm 1]

def counted (state : LtfState) (earlier : List StateTest) (record : StateTest) (passes : Bool) : LtfState :=
  { recorded state earlier record with
    passedAmount := state.passedAmount + (if passes then 1 else 0)
    failedAmount := state.failedAmount + (if passes then 0 else 1)
    finishedAmount := state.finishedAmount + 1 }

def settled (r : Runner) (earlier : List StateTest) (record : StateTest) (passes : Bool) : Runner :=
  { r with
    state := counted r.state earlier record passes
    ticks := r.ticks + 1
    trace := r.trace ++ .currentTest :: r.state.testFinishedCbs.map (.testFinished · earlier.length) }

def passedRecord (env : Env) (r : Runner) (test : StateTest) : StateTest :=
  { test with status := .passed, statusStr := some (.lit "PASSED"), finished := some (env.clock r.ticks) }

theorem passed_test (here : At r earlier test) :
    ltfStateTestPassed env r = .ok (settled r earlier (passedRecord env r test) true) := by
  have found : ltfStateGetCurrentTest r.tick = .ok (test, r.tick.emit [.currentTest]) := At.getCurrent here
  have put := At.put (r := r.tick.emit [.currentTest]) here
  simp only [ltfStateTestPassed, found, bind, Except.bind, put, pure, Except.pure]
  simp [Runner.current, Runner.emit, Runner.tick, recorded, passedRecord, settled, counted]

def failureOutput (env : Env) (r : Runner) (file : Option CStr) (line : Int) (msg : CStr) : TestOutput where
  file := some (file.getD (.lit "unknown"))
  dateTime := some (env.clock r.ticks)
  msg := some msg
  msgLen := msg.bytes.length
  line := line
  level := some .critical

def failedRecord (env : Env) (r : Runner) (file : Option CStr) (line : Int) (msg : Option CStr) (test : StateTest) :
    StateTest :=
  { test with
    finished := some (env.clock r.ticks)
    status := .failed
    statusStr := some (.lit "FAILED")
    failureReasons := match msg with
      | none => test.failureReasons
      | some msg => daAppend test.failureReasons (failureOutput env r file line msg) }

theorem failed_test (here : At r earlier test) (file : Option CStr) (line : Int) (msg : Option CStr) :
    ltfStateTestFailed env file line msg r = .ok (settled r earlier (failedRecord env r file line msg test) false) := by
  have found : ltfStateGetCurrentTest r.tick = .ok (test, r.tick.emit [.currentTest]) := At.getCurrent here
  have tests : r.state.tests = some (earlier ++ [test]) := here
  simp only [ltfStateTestFailed, found, bind, Except.bind, pure, Except.pure]
  cases msg with
  | none =>
    simp [Runner.putCurrent, Runner.current, Runner.emit, Runner.tick, recorded, failedRecord, settled, counted, tests]
  | some msg =>
    simp [Runner.putCurrent, Runner.current, Runner.emit, Runner.tick, recorded, failedRecord, failureOutput, settled,
      counted, tests]

def reportedRecord (env : Env) (tc : TestCase) (r : Runner) (test : StateTest) : StateTest :=
  match tc.body.outcome with
  | .returned => if r.testMarkedFailed then failedRecord env r none 0 none test else passedRecord env r test
  | .failed value =>
    let trace := CStr.ofBytes (ltfErrhandler env value)
    failedRecord env r (some ((traceLocation trace).1.getD (.lit "unknown"))) (traceLocation trace).2 (some trace) test

/-- The verdict: the body returned and nothing has marked the test as failed. -/
def reportPasses (tc : TestCase) (r : Runner) : Bool := !tc.body.fails && !r.testMarkedFailed

theorem body_reported (here : At r earlier test) (tc : TestCase) :
    reportBody env tc r =
      .ok (settled r earlier (reportedRecord env tc r test) (reportPasses tc r), reportPasses tc r) := by
  cases outcome : tc.body.outcome with
  | returned =>
    cases marked : r.testMarkedFailed with
    | true =>
      simp [reportBody, reportedRecord, reportPasses, LuaCode.fails_returned outcome, outcome, marked,
        failed_test env here, bind, Except.bind, pure, Except.pure]
    | false =>
      simp [reportBody, reportedRecord, reportPasses, LuaCode.fails_returned outcome, outcome, marked,
        passed_test env here, bind, Except.bind, pure, Except.pure]
  | failed value =>
    simp [reportBody, reportedRecord, reportPasses, LuaCode.fails_failed outcome, outcome, failed_test env here, bind,
      Except.bind, pure, Except.pure]

theorem reportedRecord_name (env : Env) (tc : TestCase) (r : Runner) (test : StateTest) :
    (reportedRecord env tc r test).name = test.name := by
  cases outcome : tc.body.outcome <;> cases marked : r.testMarkedFailed <;>
    simp [reportedRecord, outcome, marked, passedRecord, failedRecord]

theorem reportedRecord_status (env : Env) (tc : TestCase) (r : Runner) (test : StateTest) :
    (reportedRecord env tc r test).status = if reportPasses tc r then .passed else .failed := by
  cases outcome : tc.body.outcome <;> cases marked : r.testMarkedFailed <;>
    simp [reportedRecord, reportPasses, LuaCode.fails, outcome, marked, passedRecord, failedRecord]

def teardownStatus : TestStatus → TestStatus
  | .failed => .teardownAfterFailed
  | .passed => .teardownAfterPassed
  | status => status

def verdictStatus : TestStatus → TestStatus
  | .teardownAfterFailed => .failed
  | .teardownAfterPassed => .passed
  | status => status

def tearingRecord (env : Env) (r : Runner) (test : StateTest) : StateTest :=
  { test with teardownStart := some (env.clock r.ticks), status := teardownStatus test.status }

def tornRecord (env : Env) (r : Runner) (test : StateTest) : StateTest :=
  { test with teardownEnd := some (env.clock r.ticks), status := verdictStatus test.status }

def enterTeardown (env : Env) (r : Runner) (earlier : List StateTest) (test : StateTest) : Runner :=
  { r with
    state := recorded r.state earlier (tearingRecord env r test)
    ticks := r.ticks + 1
    trace := r.trace ++ .currentTest :: r.state.testTeardownStartedCbs.map (.teardownStarted · earlier.length) }

def leaveTeardown (env : Env) (r : Runner) (earlier : List StateTest) (test : StateTest) : Runner :=
  { r with
    state := recorded r.state earlier (tornRecord env r test)
    ticks := r.ticks + 1
    trace := r.trace ++ .currentTest :: r.state.testTeardownFinishedCbs.map (.teardownFinished · earlier.length) }

theorem queue_started (here : At r earlier test) :
    ltfStateTestDeferQueueStarted env r = .ok (enterTeardown env r earlier test) := by
  have found : ltfStateGetCurrentTest r.tick = .ok (test, r.tick.emit [.currentTest]) := At.getCurrent here
  have put := At.put (r := r.tick.emit [.currentTest]) here
  simp only [ltfStateTestDeferQueueStarted, found, bind, Except.bind, put, pure, Except.pure]
  simp [Runner.current, Runner.emit, Runner.tick, recorded, enterTeardown, tearingRecord]
  cases test.status <;> rfl

theorem queue_finished (here : At r earlier test) :
    ltfStateTestDeferQueueFinished env r = .ok (leaveTeardown env r earlier test) := by
  have found : ltfStateGetCurrentTest r.tick = .ok (test, r.tick.emit [.currentTest]) := At.getCurrent here
  have put := At.put (r := r.tick.emit [.currentTest]) here
  simp only [ltfStateTestDeferQueueFinished, found, bind, Except.bind, put, pure, Except.pure]
  simp [Runner.current, Runner.emit, Runner.tick, recorded, leaveTeardown, tornRecord]
  cases test.status <;> rfl

def deferError (env : Env) (r : Runner) (file : Option CStr) (line : Int) (msg : CStr) : TestOutput where
  file := some (file.getD (.lit "unknown"))
  line := line
  msg := some msg
  msgLen := msg.bytes.length
  dateTime := some (env.clock r.ticks)

theorem defer_failed (here : At r earlier test) (file : Option CStr) (line : Int) (msg : CStr) :
    ltfStateTestDeferFailed env file line msg r = .ok { r with
      state := recorded r.state earlier
        { test with teardownErrors := daAppend test.teardownErrors (deferError env r file line msg) }
      ticks := r.ticks + 1
      trace := r.trace ++ .currentTest ::
        r.state.testDeferFailedCbs.map (.deferFailed · earlier.length (deferError env r file line msg)) } := by
  have found : ltfStateGetCurrentTest r.tick = .ok (test, r.tick.emit [.currentTest]) := At.getCurrent here
  have put := At.put (r := r.tick.emit [.currentTest]) here
  simp only [ltfStateTestDeferFailed, found, bind, Except.bind, put, pure, Except.pure]
  simp [Runner.current, Runner.emit, Runner.tick, recorded, deferError]

end Ltf.Proofs.RunnerSteps
