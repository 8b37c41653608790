import Ltf.Lua

/-! The run state of `ltf_state.h` and the functions of `ltf_state.c` that a test run
drives. The state is threaded together with the globals the runner keeps beside it.
Registered callbacks only observe; a ghost trace records what they are told. -/

namespace Ltf
open CString

/-- A `da_t *` where only the elements matter. `NULL` is `none`. -/
abbrev DaPtr (α : Type) := Option (List α)

def daSize (da : DaPtr α) : Nat := (da.getD []).length

/-- `da_append` does nothing on `NULL`. -/
def daAppend (da : DaPtr α) (item : α) : DaPtr α := da.map (· ++ [item])

/-- `ltf_state_test_output_t` and, as a ghost, the string of the log call it was made for. -/
structure TestOutput where
  file : Option CStr := none
  line : Int := 0
  dateTime : Option CStr := none
  level : Option LogLevel := some .critical
  msg : Option CStr := none
  msgLen : Nat := 0
  logged : Option (List UInt8) := none

/-- `ltf_state_test_status` -/
inductive TestStatus where
  | running
  | teardownAfterFailed
  | teardownAfterPassed
  | failed
  | passed
deriving DecidableEq, Repr

/-- `ltf_state_stage_t` -/
inductive Stage where
  | hook
  | test
  | teardown
deriving DecidableEq, Repr

/-- `keyword_status_t`, once the recorder has handed it over. -/
structure KeywordStatus where
  children : Option (List KeywordStatus) := none
  name : Option CStr := none
  started : Option CStr := none
  finished : Option CStr := none
  ignored : Bool := false
  file : Option CStr := none
  line : Int := 0

/-- `ltf_state_test_t` -/
structure StateTest where
  name : Option CStr := none
  description : Option CStr := none
  started : Option CStr := none
  finished : Option CStr := none
  teardownStart : Option CStr := none
  teardownEnd : Option CStr := none
  status : TestStatus := .running
  statusStr : Option CStr := none
  tags : DaPtr (Option CStr) := none
  failureReasons : DaPtr TestOutput := none
  outputs : DaPtr TestOutput := none
  teardownOutputs : DaPtr TestOutput := none
  teardownErrors : DaPtr TestOutput := none
  keywordStatuses : DaPtr KeywordStatus := none

/-- `ltf_var_entry_t` -/
structure VarEntry where
  name : CStr
  isScalar : Bool := false
  scalar : Option CStr := none
  values : DaPtr CStr := none
  defValue : Option CStr := none
  finalValue : Option CStr := none

/-- `ltf_hook_fn` -/
inductive HookFn where
  | testRunStarted
  | testStarted
  | testFinished
  | testRunFinished
deriving DecidableEq, Repr

/-- The function behind a registered reference. It may do something else each time; a call is
known by the number of records there are, at which an event is raised once at most. -/
abbrev LtfHook := Nat → LuaCode

/-- `ltf_state_t`. Callback lists hold the identities of the registered functions,
hook lists what is behind each registered reference. -/
structure LtfState where
  projectName : Option CStr := none
  ltfVersion : Option CStr := none
  os : Option CStr := none
  osVersion : Option CStr := none
  started : Option CStr := none
  finished : Option CStr := none
  target : Option CStr := none
  totalAmount : Nat := 0
  passedAmount : Nat := 0
  failedAmount : Nat := 0
  finishedAmount : Nat := 0
  vars : DaPtr VarEntry := none
  tags : DaPtr (Option CStr) := none
  tests : DaPtr StateTest := none
  hooksTestRunStarted : List LtfHook := []
  hooksTestStarted : List LtfHook := []
  hooksTestFinished : List LtfHook := []
  hooksTestRunFinished : List LtfHook := []
  currentStage : Stage := .hook
  hookStartedCbs : List Nat := []
  hookFinishedCbs : List Nat := []
  hookFailedCbs : List Nat := []
  hookLogCbs : List Nat := []
  testRunStartedCbs : List Nat := []
  testRunFinishedCbs : List Nat := []
  testStartedCbs : List Nat := []
  testFinishedCbs : List Nat := []
  testLogCbs : List Nat := []
  testTeardownStartedCbs : List Nat := []
  testTeardownFinishedCbs : List Nat := []
  testDeferFailedCbs : List Nat := []

/-- `test_case_t`. The reference to the body is the code it refers to. -/
structure TestCase where
  name : CStr
  desc : Option CStr := none
  tags : DaPtr CStr := none
  body : LuaCode

/-- A table in the defer list: the function and its arguments at `1, 2, ...`. The
identity is a ghost that tells registrations of one function apart. -/
structure DeferEntry where
  id : Nat
  fn : List LuaValue → LuaCode
  args : List LuaValue

/-- What the run does that can be seen from outside the state. A record is known by
its position, which is what the pointer handed to a callback identifies. -/
inductive Event where
  | testRunStarted (cb : Nat)
  | testRunFinished (cb : Nat)
  | testStarted (cb record : Nat)
  | testFinished (cb record : Nat)
  | teardownStarted (cb record : Nat)
  | teardownFinished (cb record : Nat)
  | deferFailed (cb record : Nat) (output : TestOutput)
  | testLog (cb record : Nat) (output : TestOutput)
  | hookStarted (cb : Nat) (fn : HookFn)
  | hookFinished (cb : Nat) (fn : HookFn)
  | hookFailed (cb : Nat) (fn : HookFn) (err : Option (List UInt8))
  | hookLog (cb : Nat) (output : TestOutput)
  /-- `ltf_state_get_current_test` was asked for a record. -/
  | currentTest
  | deferRegistered (entry : DeferEntry)
  | deferInvoked (entry : DeferEntry) (args : List LuaValue)

/-- The choices of the surroundings: what each look at the clock shows, the length
of tables with holes, the traceback Lua adds to an error, and whether `SIGINT` has
arrived when the loop looks for it after a test. -/
structure Env where
  clock : Nat → CStr
  luaLength : LuaLength
  traceback : List UInt8 → List UInt8
  sigint : Nat → Bool

/-- The run state, the globals of `ltf_test.c` and the part of the Lua state LTF uses:
the defer list of the registry and the height of the stack. -/
@[ext]
structure Runner where
  state : LtfState
  testMarkedFailed : Bool := false
  deferList : Option (List DeferEntry) := none
  luaTop : Nat := 0
  ticks : Nat := 0
  nextDefer : Nat := 0
  trace : List Event := []

/-- How the process ends early: a failed assertion or `exit`. -/
inductive Stop where
  | abort
  | exit (code : Nat)
deriving DecidableEq, Repr

abbrev Process := Except Stop

def exitSuccess : Nat := 0

def exitFailure : Nat := 1

namespace Runner

def tests (r : Runner) : List StateTest := r.state.tests.getD []

def emit (r : Runner) (events : List Event) : Runner := { r with trace := r.trace ++ events }

/-- `get_date_time_now` was called. -/
def tick (r : Runner) : Runner := { r with ticks := r.ticks + 1 }

def push (r : Runner) (slots : Nat) : Runner := { r with luaTop := r.luaTop + slots }

def pop (r : Runner) (slots : Nat) : Runner := { r with luaTop := r.luaTop - slots }

/-- The current record is replaced through the pointer to it. -/
def putCurrent (r : Runner) (test : StateTest) : Runner :=
  { r with state.tests := r.state.tests.map (·.dropLast ++ [test]) }

def current (r : Runner) : Nat := daSize r.state.tests - 1

end Runner

def ltfStateTestStarted (env : Env) (testCase : TestCase) (r : Runner) : Runner :=
  let test : StateTest := {
    started := some (env.clock r.ticks)
    name := some testCase.name
    description := testCase.desc
    status := .running
    tags := some ((testCase.tags.getD []).map some)
    outputs := some []
    failureReasons := some []
    teardownOutputs := some []
    teardownErrors := some [] }
  let r := { r.tick with state.tests := daAppend r.state.tests test }
  r.emit (r.state.testStartedCbs.map (.testStarted · r.current))

/-- `assert(tests_count != 0)` guards the pointer to the last record. -/
def ltfStateGetCurrentTest (r : Runner) : Process (StateTest × Runner) :=
  match r.tests.getLast? with
  | none => .error .abort
  | some test => .ok (test, r.emit [.currentTest])

def ltfMarkTestFailed (r : Runner) : Runner := { r with testMarkedFailed := true }

/-- The record `ltf_state_log` builds for a message. -/
def logOutput (time : CStr) (call : LogCall) : TestOutput where
  file := some (call.file.getD (.lit "unknown"))
  line := call.line
  level := some call.level
  dateTime := some time
  msg := some (.strndup call.msg call.msg.length)
  msgLen := call.msg.length
  logged := some call.msg

/-- The switch of `ltf_state_log`: the status of the record decides where a log goes. -/
def takeLog (test : StateTest) (o : TestOutput) : StateTest :=
  match test.status with
  | .running =>
    { test with
      outputs := daAppend test.outputs o
      failureReasons := if o.level = some .error then daAppend test.failureReasons o else test.failureReasons }
  | .teardownAfterPassed | .teardownAfterFailed => { test with teardownOutputs := daAppend test.teardownOutputs o }
  | .failed | .passed => test

def ltfStateLog (env : Env) (call : LogCall) (r : Runner) : Process Runner :=
  let o := logOutput (env.clock r.ticks) call
  let r := r.tick
  match r.state.currentStage with
  | .test => do
    let (test, r) ← ltfStateGetCurrentTest r
    let r := r.putCurrent (takeLog test o)
    let r := if test.status = .running ∧ call.level = .error then ltfMarkTestFailed r else r
    return r.emit (r.state.testLogCbs.map (.testLog · r.current o))
  | .hook => return r.emit (r.state.hookLogCbs.map (.hookLog · o))
  | .teardown => return r

def ltfStateTestDeferQueueStarted (env : Env) (r : Runner) : Process Runner := do
  let time := env.clock r.ticks
  let (test, r) ← ltfStateGetCurrentTest r.tick
  let status := match test.status with
    | .failed => .teardownAfterFailed
    | .passed => .teardownAfterPassed
    | status => status
  let r := r.putCurrent { test with teardownStart := some time, status }
  return r.emit (r.state.testTeardownStartedCbs.map (.teardownStarted · r.current))

/-- No level is given, so the record has level `0`, which is `CRITICAL`. -/
def ltfStateTestDeferFailed (env : Env) (file : Option CStr) (line : Int) (msg : CStr) (r : Runner) :
    Process Runner := do
  let o : TestOutput := {
    file := some (file.getD (.lit "unknown"))
    line
    msg := some msg
    msgLen := msg.bytes.length
    dateTime := some (env.clock r.ticks) }
  let (test, r) ← ltfStateGetCurrentTest r.tick
  let r := r.putCurrent { test with teardownErrors := daAppend test.teardownErrors o }
  return r.emit (r.state.testDeferFailedCbs.map (.deferFailed · r.current o))

def ltfStateTestDeferQueueFinished (env : Env) (r : Runner) : Process Runner := do
  let time := env.clock r.ticks
  let (test, r) ← ltfStateGetCurrentTest r.tick
  let status := match test.status with
    | .teardownAfterFailed => .failed
    | .teardownAfterPassed => .passed
    | status => status
  let r := r.putCurrent { test with teardownEnd := some time, status }
  return r.emit (r.state.testTeardownFinishedCbs.map (.teardownFinished · r.current))

def ltfStateTestPassed (env : Env) (r : Runner) : Process Runner := do
  let time := env.clock r.ticks
  let (test, r) ← ltfStateGetCurrentTest r.tick
  let r := r.putCurrent { test with status := .passed, statusStr := some (.lit "PASSED"), finished := some time }
  let r := { r with
    state.passedAmount := r.state.passedAmount + 1
    state.finishedAmount := r.state.finishedAmount + 1 }
  return r.emit (r.state.testFinishedCbs.map (.testFinished · r.current))

def ltfStateTestFailed (env : Env) (file : Option CStr) (line : Int) (msg : Option CStr) (r : Runner) :
    Process Runner := do
  let time := env.clock r.ticks
  let (test, r) ← ltfStateGetCurrentTest r.tick
  let test := { test with finished := some time, status := .failed, statusStr := some (.lit "FAILED") }
  let r := { r with
    state.finishedAmount := r.state.finishedAmount + 1
    state.failedAmount := r.state.failedAmount + 1 }
  let r := match msg with
    | none => r.putCurrent test
    | some msg =>
      let o : TestOutput := {
        file := some (file.getD (.lit "unknown"))
        dateTime := some time
        msg := some msg
        msgLen := msg.bytes.length
        line
        level := some .critical }
      r.putCurrent { test with failureReasons := daAppend test.failureReasons o }
  return r.emit (r.state.testFinishedCbs.map (.testFinished · r.current))

def ltfStateTestRunStarted (env : Env) (r : Runner) : Runner :=
  let r := { r.tick with state.started := some (env.clock r.ticks) }
  r.emit (r.state.testRunStartedCbs.map .testRunStarted)

def ltfStateTestRunFinished (env : Env) (r : Runner) : Runner :=
  let r := { r.tick with state.finished := some (env.clock r.ticks) }
  r.emit (r.state.testRunFinishedCbs.map .testRunFinished)

/-- `ltf_state_new`, from the project name, the options it reads, the version of LTF
and the host. The tests are registered later, so none is counted yet. -/
def ltfStateNew (projectName ltfVersion os osVersion : CStr) (target : Option CStr) (tags : List CStr) (amount : Nat) :
    LtfState where
  projectName := some projectName
  tests := some []
  totalAmount := amount
  tags := some (tags.map some)
  currentStage := .test
  ltfVersion := some ltfVersion
  target := target
  os := some os
  osVersion := some osVersion

end Ltf
