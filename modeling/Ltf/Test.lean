import Ltf.Hooks

/-! `run_all_tests` and `run_deferred` of `ltf_test.c`. -/

namespace Ltf
open CString

/-- `ltf_errhandler`: the value a failed protected call leaves, always a string. -/
def ltfErrhandler (env : Env) (value : Option (List UInt8)) : List UInt8 :=
  env.traceback (value.getD (CStr.lit "(non-string error)").bytes)

/-- The file and line in front of the second colon of a traceback. -/
def traceLocation (trace : CStr) : Option CStr × Int :=
  match strchr trace.bytes 58 with
  | none => (none, 0)
  | some colon1 =>
    let rest := trace.bytes.drop (colon1 + 1)
    match strchr rest 58 with
    | none => (none, 0)
    | some _ => (some (.strndup trace.bytes colon1), atoi rest)

/-- The arguments a deferred function is called with. Their number is recovered from
the length of the table, and the status is pushed only when there are none. -/
def deferArguments (env : Env) (status : CStr) (entry : DeferEntry) : List LuaValue :=
  let tbl := .object entry.id :: entry.args
  let argcount := env.luaLength.length tbl - 1
  if argcount = 0 then [.string status.bytes] else (List.range argcount).map fun a => tbl.getD (a + 1) .nil

/-- One entry of the queue. The error handler pushed for it is never popped. -/
def runDeferredStep (env : Env) (status : CStr) (entry : DeferEntry) (r : Runner) : Process Runner := do
  let args := deferArguments env status entry
  let code := entry.fn args
  let r := (r.push 2).push (1 + args.length)
  let r ← runLua env code (r.emit [.deferInvoked entry args])
  let r := r.pop (1 + args.length)
  match code.outcome with
  | .returned => return r.pop 1
  | .failed value =>
    let trace := CStr.ofBytes (ltfErrhandler env value)
    let (file, line) := traceLocation trace
    let r ← ltfStateTestDeferFailed env file line trace ((r.push 1).pop 1)
    return r.pop 1

/-- The entries `i, ..., 1` of the list in the registry, which deferred code may
lengthen. An absent entry would be an error outside any protected call. -/
def runDeferredLoop (env : Env) (status : CStr) : Nat → Runner → Process Runner
  | 0, r => return r
  | i + 1, r =>
    match (r.deferList.getD [])[i]? with
    | none => .error .abort
    | some entry => do
      let r ← runDeferredStep env status entry r
      runDeferredLoop env status i r

def runDeferred (env : Env) (status : CStr) (r : Runner) : Process Runner :=
  match r.deferList with
  | none => return r
  | some list => do
    let r ← ltfStateTestDeferQueueStarted env (r.push 1)
    let r ← runDeferredLoop env status list.length r
    let r ← ltfStateTestDeferQueueFinished env r
    return { r with deferList := none }

/-- The start of an iteration, up to the call of the body. -/
def beginTest (env : Env) (tc : TestCase) (r : Runner) : Process Runner :=
  ltfHooksRun env .testStarted (ltfStateTestStarted env tc { r with testMarkedFailed := false })

/-- The protected call of the body, with the error handler below it. -/
def callBody (env : Env) (tc : TestCase) (r : Runner) : Process Runner := do
  let r ← runLua env tc.body (r.push 2)
  return r.pop 2

/-- The verdict on the body: whether it counts as passed. -/
def reportBody (env : Env) (tc : TestCase) (r : Runner) : Process (Runner × Bool) :=
  match tc.body.outcome with
  | .returned => do
    if r.testMarkedFailed then
      let r ← ltfStateTestFailed env none 0 none r
      return (r, false)
    else
      let r ← ltfStateTestPassed env r
      return (r, true)
  | .failed value => do
    let trace := CStr.ofBytes (ltfErrhandler env value)
    let (file, line) := traceLocation trace
    let r ← ltfStateTestFailed env (some (file.getD (.lit "unknown"))) line (some trace) r
    return (r, false)

/-- `rc == LUA_OK ? "passed" : "failed"` -/
def deferStatus (outcome : LuaOutcome) : CStr :=
  match outcome with
  | .returned => .lit "passed"
  | .failed _ => .lit "failed"

/-- The variables of the loop over the tests. -/
structure Loop where
  index : Nat
  passed : Nat
  runner : Runner

def runIteration (env : Env) (loop : Loop) (tc : TestCase) : Process Loop := do
  let r ← beginTest env tc loop.runner
  let r ← callBody env tc r
  let (r, ok) ← reportBody env tc r
  let r ← runDeferred env (deferStatus tc.body.outcome) r
  if env.sigint loop.index then .error (.exit 130)
  else
    let r ← ltfHooksRun env .testFinished r
    return { index := loop.index + 1, passed := loop.passed + (if ok then 1 else 0), runner := r }

def runTests (env : Env) (tests : List TestCase) (loop : Loop) : Process Loop := tests.foldlM (runIteration env) loop

/-- The state in which the loop over the tests starts. -/
def beginRun (env : Env) (r : Runner) : Process Loop := do
  let r ← ltfHooksRun env .testRunStarted (ltfStateTestRunStarted env r)
  return { index := 0, passed := 0, runner := r }

def runAllTests (env : Env) (tests : List TestCase) (r : Runner) : Process (Nat × Runner) := do
  let loop ← beginRun env r
  let loop ← runTests env tests loop
  let r ← ltfHooksRun env .testRunFinished (ltfStateTestRunFinished env loop.runner)
  return (if loop.passed = tests.length then exitSuccess else exitFailure, r)

end Ltf
