import Ltf.LtfModule

/-! `ltf_hooks_run` of `ltf_hooks.c`. The stage that routes a log is set before the
loop over the hooks and set back inside it. -/

namespace Ltf

def ltfGetHooks (state : LtfState) : HookFn → List LtfHook
  | .testRunStarted => state.hooksTestRunStarted
  | .testStarted => state.hooksTestStarted
  | .testFinished => state.hooksTestFinished
  | .testRunFinished => state.hooksTestRunFinished

/-- What hooks do when their event is raised beside this number of records. -/
def callsAt (hooks : List LtfHook) (records : Nat) : List LuaCode := hooks.map (· records)

def hookCalls (state : LtfState) (fn : HookFn) : List LuaCode :=
  callsAt (ltfGetHooks state fn) (state.tests.getD []).length

/-- The loop body. The function and its context are on the stack during the call;
an error message is left there. -/
def ltfHooksStep (env : Env) (fn : HookFn) (r : Runner) (hook : LuaCode) : Process Runner := do
  let r := r.emit (r.state.hookStartedCbs.map (.hookStarted · fn))
  let r ← runLua env hook (r.push 2)
  let r := r.pop 2
  match hook.outcome with
  | .failed err =>
    let r := (r.push 1).emit (r.state.hookFailedCbs.map (.hookFailed · fn err))
    return { r with state.currentStage := .test }
  | .returned =>
    let r := r.emit (r.state.hookFinishedCbs.map (.hookFinished · fn))
    return { r with state.currentStage := .test }

def ltfHooksRun (env : Env) (fn : HookFn) (r : Runner) : Process Runner :=
  let hooks := hookCalls r.state fn
  let r := { r with state.currentStage := .hook }
  if hooks.length = 0 then return { r with state.currentStage := .test }
  else hooks.foldlM (ltfHooksStep env fn) r

end Ltf
