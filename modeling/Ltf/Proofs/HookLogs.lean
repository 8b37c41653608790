import Ltf.Proofs.RunnerSteps

/-! Where the logs of hooks go. The first hook of an event runs in the hook stage; every
later one runs in the stage the one before it left behind. -/

namespace Ltf.Proofs.HookLogs
open RunnerSteps

def staged (state : LtfState) (stage : Stage) : LtfState := { state with currentStage := stage }

@[simp] theorem staged_staged (state : LtfState) (first last : Stage) :
    staged (staged state first) last = staged state last := rfl

/-- The traces of a log: its deliveries, and the request for a record to put it in. -/
def logEvent : Event → Bool
  | .currentTest | .testLog .. | .hookLog .. => true
  | _ => false

def delivered (cbs : List Nat) (outputs : List TestOutput) : List Event :=
  outputs.flatMap fun output => cbs.map (.hookLog · output)

/-- Logs were delivered to the hook log callbacks, once and in order, and went nowhere else. -/
structure Contained (env : Env) (r : Runner) (calls : List LogCall) (after : Runner) : Prop where
  state : staged after.state r.state.currentStage = r.state
  marked : after.testMarkedFailed = r.testMarkedFailed
  ticks : after.ticks = r.ticks + calls.length
  trace : ∃ added, after.trace = r.trace ++ added ∧
    added.filter logEvent = delivered r.state.hookLogCbs (stamped env r.ticks calls)

/-- The hooks of an event run to the end and their logs stay out of the test records. -/
def HookLogsContained (env : Env) (fn : HookFn) (r : Runner) : Prop :=
  ∃ after, ltfHooksRun env fn r = .ok after ∧ Contained env r ((hookCalls r.state fn).flatMap LuaCode.logs) after

variable {env : Env} {r middle after : Runner}

theorem stamped_append (env : Env) (tick : Nat) (first rest : List LogCall) :
    stamped env tick (first ++ rest) = stamped env tick first ++ stamped env (tick + first.length) rest := by
  induction first generalizing tick with
  | nil => rfl
  | cons call first ih => simp [stamped, ih, Nat.add_assoc, Nat.add_comm 1]

theorem Contained.cbs {calls : List LogCall} (contained : Contained env r calls after) :
    after.state.hookLogCbs = r.state.hookLogCbs := by
  have cbs : (staged after.state r.state.currentStage).hookLogCbs = r.state.hookLogCbs := by rw [contained.state]
  exact cbs

theorem Contained.trans {first rest : List LogCall} (one : Contained env r first middle)
    (two : Contained env middle rest after) : Contained env r (first ++ rest) after := by
  obtain ⟨added, grown, news⟩ := one.trace
  obtain ⟨more, grown', news'⟩ := two.trace
  refine ⟨?_, two.marked.trans one.marked, ?_, added ++ more, by rw [grown', grown, List.append_assoc], ?_⟩
  · rw [← staged_staged after.state middle.state.currentStage, two.state, one.state]
  · rw [two.ticks, one.ticks, List.length_append, Nat.add_assoc]
  · rw [List.filter_append, news, news', one.cbs, one.ticks, stamped_append]
    simp [delivered]

theorem Contained.quiet {added : List Event} (state : staged after.state r.state.currentStage = r.state)
    (marked : after.testMarkedFailed = r.testMarkedFailed) (ticks : after.ticks = r.ticks)
    (trace : after.trace = r.trace ++ added) (silent : ∀ event ∈ added, logEvent event = false) :
    Contained env r [] after :=
  ⟨state, marked, ticks, added, trace, by simpa [delivered, stamped, List.filter_eq_nil_iff] using silent⟩

variable (env)

theorem action_contained {action : LuaAction} (stage : r.state.currentStage = .hook ∨ logCalls [action] = []) :
    ∃ after, luaAction env r action = .ok after ∧ Contained env r (logCalls [action]) after ∧
      after.state.currentStage = r.state.currentStage := by
  cases action with
  | defer fn args =>
    have trace : (lModuleLtfDefer fn args r).trace = r.trace ++ [.deferRegistered { id := r.nextDefer, fn, args }] :=
      rfl
    refine ⟨_, rfl, .quiet rfl rfl rfl trace ?_, rfl⟩
    simp [logEvent]
  | log call =>
    have hook : r.state.currentStage = .hook := by simpa using stage
    refine ⟨_, log_hook env hook call, ⟨rfl, rfl, rfl, _, rfl, ?_⟩, rfl⟩
    rw [List.filter_eq_self.mpr]
    · simp [delivered, logCalls, stamped]
    · simp [logEvent]

/-- Code that runs in the hook stage, or that does not log, keeps its logs out of the records. -/
theorem actions_contained {actions : List LuaAction} (stage : r.state.currentStage = .hook ∨ logCalls actions = []) :
    ∃ after, actions.foldlM (luaAction env) r = .ok after ∧ Contained env r (logCalls actions) after ∧
      after.state.currentStage = r.state.currentStage := by
  induction actions generalizing r with
  | nil => exact ⟨r, rfl, .quiet rfl rfl rfl (List.append_nil _).symm (by simp), rfl⟩
  | cons action actions ih =>
    have both : logCalls (action :: actions) = logCalls [action] ++ logCalls actions :=
      List.filterMap_append (l := [action])
    rw [both] at stage ⊢
    rw [List.append_eq_nil_iff] at stage
    obtain ⟨middle, first, one, same⟩ := action_contained env (stage.imp_right And.left)
    obtain ⟨after, rest, two, same'⟩ := ih (r := middle) (same ▸ stage.imp_right And.right)
    refine ⟨after, ?_, one.trans two, same'.trans same⟩
    rw [List.foldlM_cons, Steps.bind_ok]
    exact ⟨middle, first, rest⟩

def afterHook (fn : HookFn) (outcome : LuaOutcome) (r : Runner) : Runner :=
  match outcome with
  | .failed err =>
    let r := ((r.pop 2).push 1).emit (r.state.hookFailedCbs.map (.hookFailed · fn err))
    { r with state := staged r.state .test }
  | .returned =>
    let r := (r.pop 2).emit (r.state.hookFinishedCbs.map (.hookFinished · fn))
    { r with state := staged r.state .test }

theorem hook_step_eq (fn : HookFn) (hook : LuaCode) :
    ltfHooksStep env fn r hook =
      runLua env hook ((r.emit (r.state.hookStartedCbs.map (.hookStarted · fn))).push 2) >>=
        fun r => .ok (afterHook fn hook.outcome r) := by
  cases outcome : hook.outcome with
  | returned => simp only [ltfHooksStep, outcome, afterHook]; rfl
  | failed err => simp only [ltfHooksStep, outcome, afterHook]; rfl

theorem afterHook_contained (fn : HookFn) (outcome : LuaOutcome) : Contained env r [] (afterHook fn outcome r) := by
  cases outcome with
  | returned =>
    refine .quiet rfl rfl rfl (show _ = r.trace ++ r.state.hookFinishedCbs.map (.hookFinished · fn) from rfl) ?_
    simp [logEvent]
  | failed err =>
    refine .quiet rfl rfl rfl (show _ = r.trace ++ r.state.hookFailedCbs.map (.hookFailed · fn err) from rfl) ?_
    simp [logEvent]

theorem afterHook_stage (fn : HookFn) (outcome : LuaOutcome) : (afterHook fn outcome r).state.currentStage = .test := by
  cases outcome <;> rfl

/-- A hook keeps its logs out of the records when it is called in the hook stage or does
not log. It leaves the test stage behind. -/
theorem hook_contained (fn : HookFn) {hook : LuaCode} (stage : r.state.currentStage = .hook ∨ hook.logs = []) :
    ∃ after, ltfHooksStep env fn r hook = .ok after ∧ Contained env r hook.logs after ∧
      after.state.currentStage = .test := by
  let started := (r.emit (r.state.hookStartedCbs.map (.hookStarted · fn))).push 2
  have starts : Contained env r [] started := by
    refine .quiet rfl rfl rfl (show _ = r.trace ++ r.state.hookStartedCbs.map (.hookStarted · fn) from rfl) ?_
    simp [logEvent]
  obtain ⟨middle, run, contained, _⟩ := @actions_contained env started hook.actions stage
  refine ⟨afterHook fn hook.outcome middle, ?_, ?_, afterHook_stage fn hook.outcome⟩
  · rw [hook_step_eq, Steps.bind_ok]
    exact ⟨middle, run, rfl⟩
  · simpa [LuaCode.logs] using (starts.trans contained).trans (afterHook_contained env fn hook.outcome)

theorem silent_hooks_contained (fn : HookFn) {hooks : List LuaCode} (stage : r.state.currentStage = .test)
    (silent : ∀ hook ∈ hooks, hook.logs = []) :
    ∃ after, hooks.foldlM (ltfHooksStep env fn) r = .ok after ∧ Contained env r (hooks.flatMap LuaCode.logs) after ∧
      after.state.currentStage = .test := by
  induction hooks generalizing r with
  | nil => exact ⟨r, rfl, .quiet rfl rfl rfl (List.append_nil _).symm (by simp), stage⟩
  | cons hook hooks ih =>
    obtain ⟨middle, first, one, stage'⟩ := hook_contained env (r := r) fn (.inr (silent hook (by simp)))
    obtain ⟨after, rest, two, last⟩ := ih stage' fun hook inside => silent hook (by simp [inside])
    refine ⟨after, ?_, one.trans two, last⟩
    rw [List.foldlM_cons, Steps.bind_ok]
    exact ⟨middle, first, rest⟩

/-- A log in the test stage asks for a record before anything else happens to it. -/
structure Reveals (r : Runner) (calls : List LogCall) (after : Runner) : Prop where
  stage : after.state.currentStage = r.state.currentStage
  trace : ∃ added, after.trace = r.trace ++ added ∧
    (r.state.currentStage = .test → calls ≠ [] → Event.currentTest ∈ added)

omit env in
theorem Reveals.trans {first rest : List LogCall} (one : Reveals r first middle) (two : Reveals middle rest after) :
    Reveals r (first ++ rest) after := by
  obtain ⟨added, grown, asked⟩ := one.trace
  obtain ⟨more, grown', asked'⟩ := two.trace
  refine ⟨two.stage.trans one.stage, added ++ more, by rw [grown', grown, List.append_assoc], ?_⟩
  intro stage logged
  rw [List.mem_append]
  cases first with
  | nil => exact .inr (asked' (one.stage.trans stage) logged)
  | cons call first => exact .inl (asked stage (by simp))

variable {env}

theorem log_reveals {call : LogCall} (ran : ltfStateLog env call r = .ok after) : Reveals r [call] after := by
  cases stage : r.state.currentStage with
  | hook =>
    rw [log_hook env stage call] at ran
    cases ran
    exact ⟨rfl, _, rfl, by simp [stage]⟩
  | teardown =>
    simp only [ltfStateLog, tick_state, stage] at ran
    cases ran
    exact ⟨rfl, [], (List.append_nil _).symm, by simp [stage]⟩
  | test =>
    cases records : r.tests.getLast? with
    | none =>
      have none_left : r.tick.tests.getLast? = none := records
      simp [ltfStateLog, stage, ltfStateGetCurrentTest, none_left, bind, Except.bind] at ran
    | some test =>
      rw [log_test env (At.of_last records) stage call] at ran
      cases ran
      exact ⟨rfl, _, rfl, by simp⟩

theorem actions_reveal {actions : List LuaAction} (ran : actions.foldlM (luaAction env) r = .ok after) :
    Reveals r (logCalls actions) after := by
  induction actions generalizing r with
  | nil =>
    cases ran
    exact ⟨rfl, [], (List.append_nil _).symm, by simp [logCalls]⟩
  | cons action actions ih =>
    rw [List.foldlM_cons, Steps.bind_ok] at ran
    obtain ⟨middle, first, rest⟩ := ran
    cases action with
    | log call => exact (log_reveals first).trans (ih rest)
    | defer fn args =>
      cases first
      have registered : Reveals r [] (lModuleLtfDefer fn args r) := ⟨rfl, _, rfl, by simp⟩
      exact registered.trans (ih rest)

theorem hooks_reveal {fn : HookFn} {hooks : List LuaCode} (stage : r.state.currentStage = .test)
    (ran : hooks.foldlM (ltfHooksStep env fn) r = .ok after) : Reveals r (hooks.flatMap LuaCode.logs) after := by
  induction hooks generalizing r with
  | nil =>
    cases ran
    exact ⟨rfl, [], (List.append_nil _).symm, by simp⟩
  | cons hook hooks ih =>
    rw [List.foldlM_cons, Steps.bind_ok] at ran
    obtain ⟨middle, first, rest⟩ := ran
    rw [hook_step_eq, Steps.bind_ok] at first
    obtain ⟨called, code, last⟩ := first
    obtain rfl : afterHook fn hook.outcome called = middle := by simpa using last
    have starts : Reveals r [] ((r.emit (r.state.hookStartedCbs.map (.hookStarted · fn))).push 2) :=
      ⟨rfl, _, rfl, by simp⟩
    obtain ⟨added, ends, _⟩ := (afterHook_contained env fn hook.outcome (r := called)).trace
    have body : Reveals r hook.logs called := starts.trans (actions_reveal code)
    have finish : Reveals called [] (afterHook fn hook.outcome called) :=
      ⟨(afterHook_stage fn hook.outcome).trans (body.stage.trans stage).symm, added, ends, by simp⟩
    simpa using (body.trans finish).trans (ih (afterHook_stage fn hook.outcome) rest)

/-- The runner in which the first hook of an event is called. -/
def hooksStarted (r : Runner) : Runner := { r with state := staged r.state .hook }

theorem hooks_run_eq {fn : HookFn} {first : LuaCode} {rest : List LuaCode}
    (hooks : hookCalls r.state fn = first :: rest) :
    ltfHooksRun env fn r = (first :: rest).foldlM (ltfHooksStep env fn) (hooksStarted r) := by
  simp [ltfHooksRun, hooks, hooksStarted, staged]

theorem no_hooks_contained {fn : HookFn} (hooks : hookCalls r.state fn = []) : HookLogsContained env fn r := by
  refine ⟨{ r with state := staged r.state .test }, ?_, ?_⟩
  · simp only [ltfHooksRun, hooks, List.length_nil, if_true]
    rfl
  · rw [hooks]
    exact .quiet rfl rfl rfl (List.append_nil _).symm (by simp)

theorem later_hooks_silent {fn : HookFn} {first : LuaCode} {rest : List LuaCode}
    (hooks : hookCalls r.state fn = first :: rest)
    (whole : HookLogsContained env fn r) : rest.flatMap LuaCode.logs = [] := by
  obtain ⟨after, ran, contained⟩ := whole
  obtain ⟨middle, step, one, stage⟩ := @hook_contained env (hooksStarted r) fn first (.inl rfl)
  rw [hooks_run_eq hooks, List.foldlM_cons, Steps.bind_ok] at ran
  obtain ⟨middle', step', ran⟩ := ran
  obtain rfl : middle = middle' := by simpa [step] using step'
  obtain ⟨added, grown, _⟩ := one.trace
  obtain ⟨more, grown', asked⟩ := (hooks_reveal stage ran).trace
  obtain ⟨both, told, news⟩ := contained.trace
  obtain rfl : added ++ more = both := by
    rw [grown', grown, List.append_assoc] at told
    exact List.append_cancel_left told
  -- a log of a later hook asks for a record, and what is contained never does
  by_contra logged
  have request : Event.currentTest ∈ (added ++ more).filter logEvent := by
    simp [logEvent, asked stage logged]
  rw [news] at request
  simp [delivered] at request

theorem later_hooks_contained {fn : HookFn} {first : LuaCode} {rest : List LuaCode}
    (hooks : hookCalls r.state fn = first :: rest)
    (silent : ∀ hook ∈ rest, hook.logs = []) : HookLogsContained env fn r := by
  obtain ⟨middle, step, one, stage⟩ := @hook_contained env (hooksStarted r) fn first (.inl rfl)
  obtain ⟨after, ran, two, last⟩ := silent_hooks_contained env fn stage silent
  refine ⟨after, ?_, ?_⟩
  · rw [hooks_run_eq hooks, List.foldlM_cons, Steps.bind_ok]
    exact ⟨middle, step, ran⟩
  · obtain ⟨same, marked, ticks, trace⟩ := one.trans two
    rw [hooks]
    have restaged : staged (staged after.state .hook) r.state.currentStage =
        staged (staged r.state .hook) r.state.currentStage := congrArg (staged · r.state.currentStage) same
    exact ⟨restaged, marked, ticks, trace⟩

/-- The logs of the hooks of an event stay out of the test records exactly when no hook
but the first makes any: after the first the routing stage is the one of a test. -/
theorem hooks_run_contained_iff (env : Env) (fn : HookFn) (r : Runner) :
    HookLogsContained env fn r ↔ ∀ hook ∈ (hookCalls r.state fn).tail, hook.logs = [] := by
  cases hooks : hookCalls r.state fn with
  | nil => exact iff_of_true (no_hooks_contained hooks) (by simp)
  | cons first rest =>
    rw [List.tail_cons]
    constructor
    · intro contained
      exact List.flatMap_eq_nil_iff.mp (later_hooks_silent hooks contained)
    · intro silent
      exact later_hooks_contained hooks silent

/-- Two hooks are registered for the start of the run and the second one logs. -/
def secondHookLogs : Runner where
  state := {
    tests := some []
    currentStage := .test
    hooksTestRunStarted := [fun _ => .mk [] .returned,
      fun _ => .mk [.log { level := .info, file := none, line := 1, msg := [104, 105] }] .returned] }

theorem second_hook_log_aborts : ¬ HookLogsContained plainEnv .testRunStarted secondHookLogs := by
  intro contained
  obtain ⟨after, ran, _⟩ := contained
  have aborted : ltfHooksRun plainEnv .testRunStarted secondHookLogs = .error .abort := rfl
  rw [aborted] at ran
  cases ran

end Ltf.Proofs.HookLogs
