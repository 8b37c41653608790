import Ltf.Proofs.HookLogs
import Ltf.Proofs.TestRun

/-! The height of the Lua stack during a run: what each part of the runner leaves on the
stack, and when all of them leave nothing. -/

namespace Ltf.Proofs.StackHeights
open RunnerSteps HookLogs

/-- What a part of the runner leaves on the stack, and how much it registers. -/
structure Leaves (r : Runner) (slots defers : Nat) (after : Runner) : Prop where
  top : after.luaTop = r.luaTop + slots
  list : ∃ added, after.deferList = extend r.deferList added ∧ added.length = defers
  count : after.tests.length = r.tests.length
  hooks : ltfGetHooks after.state = ltfGetHooks r.state

theorem extend_extend (list : Option (List DeferEntry)) (first rest : List DeferEntry) :
    extend (extend list first) rest = extend list (first ++ rest) := by
  cases first with
  | nil => simp [extend]
  | cons entry first => cases rest <;> simp [extend]

theorem extend_none {list : Option (List DeferEntry)} {added : List DeferEntry} :
    extend list added = none ↔ list = none ∧ added = [] := by
  cases added <;> simp [extend]

variable {env : Env} {r middle after : Runner} {slots more defers others : Nat}

theorem Leaves.refl : Leaves r 0 0 r := ⟨rfl, ⟨[], rfl, rfl⟩, rfl, rfl⟩

theorem Leaves.trans (one : Leaves r slots defers middle) (two : Leaves middle more others after) :
    Leaves r (slots + more) (defers + others) after := by
  obtain ⟨added, grown, count⟩ := one.list
  obtain ⟨later, grown', count'⟩ := two.list
  refine ⟨?_, ⟨added ++ later, ?_, ?_⟩, two.count.trans one.count, two.hooks.trans one.hooks⟩
  · rw [two.top, one.top, Nat.add_assoc]
  · rw [grown', grown, extend_extend]
  · rw [List.length_append, count, count']

theorem Leaves.pending (leaves : Leaves r slots defers after) :
    after.deferList = none ↔ r.deferList = none ∧ defers = 0 := by
  obtain ⟨added, grown, count⟩ := leaves.list
  rw [grown, extend_none, ← count, List.length_eq_zero_iff]

theorem Leaves.longer (leaves : Leaves r slots defers after) :
    (r.deferList.getD []).length ≤ (after.deferList.getD []).length := by
  obtain ⟨added, grown, _⟩ := leaves.list
  rw [grown, extend_getD, List.length_append]
  omega

theorem Leaves.same (leaves : Leaves r slots 0 after) : after.deferList = r.deferList := by
  obtain ⟨added, grown, empty⟩ := leaves.list
  rw [grown, List.length_eq_zero_iff.mp empty]
  rfl

theorem Leaves.records (leaves : Leaves r slots defers after) : after.tests = [] ↔ r.tests = [] := by
  rw [← List.length_eq_zero_iff, ← List.length_eq_zero_iff, leaves.count]

/-- As long as no record is added, the hooks of an event do the same. -/
theorem calls_eq (hooks : ltfGetHooks after.state = ltfGetHooks r.state) (count : after.tests.length = r.tests.length)
    (fn : HookFn) : hookCalls after.state fn = hookCalls r.state fn := by
  have same : (after.state.tests.getD []).length = (r.state.tests.getD []).length := count
  rw [hookCalls, hookCalls, hooks, same]

theorem Leaves.found (leaves : Leaves r slots defers after) (found : r.tests ≠ []) : after.tests ≠ [] := by
  rwa [ne_eq, leaves.records]

/-- A state function that works on the current record: without one the process ends. -/
structure Asks (r : Runner) (program : Process Runner) : Prop where
  absent : r.tests = [] → program = .error .abort
  found : r.tests ≠ [] → ∃ after, program = .ok after ∧ Leaves r 0 0 after ∧
    after.state.currentStage = r.state.currentStage

theorem no_record (empty : r.tests = []) : ltfStateGetCurrentTest r.tick = .error .abort := by
  have last : r.tick.tests.getLast? = none := by
    show r.tests.getLast? = none
    rw [empty]
    rfl
  simp [ltfStateGetCurrentTest, last]

theorem leaves_record {earlier : List StateTest} {test record : StateTest} (here : At r earlier test)
    (state : after.state.tests = some (earlier ++ [record])) (top : after.luaTop = r.luaTop)
    (list : after.deferList = r.deferList) (hooks : ltfGetHooks after.state = ltfGetHooks r.state) :
    Leaves r 0 0 after := by
  refine ⟨top, ⟨[], list, rfl⟩, ?_, hooks⟩
  simp [Runner.tests, state, here.tests]

theorem has_record (found : r.tests ≠ []) : ∃ earlier test, At r earlier test :=
  ⟨_, _, At.of_last (List.getLast?_eq_some_getLast found)⟩

theorem Asks.of {program : Process Runner} {next : StateTest × Runner → Process Runner}
    (asks : program = ltfStateGetCurrentTest r.tick >>= next)
    (works : ∀ earlier test, At r earlier test → ∃ after, program = .ok after ∧ Leaves r 0 0 after ∧
      after.state.currentStage = r.state.currentStage) : Asks r program := by
  constructor
  · intro empty
    rw [asks, Steps.bind_of_error (no_record empty)]
  · intro found
    obtain ⟨earlier, test, here⟩ := has_record found
    exact works earlier test here

variable (env) in
theorem log_asks (stage : r.state.currentStage = .test) (call : LogCall) : Asks r (ltfStateLog env call r) := by
  constructor
  · intro empty
    simp [ltfStateLog, stage, no_record empty, bind, Except.bind]
  · intro found
    obtain ⟨earlier, test, here⟩ := has_record found
    exact ⟨_, log_test env here stage call, leaves_record here rfl rfl rfl rfl, rfl⟩

variable (env) in
theorem queue_started_asks : Asks r (ltfStateTestDeferQueueStarted env r) := by
  apply Asks.of rfl
  intro earlier test here
  exact ⟨_, queue_started env here, leaves_record here rfl rfl rfl rfl, rfl⟩

variable (env) in
theorem queue_finished_asks : Asks r (ltfStateTestDeferQueueFinished env r) := by
  apply Asks.of rfl
  intro earlier test here
  exact ⟨_, queue_finished env here, leaves_record here rfl rfl rfl rfl, rfl⟩

variable (env) in
theorem defer_failed_asks (file : Option CString.CStr) (line : Int) (msg : CString.CStr) :
    Asks r (ltfStateTestDeferFailed env file line msg r) := by
  apply Asks.of rfl
  intro earlier test here
  exact ⟨_, defer_failed env here file line msg, leaves_record here rfl rfl rfl rfl, rfl⟩

variable (env) in
theorem passed_asks : Asks r (ltfStateTestPassed env r) := by
  apply Asks.of rfl
  intro earlier test here
  exact ⟨_, passed_test env here, leaves_record here rfl rfl rfl rfl, rfl⟩

variable (env) in
theorem failed_asks (file : Option CString.CStr) (line : Int) (msg : Option CString.CStr) :
    Asks r (ltfStateTestFailed env file line msg r) := by
  apply Asks.of rfl
  intro earlier test here
  exact ⟨_, failed_test env here file line msg, leaves_record here rfl rfl rfl rfl, rfl⟩

/-- A log finds its place: in the stage of a test that takes a record. -/
def CanLog (r : Runner) : Prop := r.state.currentStage = .test → r.tests ≠ []

theorem log_leaves {call : LogCall} (ran : ltfStateLog env call r = .ok after) :
    CanLog r ∧ Leaves r 0 0 after ∧ after.state.currentStage = r.state.currentStage := by
  cases stage : r.state.currentStage with
  | hook =>
    rw [log_hook env stage call] at ran
    cases ran
    exact ⟨by simp [CanLog, stage], ⟨rfl, ⟨[], rfl, rfl⟩, rfl, rfl⟩, stage⟩
  | teardown =>
    simp only [ltfStateLog, tick_state, stage] at ran
    cases ran
    exact ⟨by simp [CanLog, stage], ⟨rfl, ⟨[], rfl, rfl⟩, rfl, rfl⟩, stage⟩
  | test =>
    have asks := log_asks env stage call
    by_cases empty : r.tests = []
    · rw [asks.absent empty] at ran
      cases ran
    · obtain ⟨found, ran', leaves, same⟩ := asks.found empty
      obtain rfl : found = after := by simpa [ran'] using ran
      exact ⟨fun _ => empty, leaves, same.trans stage⟩

variable (env) in
theorem log_ends (free : CanLog r) (call : LogCall) : ∃ after, ltfStateLog env call r = .ok after := by
  cases stage : r.state.currentStage with
  | hook => exact ⟨_, log_hook env stage call⟩
  | teardown => exact ⟨r.tick, by simp only [ltfStateLog, tick_state, stage]; rfl⟩
  | test =>
    obtain ⟨after, ran, _⟩ := (log_asks env stage call).found (free stage)
    exact ⟨after, ran⟩

theorem CanLog.of_leaves (leaves : Leaves r slots defers after)
    (stage : after.state.currentStage = r.state.currentStage) : CanLog after ↔ CanLog r := by
  simp only [CanLog, stage, ne_eq, leaves.records]

theorem actions_leave {actions : List LuaAction} (ran : actions.foldlM (luaAction env) r = .ok after) :
    (CanLog r ∨ logCalls actions = []) ∧ Leaves r 0 (registrations actions).length after ∧
      after.state.currentStage = r.state.currentStage := by
  induction actions generalizing r with
  | nil =>
    cases ran
    exact ⟨.inr rfl, .refl, rfl⟩
  | cons action actions ih =>
    rw [List.foldlM_cons, Steps.bind_ok] at ran
    obtain ⟨middle, first, rest⟩ := ran
    obtain ⟨free, leaves, stage⟩ := ih rest
    cases action with
    | log call =>
      obtain ⟨once, logged, same⟩ := log_leaves first
      refine ⟨.inl once, ?_, stage.trans same⟩
      simpa using logged.trans leaves
    | defer fn args =>
      cases first
      have registered : Leaves r 0 1 (lModuleLtfDefer fn args r) := by
        refine ⟨rfl, ⟨[{ id := r.nextDefer, fn, args }], ?_, rfl⟩, rfl, rfl⟩
        simp [lModuleLtfDefer, extend, Runner.emit]
      have same : (lModuleLtfDefer fn args r).state.currentStage = r.state.currentStage := rfl
      refine ⟨?_, ?_, stage.trans same⟩
      · simpa [CanLog.of_leaves registered same] using free
      · have both := registered.trans leaves
        rwa [Nat.add_comm 1] at both

variable (env) in
theorem actions_end {actions : List LuaAction} (free : CanLog r ∨ logCalls actions = []) :
    ∃ after, actions.foldlM (luaAction env) r = .ok after := by
  induction actions generalizing r with
  | nil => exact ⟨r, rfl⟩
  | cons action actions ih =>
    cases action with
    | log call =>
      have can : CanLog r := by simpa using free
      obtain ⟨middle, first⟩ := log_ends env can call
      obtain ⟨_, logged, same⟩ := log_leaves first
      obtain ⟨after, rest⟩ := ih (.inl ((CanLog.of_leaves logged same).mpr can))
      refine ⟨after, ?_⟩
      rw [List.foldlM_cons, Steps.bind_ok]
      exact ⟨middle, first, rest⟩
    | defer fn args =>
      obtain ⟨after, rest⟩ := ih (r := lModuleLtfDefer fn args r) free
      refine ⟨after, ?_⟩
      rw [List.foldlM_cons, Steps.bind_ok]
      exact ⟨_, rfl, rest⟩

theorem hook_leaves {fn : HookFn} {hook : LuaCode} (ran : ltfHooksStep env fn r hook = .ok after) :
    (CanLog r ∨ hook.logs = []) ∧ Leaves r (if hook.fails then 1 else 0) hook.defers.length after ∧
      after.state.currentStage = .test := by
  rw [hook_step_eq, Steps.bind_ok] at ran
  obtain ⟨called, code, last⟩ := ran
  obtain rfl : afterHook fn hook.outcome called = after := by simpa using last
  obtain ⟨free, leaves, _⟩ := actions_leave code
  have top : called.luaTop = r.luaTop + 2 := leaves.top
  have settled : (afterHook fn hook.outcome called).luaTop = r.luaTop + if hook.fails then 1 else 0 := by
    cases outcome : hook.outcome with
    | returned => simp [afterHook, Runner.pop, Runner.emit, top, LuaCode.fails_returned outcome]
    | failed err => simp [afterHook, Runner.pop, Runner.push, Runner.emit, top, LuaCode.fails_failed outcome]
  refine ⟨free, ⟨settled, ?_, ?_, ?_⟩, afterHook_stage fn hook.outcome⟩
  · cases hook.outcome <;> exact leaves.list
  · cases hook.outcome <;> exact leaves.count
  · cases hook.outcome <;> exact leaves.hooks

variable (env) in
theorem hook_ends (fn : HookFn) {hook : LuaCode} (free : CanLog r ∨ hook.logs = []) :
    ∃ after, ltfHooksStep env fn r hook = .ok after := by
  obtain ⟨called, code⟩ := actions_end env
    (r := (r.emit (r.state.hookStartedCbs.map (.hookStarted · fn))).push 2) free
  exact ⟨_, by rw [hook_step_eq]; exact Steps.bind_of_ok code⟩

/-- The slots the hooks of an event leave: one for each that fails. -/
def failures (hooks : List LuaCode) : Nat := hooks.countP (·.fails)

def registered (hooks : List LuaCode) : Nat := (hooks.flatMap LuaCode.defers).length

theorem hooks_leave {fn : HookFn} {hooks : List LuaCode} (ran : hooks.foldlM (ltfHooksStep env fn) r = .ok after) :
    Leaves r (failures hooks) (registered hooks) after := by
  induction hooks generalizing r with
  | nil =>
    cases ran
    exact .refl
  | cons hook hooks ih =>
    rw [List.foldlM_cons, Steps.bind_ok] at ran
    obtain ⟨middle, first, rest⟩ := ran
    obtain ⟨_, one, _⟩ := hook_leaves first
    have all := one.trans (ih rest)
    have slots : failures (hook :: hooks) = (if hook.fails then 1 else 0) + failures hooks := by
      rw [failures, failures, List.countP_cons, Nat.add_comm]
    have defers : registered (hook :: hooks) = hook.defers.length + registered hooks := by simp [registered]
    rwa [slots, defers]

/-- From the second hook on the stage is the one of a test. -/
theorem hooks_end_iff {fn : HookFn} {hooks : List LuaCode} (stage : r.state.currentStage = .test) :
    (∃ after, hooks.foldlM (ltfHooksStep env fn) r = .ok after) ↔ r.tests ≠ [] ∨ ∀ hook ∈ hooks, hook.logs = [] := by
  induction hooks generalizing r with
  | nil => simp [pure, Except.pure]
  | cons hook hooks ih =>
    have can : CanLog r ↔ r.tests ≠ [] := by simp [CanLog, stage]
    constructor
    · intro ends
      obtain ⟨after, ran⟩ := ends
      rw [List.foldlM_cons, Steps.bind_ok] at ran
      obtain ⟨middle, first, rest⟩ := ran
      obtain ⟨free, one, next⟩ := hook_leaves first
      have others := (ih next).mp ⟨after, rest⟩
      rw [ne_eq, one.records] at others
      by_cases empty : r.tests = []
      · simp_all
      · exact .inl empty
    · intro free
      have now : CanLog r ∨ hook.logs = [] := by
        rw [can]
        exact free.imp_right fun silent => silent hook (by simp)
      obtain ⟨middle, first⟩ := hook_ends env fn now
      obtain ⟨_, one, next⟩ := hook_leaves first
      have later : middle.tests ≠ [] ∨ ∀ hook ∈ hooks, hook.logs = [] := by
        rw [ne_eq, one.records]
        exact free.imp_right fun silent other inside => silent other (by simp [inside])
      obtain ⟨after, rest⟩ := (ih next).mpr later
      refine ⟨after, ?_⟩
      rw [List.foldlM_cons, Steps.bind_ok]
      exact ⟨middle, first, rest⟩

theorem hooks_run_leaves {fn : HookFn} (ran : ltfHooksRun env fn r = .ok after) :
    Leaves r (failures (hookCalls r.state fn)) (registered (hookCalls r.state fn)) after := by
  cases hooks : hookCalls r.state fn with
  | nil =>
    simp only [ltfHooksRun, hooks, List.length_nil, if_true] at ran
    cases ran
    exact ⟨rfl, ⟨[], rfl, rfl⟩, rfl, rfl⟩
  | cons first rest =>
    rw [hooks_run_eq hooks] at ran
    have left := hooks_leave ran
    exact ⟨left.top, left.list, left.count, left.hooks⟩

variable (env) in
theorem hooks_run_end_iff (fn : HookFn) :
    (∃ after, ltfHooksRun env fn r = .ok after) ↔
      r.tests ≠ [] ∨ ∀ hook ∈ (hookCalls r.state fn).tail, hook.logs = [] := by
  cases hooks : hookCalls r.state fn with
  | nil =>
    have done : ltfHooksRun env fn r = .ok { r with state := staged r.state .test } := by
      simp only [ltfHooksRun, hooks, List.length_nil, if_true]
      rfl
    exact iff_of_true ⟨_, done⟩ (by simp)
  | cons first rest =>
    have opened : CanLog (hooksStarted r) ∨ first.logs = [] := .inl (by simp [CanLog, hooksStarted, staged])
    obtain ⟨middle, called⟩ := hook_ends env fn opened
    obtain ⟨_, one, stage⟩ := hook_leaves called
    rw [hooks_run_eq hooks, List.foldlM_cons, Steps.bind_of_ok called, hooks_end_iff stage, ne_eq, one.records]
    rfl

variable (env) in
/-- The error handler of every entry stays below what comes after it. -/
theorem deferred_step_leaves (status : CString.CStr) (entry : DeferEntry) (found : r.tests ≠ []) :
    ∃ after defers, runDeferredStep env status entry r = .ok after ∧ Leaves r 1 defers after := by
  have free : CanLog (Teardown.called env status entry r) := fun _ => found
  obtain ⟨left, code⟩ := actions_end env (.inl free)
  obtain ⟨_, leaves, _⟩ := actions_leave code
  have ran : runLua env (Teardown.calledCode env status entry) (Teardown.called env status entry r) = .ok left := code
  have top : left.luaTop = r.luaTop + 2 + (1 + (deferArguments env status entry).length) := leaves.top
  have kept : left.tests.length = r.tests.length := leaves.count
  have records : left.tests = [] ↔ r.tests = [] := leaves.records
  rw [Teardown.step_eq, Steps.bind_of_ok ran]
  cases (Teardown.calledCode env status entry).outcome with
  | returned =>
    refine ⟨_, _, rfl, ?_, leaves.list, kept, leaves.hooks⟩
    simp only [Runner.pop, top]
    omega
  | failed value =>
    let trace := CString.CStr.ofBytes (ltfErrhandler env value)
    let popped := ((left.pop (1 + (deferArguments env status entry).length)).push 1).pop 1
    have asks : Asks popped _ :=
      defer_failed_asks env (Ltf.traceLocation trace).1 (Ltf.traceLocation trace).2 trace
    obtain ⟨noted, told, quiet, _⟩ := asks.found (by rwa [ne_eq, ← records] at found)
    obtain ⟨added, grown, count⟩ := leaves.list
    refine ⟨noted.pop 1, _, Steps.bind_of_ok told, ?_, ⟨added, quiet.same.trans grown, count⟩, ?_, ?_⟩
    · have below : noted.luaTop = popped.luaTop := quiet.top
      simp only [Runner.pop, Runner.push, below, popped, top]
      omega
    · exact quiet.count.trans kept
    · exact quiet.hooks.trans leaves.hooks

variable (env) in
theorem deferred_loop_leaves (status : CString.CStr) (i : Nat) (found : r.tests ≠ [])
    (bound : i ≤ (r.deferList.getD []).length) :
    ∃ after defers, runDeferredLoop env status i r = .ok after ∧ Leaves r i defers after := by
  induction i generalizing r with
  | zero => exact ⟨r, 0, rfl, .refl⟩
  | succ i ih =>
    have inside : i < (r.deferList.getD []).length := bound
    obtain ⟨middle, defers, step, one⟩ := deferred_step_leaves env status (r.deferList.getD [])[i] found
    have short : i ≤ (middle.deferList.getD []).length := by
      have longer := one.longer
      omega
    obtain ⟨after, others, loop, rest⟩ := ih (one.found found) short
    refine ⟨after, defers + others, ?_, ?_⟩
    · rw [runDeferredLoop, List.getElem?_eq_getElem inside, Steps.bind_ok]
      exact ⟨middle, step, loop⟩
    · have both := one.trans rest
      rwa [Nat.add_comm 1] at both

/-- The slots a queue leaves: the list and an error handler for each entry. -/
def queueSlots : Option (List DeferEntry) → Nat
  | none => 0
  | some list => list.length + 1

theorem queueSlots_zero {list : Option (List DeferEntry)} : queueSlots list = 0 ↔ list = none := by
  cases list <;> simp [queueSlots]

structure Served (r after : Runner) : Prop where
  top : after.luaTop = r.luaTop + queueSlots r.deferList
  list : after.deferList = none
  count : after.tests.length = r.tests.length
  hooks : ltfGetHooks after.state = ltfGetHooks r.state

variable (env) in
theorem deferred_serves (status : CString.CStr) (found : r.tests ≠ []) :
    ∃ after, runDeferred env status r = .ok after ∧ Served r after := by
  cases pending : r.deferList with
  | none =>
    refine ⟨r, by simp only [runDeferred, pending]; rfl, ?_, pending, rfl, rfl⟩
    simp [pending, queueSlots]
  | some list =>
    obtain ⟨entered, started, one, _⟩ := (queue_started_asks env (r := r.push 1)).found found
    have kept : entered.deferList = some list := one.same.trans pending
    have still : entered.tests ≠ [] := one.found found
    obtain ⟨served, defers, loop, two⟩ := deferred_loop_leaves env status list.length still (by simp [kept])
    obtain ⟨after, finished, three, _⟩ := (queue_finished_asks env).found (two.found still)
    refine ⟨{ after with deferList := none }, ?_, ?_, rfl, ?_, ?_⟩
    · rw [runDeferred, pending]
      exact Steps.bind_ok.mpr ⟨_, started, Steps.bind_ok.mpr ⟨_, loop, Steps.bind_ok.mpr ⟨_, finished, rfl⟩⟩⟩
    · have height : entered.luaTop = r.luaTop + 1 := one.top
      show after.luaTop = _
      rw [three.top, two.top, height, pending, queueSlots]
      omega
    · exact three.count.trans (two.count.trans one.count)
    · exact three.hooks.trans (two.hooks.trans one.hooks)

variable (env) in
theorem report_asks (tc : TestCase) :
    (r.tests = [] → reportBody env tc r = .error .abort) ∧
      (r.tests ≠ [] → ∃ after ok, reportBody env tc r = .ok (after, ok) ∧ Leaves r 0 0 after) := by
  constructor
  · intro empty
    cases outcome : tc.body.outcome with
    | returned =>
      cases marked : r.testMarkedFailed with
      | true => simp [reportBody, outcome, marked, (failed_asks env none 0 none).absent empty, bind, Except.bind]
      | false => simp [reportBody, outcome, marked, (passed_asks env).absent empty, bind, Except.bind]
    | failed value =>
      simp only [reportBody, outcome]
      exact Steps.bind_of_error ((failed_asks env _ _ _).absent empty)
  · intro found
    obtain ⟨earlier, test, here⟩ := has_record found
    exact ⟨_, _, body_reported env here tc, leaves_record here rfl rfl rfl rfl⟩

theorem body_leaves {tc : TestCase} (ran : callBody env tc r = .ok after) :
    Leaves r 0 tc.body.defers.length after := by
  rw [callBody, Steps.bind_ok] at ran
  obtain ⟨left, code, last⟩ := ran
  cases last
  obtain ⟨_, leaves, _⟩ := actions_leave code
  refine ⟨?_, leaves.list, leaves.count, leaves.hooks⟩
  have top : left.luaTop = r.luaTop + 2 := leaves.top
  simp [Runner.pop, top]

variable (env) in
theorem body_ends (tc : TestCase) (found : r.tests ≠ []) : ∃ after, callBody env tc r = .ok after := by
  have free : CanLog (r.push 2) := fun _ => found
  obtain ⟨left, code⟩ := actions_end env (.inl free)
  exact ⟨_, Steps.bind_of_ok code⟩

/-- A program that comes to its end leaves the stack as high as it was. -/
def HeightKept (r : Runner) (program : Process Runner) : Prop :=
  Steps.Ends program fun after => after.luaTop = r.luaTop

theorem deferred_height_iff (status : CString.CStr) :
    HeightKept r (runDeferred env status r) ↔ r.deferList = none ∨ r.tests = [] := by
  constructor
  · intro kept
    by_contra bad
    push Not at bad
    obtain ⟨pending, found⟩ := bad
    obtain ⟨after, ran, served⟩ := deferred_serves env status found
    have same : after.luaTop = r.luaTop := kept after ran
    rw [served.top] at same
    have slots : queueSlots r.deferList = 0 := by omega
    exact pending (queueSlots_zero.mp slots)
  · intro fine after ran
    cases pending : r.deferList with
    | none =>
      simp only [runDeferred, pending] at ran
      cases ran
      rfl
    | some list =>
      have empty : r.tests = [] := by simpa [pending] using fine
      have started : ltfStateTestDeferQueueStarted env (r.push 1) = .error .abort := (queue_started_asks env).absent empty
      simp only [runDeferred, pending, Steps.bind_of_error started] at ran
      cases ran

theorem failures_zero {hooks : List LuaCode} : failures hooks = 0 ↔ ∀ hook ∈ hooks, hook.fails = false := by
  simp [failures, List.countP_eq_zero]

/-- A hook that logs where there is no record stops the process in front of its result. -/
theorem hooks_height_iff (fn : HookFn) :
    HeightKept r (ltfHooksRun env fn r) ↔ (∀ hook ∈ hookCalls r.state fn, hook.fails = false) ∨
      r.tests = [] ∧ ∃ hook ∈ (hookCalls r.state fn).tail, hook.logs ≠ [] := by
  rw [← failures_zero]
  constructor
  · intro kept
    by_contra bad
    push Not at bad
    obtain ⟨fails, silent⟩ := bad
    have ends : r.tests ≠ [] ∨ ∀ hook ∈ (hookCalls r.state fn).tail, hook.logs = [] := by
      by_cases empty : r.tests = []
      · exact .inr (silent empty)
      · exact .inl empty
    obtain ⟨after, ran⟩ := (hooks_run_end_iff env _).mpr ends
    have same : after.luaTop = r.luaTop := kept after ran
    rw [(hooks_run_leaves ran).top] at same
    omega
  · intro fine after ran
    rw [(hooks_run_leaves ran).top]
    obtain none_fails | ⟨empty, hook, inside, logs⟩ := fine
    · rw [none_fails, Nat.add_zero]
    · obtain found | silent := (hooks_run_end_iff env fn).mp ⟨after, ran⟩
      · exact absurd empty found
      · exact absurd (silent hook inside) logs

/-- What the hooks of the next test do: its record is there when they are called. -/
def nextCalls (r : Runner) (fn : HookFn) : List LuaCode := callsAt (ltfGetHooks r.state fn) (r.tests.length + 1)

/-- Nothing of an iteration stays on the stack: no hook of it fails, and nothing is
deferred when its teardown starts. -/
structure Calm (r : Runner) (tc : TestCase) : Prop where
  started : ∀ hook ∈ nextCalls r .testStarted, hook.fails = false
  finished : ∀ hook ∈ nextCalls r .testFinished, hook.fails = false
  pending : r.deferList = none
  hooks : ∀ hook ∈ nextCalls r .testStarted, hook.defers = []
  body : tc.body.defers = []

/-- Another iteration can follow: there is an array of records and no interrupt has arrived. -/
def Continues (env : Env) (loop : Loop) : Prop :=
  loop.runner.state.tests ≠ none ∧ env.sigint loop.index = false

theorem begun_tests (tc : TestCase) : (TestRun.begun env tc r).tests = [] ↔ r.state.tests = none := by
  have appended : ∃ test, (TestRun.begun env tc r).state.tests = daAppend r.state.tests test := ⟨_, rfl⟩
  obtain ⟨test, appended⟩ := appended
  cases tests : r.state.tests <;> simp [Runner.tests, appended, tests, daAppend]

theorem begun_calls (tc : TestCase) (array : r.state.tests ≠ none) (fn : HookFn) :
    hookCalls (TestRun.begun env tc r).state fn = nextCalls r fn := by
  obtain ⟨records, tests⟩ := Option.ne_none_iff_exists'.mp array
  have hooks : ltfGetHooks (TestRun.begun env tc r).state fn = ltfGetHooks r.state fn := by cases fn <;> rfl
  have appended : ∃ test, (TestRun.begun env tc r).state.tests = daAppend r.state.tests test := ⟨_, rfl⟩
  obtain ⟨test, appended⟩ := appended
  rw [hookCalls, nextCalls, hooks, appended, Runner.tests, tests]
  simp [daAppend]

theorem registered_zero {hooks : List LuaCode} : registered hooks = 0 ↔ ∀ hook ∈ hooks, hook.defers = [] := by
  rw [registered, List.length_eq_zero_iff, List.flatMap_eq_nil_iff]

theorem iteration_ends {loop : Loop} (continues : Continues env loop) (tc : TestCase) :
    ∃ next, runIteration env loop tc = .ok next ∧
      (next.runner.luaTop = loop.runner.luaTop ↔ Calm loop.runner tc) := by
  obtain ⟨array, quiet⟩ := continues
  have found : (TestRun.begun env tc loop.runner).tests ≠ [] := fun empty => array ((begun_tests tc).mp empty)
  obtain ⟨begun, begins⟩ := (hooks_run_end_iff env .testStarted).mpr (.inl found)
  have one := hooks_run_leaves begins
  obtain ⟨left, called⟩ := body_ends env tc (one.found found)
  have two := body_leaves called
  obtain ⟨judged, ok, reported, three⟩ := (report_asks env tc).2 (two.found (one.found found))
  have all := (one.trans two).trans three
  obtain ⟨torn, teardown, served⟩ :=
    deferred_serves env (deferStatus tc.body.outcome) (all.found found)
  have still : torn.tests ≠ [] := by
    rw [ne_eq, ← List.length_eq_zero_iff, served.count, all.count, List.length_eq_zero_iff]
    exact found
  obtain ⟨after, finish⟩ := (hooks_run_end_iff env .testFinished).mpr (.inl still)
  have last := hooks_run_leaves finish
  let next : Loop := { index := loop.index + 1, passed := loop.passed + (if ok then 1 else 0), runner := after }
  have ran : runIteration env loop tc = .ok next := by
    have first : beginTest env tc loop.runner = .ok begun := begins
    simp only [runIteration]
    rw [Steps.bind_of_ok first, Steps.bind_of_ok called, Steps.bind_of_ok reported, Steps.bind_of_ok teardown, quiet,
      if_neg Bool.false_ne_true, Steps.bind_of_ok finish]
    rfl
  refine ⟨next, ran, ?_⟩
  have startedHooks : hookCalls (TestRun.begun env tc loop.runner).state .testStarted = nextCalls loop.runner .testStarted :=
    begun_calls tc array .testStarted
  have finishedHooks : hookCalls torn.state .testFinished = nextCalls loop.runner .testFinished := by
    rw [calls_eq (served.hooks.trans all.hooks) (served.count.trans all.count), begun_calls tc array]
  have height : after.luaTop = loop.runner.luaTop + failures (nextCalls loop.runner .testStarted) +
      queueSlots judged.deferList + failures (nextCalls loop.runner .testFinished) := by
    have first : (TestRun.begun env tc loop.runner).luaTop = loop.runner.luaTop := rfl
    rw [last.top, served.top, all.top, finishedHooks, startedHooks, first]
    omega
  have pending : judged.deferList = none ↔ loop.runner.deferList = none ∧
      registered (nextCalls loop.runner .testStarted) = 0 ∧ tc.body.defers = [] := by
    have list : (TestRun.begun env tc loop.runner).deferList = loop.runner.deferList := rfl
    rw [all.pending, list, startedHooks]
    simp
  show after.luaTop = loop.runner.luaTop ↔ _
  have slots : after.luaTop = loop.runner.luaTop ↔ failures (nextCalls loop.runner .testStarted) = 0 ∧
      queueSlots judged.deferList = 0 ∧ failures (nextCalls loop.runner .testFinished) = 0 := by omega
  rw [slots, failures_zero, failures_zero, queueSlots_zero, pending, registered_zero]
  constructor
  · intro kept
    obtain ⟨noneFails, ⟨nothing, noHook, noBody⟩, noLater⟩ := kept
    exact ⟨noneFails, noLater, nothing, noHook, noBody⟩
  · intro calm
    exact ⟨calm.started, ⟨calm.pending, calm.hooks, calm.body⟩, calm.finished⟩

theorem iteration_continues {loop next : Loop} {tc : TestCase} (ran : runIteration env loop tc = .ok next) :
    Continues env loop := by
  rw [runIteration, Steps.bind_ok] at ran
  obtain ⟨begun, begins, ran⟩ := ran
  rw [Steps.bind_ok] at ran
  obtain ⟨left, called, ran⟩ := ran
  constructor
  · intro none_there
    have absent : (TestRun.begun env tc loop.runner).tests = [] := (begun_tests tc).mpr none_there
    have empty : left.tests = [] := (body_leaves called).records.mpr ((hooks_run_leaves begins).records.mpr absent)
    rw [Steps.bind_of_error ((report_asks env tc).1 empty)] at ran
    cases ran
  · by_contra arrived
    rw [Bool.not_eq_false] at arrived
    rw [Steps.bind_ok] at ran
    obtain ⟨⟨judged, ok⟩, reported, ran⟩ := ran
    rw [Steps.bind_ok] at ran
    obtain ⟨torn, teardown, ran⟩ := ran
    simp [arrived] at ran

/-- Every iteration starts with the stack as high as it was at the start of the loop. -/
def StartsLevel (env : Env) (tests : List TestCase) (start : Loop) : Prop :=
  ∀ done tc rest loop, tests = done ++ tc :: rest → runTests env done start = .ok loop →
    loop.runner.luaTop = start.runner.luaTop

/-- Every iteration that another one follows leaves nothing. -/
def RunsCalm (env : Env) (tests : List TestCase) (start : Loop) : Prop :=
  ∀ done tc following rest loop, tests = done ++ tc :: following :: rest → runTests env done start = .ok loop →
    Continues env loop → Calm loop.runner tc

theorem starts_level_iff {tests : List TestCase} {start : Loop} :
    StartsLevel env tests start ↔ RunsCalm env tests start := by
  constructor
  · intro level done tc following rest loop split ran continues
    obtain ⟨next, once, same⟩ := iteration_ends continues tc
    have before : loop.runner.luaTop = start.runner.luaTop := level done tc (following :: rest) loop split ran
    have longer : runTests env (done ++ [tc]) start = .ok next := by
      rw [TestRun.runTests_append, Steps.bind_of_ok ran]
      exact Steps.bind_of_ok once
    have after := level (done ++ [tc]) following rest next (by simp [split]) longer
    exact same.mp (after.trans before.symm)
  · intro calm done
    -- from the right: the last iteration left nothing, and the ones before it by induction
    induction done using List.reverseRecOn with
    | nil =>
      intro tc rest loop split ran
      cases ran
      rfl
    | append_singleton done last ih =>
      intro tc rest loop split ran
      rw [TestRun.runTests_append, Steps.bind_ok] at ran
      obtain ⟨middle, ran, once⟩ := ran
      rw [runTests, List.foldlM_cons, Steps.bind_ok] at once
      obtain ⟨next, once, ends⟩ := once
      cases ends
      have continues := iteration_continues once
      obtain ⟨next', again, same⟩ := iteration_ends continues last
      obtain rfl : next' = loop := by simpa [once] using again.symm
      have split' : tests = done ++ last :: tc :: rest := by simpa using split
      have level := same.mpr (calm done last tc rest middle split' ran continues)
      exact level.trans (ih last (tc :: rest) middle split' ran)

/-- The stack keeps its height exactly where nothing is deferred and no hook fails: a queue
leaves its list and an error handler for each entry, a failing hook its message. -/
theorem heights_kept_iff (env : Env) :
    (∀ status r, HeightKept r (runDeferred env status r) ↔ r.deferList = none ∨ r.tests = []) ∧
    (∀ fn r, HeightKept r (ltfHooksRun env fn r) ↔ (∀ hook ∈ hookCalls r.state fn, hook.fails = false) ∨
      r.tests = [] ∧ ∃ hook ∈ (hookCalls r.state fn).tail, hook.logs ≠ []) ∧
    (∀ tests start, StartsLevel env tests start ↔ RunsCalm env tests start) := by
  refine ⟨?_, ?_, ?_⟩
  · intro status r
    exact deferred_height_iff status
  · intro fn r
    exact hooks_height_iff fn
  · intro tests start
    exact starts_level_iff

theorem first_defer_stays :
    ∃ start, beginRun plainEnv newRunner = .ok start ∧ ¬ StartsLevel plainEnv TestRun.twoTests start := by
  have fresh : TestRun.Fresh newRunner := TestRun.ltfStateNew_fresh _ _ _ _ _ _ _
  refine ⟨_, fresh.begins_eq plainEnv, ?_⟩
  intro level
  have calm := starts_level_iff.mp level [] _ _ [] _ rfl rfl ⟨Option.some_ne_none _, rfl⟩
  exact absurd calm.body (by simp [LuaCode.defers, LuaCode.actions])

end Ltf.Proofs.StackHeights
