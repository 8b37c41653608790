import Ltf.Proofs.StackHeights

/-! What hooks can do to a run. The first hook of an event is kept apart from the tests; an
error that a later one logs when a test starts fails the test, and before the first test
there is no record that a log could go to. -/

namespace Ltf.Proofs.HookedRun
open RunnerSteps HookLogs Teardown TestRun StackHeights

variable {env : Env} {r after : Runner} {earlier records : List StateTest} {test : StateTest} {fn : HookFn}

/-- What the hooks whose logs are taken for those of a test do when there are so many records. -/
def laterCalls (state : LtfState) (fn : HookFn) (number : Nat) : List LuaCode :=
  (callsAt (ltfGetHooks state fn) number).tail

/-- A hook logs an error when the test with this number starts. -/
def hooksFail (state : LtfState) (number : Nat) : Bool := (laterCalls state .testStarted number).any (·.logsError)

/-- Tests are counted from one: the record of a test is there when its hooks are called. -/
def numbered {α : Type} (tests : List α) : List (α × Nat) := tests.zipIdx 1

theorem numbered_append {α : Type} (done : List α) (item : α) :
    numbered (done ++ [item]) = numbered done ++ [(item, done.length + 1)] := by
  rw [numbered, numbered, List.zipIdx_append, List.zipIdx_singleton, Nat.add_comm 1]

/-- A record that has taken logs is still about the same test, with the same verdict. -/
def Same (test record : StateTest) : Prop := record.name = test.name ∧ record.status = test.status

theorem Same.trans {first second third : StateTest} (one : Same first second) (two : Same second third) : Same first third :=
  ⟨two.1.trans one.1, two.2.trans one.2⟩

theorem takeLogs_same (outputs : List TestOutput) (test : StateTest) : Same test (outputs.foldl takeLog test) := by
  induction outputs generalizing test with
  | nil => exact ⟨rfl, rfl⟩
  | cons output outputs ih =>
    have one : Same test (takeLog test output) := by
      refine ⟨?_, takeLog_status test output⟩
      cases status : test.status <;> simp [takeLog, status]
    exact one.trans (ih _)

/-- What hooks leave of a runner with a current record. -/
structure Hooked (r : Runner) (earlier : List StateTest) (test : StateTest) (error : Bool) (after : Runner)
    (record : StateTest) : Prop where
  state : after.state = recorded r.state earlier record
  same : Same test record
  marked : after.testMarkedFailed = (r.testMarkedFailed || (test.status == .running && error))

theorem Hooked.trans {middle : Runner} {record last : StateTest} {first second : Bool}
    (one : Hooked r earlier test first middle record) (two : Hooked middle earlier record second after last) :
    Hooked r earlier test (first || second) after last := by
  refine ⟨?_, one.same.trans two.same, ?_⟩
  · rw [two.state, one.state, recorded_recorded]
  · rw [two.marked, one.marked, one.same.2, Bool.or_assoc, Bool.and_or_distrib_left]

theorem staged_test {state : LtfState} (stage : state.currentStage = .test) : staged state .test = state := by
  rw [staged, ← stage]

variable (env) in
theorem later_hook (here : At r earlier test) (stage : r.state.currentStage = .test) (fn : HookFn) (hook : LuaCode) :
    ∃ after record, ltfHooksStep env fn r hook = .ok after ∧ Hooked r earlier test hook.logsError after record := by
  let begun := (r.emit (r.state.hookStartedCbs.map (.hookStarted · fn))).push 2
  let called := ran env begun earlier test hook.actions
  have code : runLua env hook begun = .ok called := actions_run env (r := begun) here stage hook.actions
  let outputs := stamped env r.ticks (logCalls hook.actions)
  have state : called.state = recorded r.state earlier (outputs.foldl takeLog test) := rfl
  have marked : called.testMarkedFailed = (r.testMarkedFailed || (test.status == .running && hook.logsError)) := rfl
  refine ⟨afterHook fn hook.outcome called, outputs.foldl takeLog test, ?_, ?_, takeLogs_same outputs test, ?_⟩
  · rw [hook_step_eq]
    exact Steps.bind_of_ok code
  · have settled : (afterHook fn hook.outcome called).state = staged called.state .test := by cases hook.outcome <;> rfl
    rw [settled, staged_test (by rw [state]; exact stage), state]
  · rw [← marked]
    cases hook.outcome <;> rfl

variable (env) in
theorem later_hooks (here : At r earlier test) (stage : r.state.currentStage = .test) (fn : HookFn) (hooks : List LuaCode) :
    ∃ after record, hooks.foldlM (ltfHooksStep env fn) r = .ok after ∧
      Hooked r earlier test (hooks.any (·.logsError)) after record := by
  induction hooks generalizing r test with
  | nil => exact ⟨r, test, rfl, here.same.symm, ⟨rfl, rfl⟩, by simp⟩
  | cons hook hooks ih =>
    obtain ⟨middle, record, first, one⟩ := later_hook env here stage fn hook
    have there : At middle earlier record := by rw [At, one.state]; rfl
    have stage' : middle.state.currentStage = .test := by rw [one.state]; exact stage
    obtain ⟨after, last, rest, two⟩ := ih there stage'
    refine ⟨after, last, ?_, by simpa using one.trans two⟩
    rw [List.foldlM_cons, Steps.bind_of_ok first]
    exact rest

variable (env) in
/-- The first hook of an event changes neither the records nor the verdict. -/
theorem first_hook (stage : r.state.currentStage = .test) (fn : HookFn) (hook : LuaCode) :
    ∃ after, ltfHooksStep env fn (hooksStarted r) hook = .ok after ∧ after.state = r.state ∧
      after.testMarkedFailed = r.testMarkedFailed := by
  obtain ⟨after, ran, contained, last⟩ := @hook_contained env (hooksStarted r) fn hook (.inl rfl)
  refine ⟨after, ran, ?_, contained.marked⟩
  have back : staged (staged after.state .hook) .test = staged (staged r.state .hook) .test :=
    congrArg (staged · .test) contained.state
  rwa [staged_staged, staged_staged, staged_test last, staged_test stage] at back

variable (env) in
/-- The hooks of an event that has a record. -/
theorem hooks_run (here : At r earlier test) (stage : r.state.currentStage = .test) (fn : HookFn) :
    ∃ after record, ltfHooksRun env fn r = .ok after ∧
      Hooked r earlier test ((hookCalls r.state fn).tail.any (·.logsError)) after record := by
  cases hooks : hookCalls r.state fn with
  | nil =>
    have done : ltfHooksRun env fn r = .ok r := by
      have same : { r.state with currentStage := .test } = r.state := staged_test stage
      simp only [ltfHooksRun, hooks, List.length_nil, if_true, same]
      rfl
    exact ⟨r, test, done, here.same.symm, ⟨rfl, rfl⟩, by simp⟩
  | cons first rest =>
    obtain ⟨middle, begun, state, marked⟩ := first_hook env stage fn first
    have there : At middle earlier test := by rw [At, state]; exact here
    obtain ⟨after, record, ended, hooked⟩ := later_hooks env there (by rw [state]; exact stage) fn rest
    refine ⟨after, record, ?_, ?_, hooked.same, ?_⟩
    · rw [hooks_run_eq hooks, List.foldlM_cons, Steps.bind_of_ok begun]
      exact ended
    · rw [hooked.state, state]
    · rw [hooked.marked, marked, List.tail_cons]

/-- A test with the verdict on it. -/
structure Verdict (name : Option CString.CStr) (passes : Bool) (record : StateTest) : Prop where
  name : record.name = name
  status : record.status = if passes then .passed else .failed

theorem Verdict.same {name : Option CString.CStr} {passes : Bool} {record later : StateTest} (verdict : Verdict name passes record)
    (same : Same record later) : Verdict name passes later :=
  ⟨same.1.trans verdict.name, same.2.trans verdict.status⟩

variable (env) in
/-- The body and its teardown, after hooks that may have marked the test. -/
theorem body_torn (tc : TestCase) (here : At r earlier test) (stage : r.state.currentStage = .test)
    (running : test.status = .running) :
    ∃ left judged after record, callBody env tc r = .ok left ∧ reportBody env tc left = .ok (judged, testPasses tc r) ∧
      runDeferred env (deferStatus tc.body.outcome) judged = .ok after ∧
      after.state = counted r.state earlier record (testPasses tc r) ∧ Verdict test.name (testPasses tc r) record := by
  let left := (ran env (r.push 2) earlier test tc.body.actions).pop 2
  let bodyTest := (stamped env r.ticks (logCalls tc.body.actions)).foldl takeLog test
  let record := reportedRecord env tc left bodyTest
  let judged := settled left earlier record (testPasses tc r)
  have call : callBody env tc r = .ok left :=
    Steps.bind_ok.mpr ⟨_, actions_run env (r := r.push 2) here stage tc.body.actions, rfl⟩
  have leftHere : At left earlier bodyTest := rfl
  have marked : left.testMarkedFailed = (r.testMarkedFailed || tc.body.logsError) := by
    simp [left, ran, running, LuaCode.logsError, LuaCode.logs]
  have passes : reportPasses tc left = testPasses tc r := by rw [reportPasses, marked, testPasses]
  have report : reportBody env tc left = .ok (judged, testPasses tc r) := by
    have reported := body_reported env leftHere tc
    rwa [passes] at reported
  have verdict : Verdict test.name (testPasses tc r) record := by
    refine ⟨(reportedRecord_name env tc left bodyTest).trans (takeLogs_same _ test).1, ?_⟩
    rw [← passes]
    exact reportedRecord_status env tc left bodyTest
  have decided : record.status = .passed ∨ record.status = .failed := by
    rw [verdict.status]
    cases testPasses tc r <;> simp
  have judgedHere : At judged earlier record := rfl
  have judgedStage : judged.state.currentStage = .test := stage
  obtain ⟨after, last, teardown, leaves, _⟩ := run_deferred env (deferStatus tc.body.outcome) judgedHere judgedStage decided
  refine ⟨left, judged, after, last, call, report, teardown, leaves.state, ?_⟩
  obtain ⟨_, _, _, _, torn⟩ := leaves.torn
  rw [torn]
  exact ⟨verdict.name, verdict.status⟩

def passes (state : LtfState) (test : TestCase × Nat) : Bool := bodyPasses test.1 && !hooksFail state test.2

/-- What the records say about the tests. -/
def Judged (state : LtfState) (tests : List TestCase) (records : List StateTest) : Prop :=
  List.Forall₂ (fun test record => Verdict (some test.1.name) (passes state test) record) (numbered tests) records

variable (env) in
theorem iteration (tc : TestCase) {loop : Loop} (tests : loop.runner.state.tests = some records)
    (stage : loop.runner.state.currentStage = .test) :
    ∃ after record,
      runIteration env loop tc = (if env.sigint loop.index then .error (.exit 130)
        else .ok {
          index := loop.index + 1
          passed := loop.passed + if passes loop.runner.state (tc, records.length + 1) then 1 else 0
          runner := after }) ∧
      after.state = counted loop.runner.state records record (passes loop.runner.state (tc, records.length + 1)) ∧
      Verdict (some tc.name) (passes loop.runner.state (tc, records.length + 1)) record := by
  have begins : At (begun env tc loop.runner) records (newRecord env tc loop.runner) := by
    rw [At, begun_state env tc tests]
    rfl
  have stage' : (begun env tc loop.runner).state.currentStage = .test := by
    rw [begun_state env tc tests]
    exact stage
  obtain ⟨started, record, opening, hooked⟩ := hooks_run env begins stage' .testStarted
  have startedState : started.state = recorded loop.runner.state records record := by
    rw [hooked.state, begun_state env tc tests, recorded_recorded]
  have startedHere : At started records record := by rw [At, startedState]; rfl
  have startedStage : started.state.currentStage = .test := by rw [startedState]; exact stage
  have running : record.status = .running := hooked.same.2
  obtain ⟨left, judged, torn, last, call, report, teardown, state, verdict⟩ :=
    body_torn env tc startedHere startedStage running
  have same : testPasses tc started = passes loop.runner.state (tc, records.length + 1) := by
    have marked : started.testMarkedFailed = hooksFail loop.runner.state (records.length + 1) := by
      have calls : (hookCalls (begun env tc loop.runner).state .testStarted).tail =
          laterCalls loop.runner.state .testStarted (records.length + 1) := by
        rw [begun_state env tc tests, hookCalls, laterCalls, recorded]
        simp [ltfGetHooks]
      rw [hooked.marked, calls]
      rfl
    rw [testPasses, passes, bodyPasses, marked]
    cases tc.body.fails <;> cases tc.body.logsError <;> cases hooksFail loop.runner.state (records.length + 1) <;> rfl
  rw [same] at report state verdict
  have tornHere : At torn records last := by rw [At, state]; rfl
  have tornStage : torn.state.currentStage = .test := by rw [state]; exact startedStage
  obtain ⟨after, final, closing, hooked'⟩ := hooks_run env tornHere tornStage .testFinished
  have finalState : after.state = counted loop.runner.state records final (passes loop.runner.state (tc, records.length + 1)) := by
    rw [hooked'.state, state, startedState]
    rfl
  have name : record.name = some tc.name := hooked.same.1
  rw [name] at verdict
  refine ⟨after, final, ?_, finalState, verdict.same hooked'.same⟩
  have begin : beginTest env tc loop.runner = .ok started := opening
  rw [runIteration, Steps.bind_of_ok begin, Steps.bind_of_ok call, Steps.bind_of_ok report]
  dsimp only
  rw [Steps.bind_of_ok teardown]
  split
  · rfl
  · rw [Steps.bind_of_ok closing]
    rfl

/-- The books of a run with hooks, after some tests. -/
structure Tally (state : LtfState) (done : List TestCase) (loop : Loop) : Prop where
  stage : loop.runner.state.currentStage = .test
  hooks : ltfGetHooks loop.runner.state = ltfGetHooks state
  records : ∃ records, loop.runner.state.tests = some records ∧ Judged state done records
  index : loop.index = done.length
  passed : loop.passed = (numbered done).countP (passes state)
  passedAmount : loop.runner.state.passedAmount = (numbered done).countP (passes state)
  failedAmount : loop.runner.state.failedAmount = (numbered done).countP (!passes state ·)
  finishedAmount : loop.runner.state.finishedAmount = done.length

theorem Tally.passes {state : LtfState} {done : List TestCase} {loop : Loop} (tally : Tally state done loop)
    (test : TestCase × Nat) : passes loop.runner.state test = HookedRun.passes state test := by
  simp only [HookedRun.passes, hooksFail, laterCalls, tally.hooks]

theorem Judged.length {state : LtfState} {tests : List TestCase} {records : List StateTest}
    (judged : Judged state tests records) : records.length = tests.length := by
  rw [← List.Forall₂.length_eq judged, numbered, List.length_zipIdx]

theorem Tally.add {state : LtfState} {done : List TestCase} {loop : Loop} (tally : Tally state done loop) (tc : TestCase)
    (quiet : env.sigint loop.index = false) :
    ∃ next, runIteration env loop tc = .ok next ∧ Tally state (done ++ [tc]) next := by
  obtain ⟨records, tests, each⟩ := tally.records
  obtain ⟨after, record, ran, left, verdict⟩ := iteration env tc tests tally.stage
  rw [tally.passes, each.length, quiet] at ran
  rw [tally.passes, each.length] at left verdict
  refine ⟨_, ran, ?_⟩
  constructor
  · rw [left]
    exact tally.stage
  · rw [left, ← tally.hooks]
    rfl
  · refine ⟨records ++ [record], by rw [left]; rfl, ?_⟩
    rw [Judged, numbered_append]
    exact List.rel_append each (.cons verdict .nil)
  · simp [tally.index]
  · simp [numbered_append, tally.passed, List.countP_append, List.countP_cons]
  · simp [left, counted, recorded, numbered_append, tally.passedAmount, List.countP_append, List.countP_cons]
  · simp only [left, counted, recorded, numbered_append, tally.failedAmount, List.countP_append, List.countP_cons,
      List.countP_nil]
    cases HookedRun.passes state (tc, done.length + 1) <;> simp
  · simp [left, counted, recorded, tally.finishedAmount]

theorem run_tallied {state : LtfState} {tests : List TestCase} {start : Loop} (tally : Tally state [] start)
    (quiet : ¬ Interrupted env tests.length) : ∃ after, runTests env tests start = .ok after ∧ Tally state tests after := by
  induction tests using List.reverseRecOn with
  | nil => exact ⟨start, rfl, tally⟩
  | append_singleton done tc ih =>
    have earlier : ¬ Interrupted env done.length := fun ⟨i, small, noticed⟩ =>
      quiet ⟨i, by rw [List.length_append]; exact Nat.lt_add_right 1 small, noticed⟩
    obtain ⟨before, ran, kept⟩ := ih earlier
    have calm : env.sigint before.index = false := by
      rw [kept.index]
      simpa using fun noticed => quiet ⟨done.length, by simp, noticed⟩
    obtain ⟨next, once, tallied⟩ := kept.add tc calm
    refine ⟨next, ?_, tallied⟩
    rw [runTests_append, Steps.bind_of_ok ran]
    simpa [runTests] using once

/-- A runner in which a run can start, with any hooks. -/
structure Ready (r : Runner) : Prop where
  stage : r.state.currentStage = .test
  tests : r.state.tests = some []
  passed : r.state.passedAmount = 0
  failed : r.state.failedAmount = 0
  finished : r.state.finishedAmount = 0

/-- A later hook of the event logs where there is no record. -/
def LaterLogs (state : LtfState) (fn : HookFn) : Prop := ∃ call ∈ laterCalls state fn 0, call.logs ≠ []

theorem no_record_calls (tests : r.tests = []) (fn : HookFn) : (hookCalls r.state fn).tail = laterCalls r.state fn 0 := by
  have empty : r.state.tests.getD [] = [] := tests
  rw [hookCalls, empty, List.length_nil, laterCalls]

/-- Without a record the hooks of an event come to an end as long as no later one logs. -/
theorem hooks_end (env : Env) (stage : r.state.currentStage = .test) (tests : r.tests = []) (fn : HookFn) :
    (LaterLogs r.state fn → ∀ after, ltfHooksRun env fn r ≠ .ok after) ∧
    (¬ LaterLogs r.state fn → ∃ after, ltfHooksRun env fn r = .ok after ∧ after.state = r.state) := by
  constructor
  · rintro ⟨hook, inside, logs⟩ after ran
    rcases (hooks_run_end_iff env fn).mp ⟨after, ran⟩ with found | silent
    · exact found tests
    · exact logs (silent hook (no_record_calls tests fn ▸ inside))
  · intro none_logs
    cases hooks : hookCalls r.state fn with
    | nil =>
      refine ⟨{ r with state := staged r.state .test }, ?_, staged_test stage⟩
      simp only [ltfHooksRun, hooks, List.length_nil, if_true]
      rfl
    | cons first rest =>
      have silent : ∀ hook ∈ rest, hook.logs = [] := by
        intro hook inside
        by_contra logs
        exact none_logs ⟨hook, by simpa [← no_record_calls tests fn, hooks] using inside, logs⟩
      obtain ⟨middle, begun, state, _⟩ := first_hook env stage fn first
      have middleStage : middle.state.currentStage = .test := by rw [state]; exact stage
      obtain ⟨after, ended, contained, last⟩ := silent_hooks_contained env fn middleStage silent
      refine ⟨after, ?_, ?_⟩
      · rw [hooks_run_eq hooks, List.foldlM_cons, Steps.bind_of_ok begun]
        exact ended
      · have back := contained.state
        rwa [middleStage, staged_test last, state] at back

theorem Ready.tally {r : Runner} (ready : Ready r) {runner : Runner} (state : runner.state.tests = r.state.tests ∧
    runner.state.currentStage = .test ∧ ltfGetHooks runner.state = ltfGetHooks r.state ∧
    counters runner = counters r) : Tally r.state [] { index := 0, passed := 0, runner } := by
  obtain ⟨tests, stage, hooks, amounts⟩ := state
  simp only [counters, Prod.mk.injEq, ready.passed, ready.failed, ready.finished] at amounts
  exact ⟨stage, hooks, ⟨[], tests.trans ready.tests, .nil⟩, rfl, rfl, amounts.1, amounts.2.1, amounts.2.2⟩

theorem forall₂_replace {α β : Type} {relation : α → β → Prop} {left : List α} {before : List β} {last other : β}
    (each : List.Forall₂ relation left (before ++ [last])) (weaken : ∀ item, relation item last → relation item other) :
    List.Forall₂ relation left (before ++ [other]) := by
  induction before generalizing left with
  | nil =>
    cases each with
    | cons first rest =>
      cases rest
      exact .cons (weaken _ first) .nil
  | cons item before ih =>
    cases each with
    | cons first rest => exact .cons first (ih rest)

section Finish
variable {state : LtfState} {tests : List TestCase} {loop : Loop}

theorem Tally.laterLogs (tally : Tally state tests loop) (fn : HookFn) :
    LaterLogs (ltfStateTestRunFinished env loop.runner).state fn ↔ LaterLogs state fn := by
  have same : ltfGetHooks (ltfStateTestRunFinished env loop.runner).state fn = ltfGetHooks state fn := by
    rw [← tally.hooks]
    cases fn <;> rfl
  rw [LaterLogs, LaterLogs, laterCalls, laterCalls, same]

/-- The hooks of the last event, which have a record unless there are no tests. -/
theorem finish (env : Env) (tally : Tally state tests loop) :
    ((∃ final, ltfHooksRun env .testRunFinished (ltfStateTestRunFinished env loop.runner) = .ok final) ↔
      ¬ (tests = [] ∧ LaterLogs state .testRunFinished)) ∧
    ∀ final, ltfHooksRun env .testRunFinished (ltfStateTestRunFinished env loop.runner) = .ok final →
      Judged state tests final.tests ∧ counters final = counters loop.runner := by
  obtain ⟨records, known, each⟩ := tally.records
  have stage : (ltfStateTestRunFinished env loop.runner).state.currentStage = .test := tally.stage
  have same : (ltfStateTestRunFinished env loop.runner).tests = records := by
    show loop.runner.state.tests.getD [] = records
    rw [known]
    rfl
  by_cases empty : records = []
  · subst empty
    have none_run : tests = [] := List.length_eq_zero_iff.mp each.length.symm
    subst none_run
    obtain ⟨cut, ends⟩ := hooks_end env stage same .testRunFinished
    rw [tally.laterLogs] at cut ends
    constructor
    · constructor
      · rintro ⟨final, ran⟩ ⟨_, logs⟩
        exact cut logs final ran
      · intro silent
        obtain ⟨final, ran, _⟩ := ends fun logs => silent ⟨rfl, logs⟩
        exact ⟨final, ran⟩
    · intro final ran
      obtain ⟨final', ran', state'⟩ := ends fun logs => cut logs final ran
      obtain rfl : final' = final := by simpa [ran] using ran'.symm
      have none_there : final'.tests = [] := by rw [Runner.tests, state']; exact same
      rw [none_there]
      exact ⟨.nil, by rw [counters, state']; rfl⟩
  · obtain ⟨earlier, test, here⟩ := has_record (r := ltfStateTestRunFinished env loop.runner) (by rw [same]; exact empty)
    obtain ⟨after, record, ran, hooked⟩ := hooks_run env here stage .testRunFinished
    have split : records = earlier ++ [test] := by
      rw [← same, Runner.tests, here.tests]
      rfl
    constructor
    · refine iff_of_true ⟨after, ran⟩ ?_
      rintro ⟨rfl, _⟩
      exact empty (List.length_eq_zero_iff.mp each.length)
    · intro final ran'
      obtain rfl : after = final := by simpa [ran] using ran'
      have last : after.tests = earlier ++ [record] := by
        rw [Runner.tests, hooked.state]
        rfl
      rw [last]
      refine ⟨forall₂_replace (split ▸ each) fun test verdict => verdict.same hooked.same, ?_⟩
      rw [counters, hooked.state]
      rfl

end Finish

section Run
variable (env : Env) (tests : List TestCase) {r : Runner}

theorem opens (ready : Ready r) :
    (LaterLogs r.state .testRunStarted → ∀ started,
      ltfHooksRun env .testRunStarted (ltfStateTestRunStarted env r) ≠ .ok started) ∧
    (¬ LaterLogs r.state .testRunStarted → ∃ started,
      ltfHooksRun env .testRunStarted (ltfStateTestRunStarted env r) = .ok started ∧
        started.state = (ltfStateTestRunStarted env r).state) := by
  have empty : (ltfStateTestRunStarted env r).tests = [] := by
    show r.state.tests.getD [] = []
    rw [ready.tests]
    rfl
  have stage : (ltfStateTestRunStarted env r).state.currentStage = .test := ready.stage
  exact hooks_end env stage empty .testRunStarted

/-- A hook that logs before there is a record ends the run with a crash. -/
theorem never_begins (ready : Ready r) (logs : LaterLogs r.state .testRunStarted) (code : Nat) (final : Runner) :
    runAllTests env tests r ≠ .ok (code, final) := by
  intro ran
  rw [runAllTests, beginRun, Steps.bind_ok] at ran
  obtain ⟨loop, begun, _⟩ := ran
  obtain ⟨started, opening, _⟩ := Steps.bind_ok.mp begun
  exact (opens env ready).1 logs started opening

theorem begins (ready : Ready r) (silent : ¬ LaterLogs r.state .testRunStarted) :
    ∃ loop, beginRun env r = .ok loop ∧ Tally r.state [] loop := by
  obtain ⟨started, opening, state⟩ := (opens env ready).2 silent
  refine ⟨{ index := 0, passed := 0, runner := started }, Steps.bind_of_ok opening, ready.tally ⟨?_, ?_, ?_, ?_⟩⟩
  · rw [state]; rfl
  · rw [state]; exact ready.stage
  · rw [state]; rfl
  · rw [counters, state]; rfl

/-- A run that begins gets to the hooks of the last event with every test judged. -/
theorem reaches_finish (ready : Ready r) (quiet : ¬ Interrupted env tests.length)
    (silent : ¬ LaterLogs r.state .testRunStarted) :
    ∃ done, Tally r.state tests done ∧ ∀ code final, runAllTests env tests r = .ok (code, final) ↔
      ltfHooksRun env .testRunFinished (ltfStateTestRunFinished env done.runner) = .ok final ∧
        code = if done.passed = tests.length then exitSuccess else exitFailure := by
  obtain ⟨loop, begun, tally⟩ := begins env ready silent
  obtain ⟨done, ran, tallied⟩ := run_tallied tally quiet
  refine ⟨done, tallied, fun code final => ?_⟩
  rw [runAllTests, Steps.bind_of_ok begun, Steps.bind_of_ok ran, Steps.bind_ok]
  constructor
  · rintro ⟨closed, closing, last⟩
    cases last
    exact ⟨closing, rfl⟩
  · rintro ⟨closing, rfl⟩
    exact ⟨final, closing, rfl⟩

variable {tests} in
theorem Tally.exit_code {state : LtfState} {done : Loop} (tally : Tally state tests done) :
    (if done.passed = tests.length then exitSuccess else exitFailure) = exitSuccess ↔
      ∀ test ∈ numbered tests, HookedRun.passes state test = true := by
  rw [tally.passed, ← List.countP_eq_length, numbered, List.length_zipIdx]
  split
  next all => exact iff_of_true rfl all
  next some_failed => exact iff_of_false Nat.one_ne_zero some_failed

end Run

/-- A run with hooks comes to its end unless a hook logs where there is no record. Every test
is then judged once, by its body and by what the hooks log when it starts, and the exit code tells
whether all of them passed. -/
theorem run_exits_with_hooks (env : Env) (tests : List TestCase) {r : Runner} (ready : Ready r)
    (quiet : ¬ Interrupted env tests.length) :
    ((∃ code final, runAllTests env tests r = .ok (code, final)) ↔
      ¬ (LaterLogs r.state .testRunStarted ∨ (tests = [] ∧ LaterLogs r.state .testRunFinished))) ∧
    ∀ code final, runAllTests env tests r = .ok (code, final) →
      Judged r.state tests final.tests ∧
      counters final =
        ((numbered tests).countP (passes r.state), (numbered tests).countP (!passes r.state ·), tests.length) ∧
      (code = exitSuccess ↔ ∀ test ∈ numbered tests, passes r.state test = true) := by
  by_cases logs : LaterLogs r.state .testRunStarted
  · have never := never_begins env tests ready logs
    refine ⟨iff_of_false ?_ (fun calm => calm (.inl logs)), fun code final ran => absurd ran (never code final)⟩
    rintro ⟨code, final, ran⟩
    exact never code final ran
  · obtain ⟨done, tallied, whole⟩ := reaches_finish env tests ready quiet logs
    obtain ⟨ends, final_tally⟩ := finish env tallied
    constructor
    · simp only [whole, logs, false_or, ← ends]
      constructor
      · rintro ⟨code, final, closing, _⟩
        exact ⟨final, closing⟩
      · rintro ⟨final, closing⟩
        exact ⟨_, final, closing, rfl⟩
    · intro code final finished
      obtain ⟨closing, rfl⟩ := (whole code final).mp finished
      obtain ⟨records, amounts⟩ := final_tally final closing
      refine ⟨records, ?_, tallied.exit_code⟩
      rw [amounts, counters, tallied.passedAmount, tallied.failedAmount, tallied.finishedAmount]

/-- The second hook for the start of a test logs an error, but only when it is called for the second time. -/
def heckled : Runner := { newRunner with state := { newRunner.state with
  hooksTestStarted := [fun _ => .mk [] .returned, fun number =>
    .mk (if number = 2 then [.log { level := .error, file := none, line := 1, msg := [98, 97, 100] }] else []) .returned] } }

def silentTest : TestCase where
  name := .lit "silent"
  body := .mk [] .returned

/-- The hook fails the second of two tests whose bodies do nothing. -/
theorem run_exits_with_hooks_heckled :
    ∃ code final, runAllTests plainEnv [silentTest, silentTest] heckled = .ok (code, final) ∧ code ≠ exitSuccess ∧
      final.tests.map (·.status) = [.passed, .failed] := by
  have ready : Ready heckled := ⟨rfl, rfl, rfl, rfl, rfl⟩
  have quiet : ¬ Interrupted plainEnv [silentTest, silentTest].length := by
    rintro ⟨_, _, noticed⟩
    cases noticed
  obtain ⟨ends, every⟩ := run_exits_with_hooks plainEnv [silentTest, silentTest] ready quiet
  have calm : ¬ LaterLogs heckled.state .testRunStarted := by
    rintro ⟨hook, inside, _⟩
    cases inside
  obtain ⟨code, final, ran⟩ := ends.mpr (by simp [calm])
  obtain ⟨judged, _, success⟩ := every code final ran
  refine ⟨code, final, ran, fun passed => ?_, ?_⟩
  · have second := success.mp passed (silentTest, 2) (by simp [numbered])
    cases second
  · have both : List.Forall₂ _ [(silentTest, 1), (silentTest, 2)] final.tests := judged
    generalize final.tests = records at both
    cases both with
    | cons first rest =>
      cases rest with
      | cons second none_left =>
        cases none_left
        rw [List.map_cons, List.map_cons, List.map_nil, first.status, second.status]
        rfl

end Ltf.Proofs.HookedRun
