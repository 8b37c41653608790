import Mathlib.Data.Nat.Find
import Ltf.Proofs.Teardown

/-! A run of tests keeps a ledger: after each test the records, the counters and the
verdicts say what the bodies did, and nothing a teardown does is entered. -/

namespace Ltf.Proofs.TestRun
open CString RunnerSteps Teardown

/-- What a body has to do for its test to pass. -/
def bodyPasses (tc : TestCase) : Bool := !tc.body.fails && !tc.body.logsError

/-- The record of a test that is over. -/
structure RecordOf (tc : TestCase) (record : StateTest) : Prop where
  name : record.name = some tc.name
  passed : record.status = .passed ↔ bodyPasses tc
  failed : record.status = .failed ↔ tc.body.fails ∨ tc.body.logsError
  reasons : record.status = .passed ↔ record.failureReasons = some []

def NoHooks (state : LtfState) : Prop := ∀ fn, ltfGetHooks state fn = []

theorem NoHooks.kept {state : LtfState} (hooks : NoHooks state) (earlier : List StateTest) (test : StateTest) :
    NoHooks (recorded state earlier test) := by
  intro fn
  have same : ltfGetHooks (recorded state earlier test) fn = ltfGetHooks state fn := by cases fn <;> rfl
  exact same.trans (hooks fn)

/-- A runner in which a run can start: no test has been recorded or counted. -/
structure Fresh (r : Runner) : Prop where
  stage : r.state.currentStage = .test
  hooks : NoHooks r.state
  tests : r.state.tests = some []
  passed : r.state.passedAmount = 0
  failed : r.state.failedAmount = 0
  finished : r.state.finishedAmount = 0

theorem ltfStateNew_fresh (projectName ltfVersion os osVersion : CStr) (target : Option CStr) (tags : List CStr)
    (amount : Nat) : Fresh { state := ltfStateNew projectName ltfVersion os osVersion target tags amount } := by
  refine ⟨rfl, ?_, rfl, rfl, rfl, rfl⟩
  intro fn
  cases fn <;> rfl

/-- The entries of the ledger after some tests. -/
structure Entered (done : List TestCase) (state : LtfState) : Prop where
  stage : state.currentStage = .test
  hooks : NoHooks state
  records : ∃ records, state.tests = some records ∧ List.Forall₂ RecordOf done records
  passed : state.passedAmount = done.countP bodyPasses
  failed : state.failedAmount = done.countP (!bodyPasses ·)
  finished : state.finishedAmount = done.length

structure Ledger (done : List TestCase) (loop : Loop) : Prop where
  entered : Entered done loop.runner.state
  index : loop.index = done.length
  passed : loop.passed = loop.runner.state.passedAmount

theorem hooks_none {env : Env} {r : Runner} (hooks : NoHooks r.state) (stage : r.state.currentStage = .test)
    (fn : HookFn) :
    ltfHooksRun env fn r = .ok r := by
  have same : { r.state with currentStage := .test } = r.state := by rw [← stage]
  have calls : hookCalls r.state fn = [] := by rw [hookCalls, hooks fn, callsAt, List.map_nil]
  simp only [ltfHooksRun, calls, List.length_nil, if_true, same]
  rfl

/-- The part of an iteration in which the body runs and is judged. -/
def judge (env : Env) (tc : TestCase) (r : Runner) : Process (Runner × Bool) := do
  let r ← beginTest env tc r
  let r ← callBody env tc r
  reportBody env tc r

def newRecord (env : Env) (tc : TestCase) (r : Runner) : StateTest where
  started := some (env.clock r.ticks)
  name := some tc.name
  description := tc.desc
  status := .running
  tags := some ((tc.tags.getD []).map some)
  outputs := some []
  failureReasons := some []
  teardownOutputs := some []
  teardownErrors := some []

/-- A test has begun: its record is the last one, and nothing marks it yet. -/
def begun (env : Env) (tc : TestCase) (r : Runner) : Runner :=
  ltfStateTestStarted env tc { r with testMarkedFailed := false }

theorem begun_state (env : Env) (tc : TestCase) {r : Runner} {records : List StateTest}
    (tests : r.state.tests = some records) :
    (begun env tc r).state = recorded r.state records (newRecord env tc r) := by
  simp [begun, ltfStateTestStarted, Runner.emit, Runner.tick, recorded, newRecord, tests, daAppend]

theorem test_begins (env : Env) (tc : TestCase) {r : Runner} {records : List StateTest} (hooks : NoHooks r.state)
    (stage : r.state.currentStage = .test) (tests : r.state.tests = some records) :
    beginTest env tc r = .ok (begun env tc r) := by
  have state := begun_state env tc tests
  have begunHooks : NoHooks (begun env tc r).state := state ▸ hooks.kept records (newRecord env tc r)
  have begunStage : (begun env tc r).state.currentStage = .test := by rw [state, recorded_stage, stage]
  exact hooks_none begunHooks begunStage .testStarted

theorem stamped_errors (env : Env) (tick : Nat) (calls : List LogCall) :
    (stamped env tick calls).filter (·.level = some .error) = [] ↔ calls.any (·.level == .error) = false := by
  induction calls generalizing tick with
  | nil => simp [stamped]
  | cons call calls ih =>
    by_cases error : call.level = .error
    · simp [stamped, logOutput, error]
    · simpa [stamped, logOutput, error] using ih (tick + 1)

/-- The record of a test whose body has run: it is still running and has the errors as reasons. -/
def bodyRecord (env : Env) (tc : TestCase) (r : Runner) (tick : Nat) : StateTest :=
  { newRecord env tc r with
    outputs := some (stamped env tick tc.body.logs)
    failureReasons := some ((stamped env tick tc.body.logs).filter (·.level = some .error)) }

theorem bodyRecord_eq (env : Env) (tc : TestCase) (r : Runner) (tick : Nat) :
    (stamped env tick tc.body.logs).foldl takeLog (newRecord env tc r) = bodyRecord env tc r tick := by
  rw [takeLogs_running rfl]
  simp [foldl_daAppend, newRecord, bodyRecord]

theorem reported_reasons (env : Env) (r : Runner) (tick : Nat) {tc : TestCase} {left : Runner}
    (marked : left.testMarkedFailed = tc.body.logsError) :
    (reportedRecord env tc left (bodyRecord env tc r tick)).failureReasons = some [] ↔ bodyPasses tc := by
  cases outcome : tc.body.outcome with
  | failed value =>
    simp [reportedRecord, bodyPasses, LuaCode.fails_failed outcome, outcome, failedRecord, bodyRecord, daAppend]
  | returned =>
    have errors := stamped_errors env tick tc.body.logs
    cases error : tc.body.logsError with
    | true =>
      have some_error : ¬ tc.body.logs.any (·.level == .error) = false := by simpa [LuaCode.logsError] using error
      rw [← errors] at some_error
      simpa [reportedRecord, bodyPasses, outcome, error, marked, failedRecord, bodyRecord] using some_error
    | false =>
      have no_error : (stamped env tick tc.body.logs).filter (·.level = some .error) = [] := errors.mpr error
      simp [reportedRecord, bodyPasses, LuaCode.fails_returned outcome, outcome, error, marked, passedRecord,
        bodyRecord, no_error]

/-- The runner when the body has been left. -/
def left (env : Env) (tc : TestCase) (r : Runner) (records : List StateTest) : Runner :=
  (ran env ((begun env tc r).push 2) records (newRecord env tc r) tc.body.actions).pop 2

def judgedRecord (env : Env) (tc : TestCase) (r : Runner) (records : List StateTest) : StateTest :=
  reportedRecord env tc (left env tc r records) (bodyRecord env tc r (begun env tc r).ticks)

def judgedRunner (env : Env) (tc : TestCase) (r : Runner) (records : List StateTest) : Runner :=
  settled (left env tc r records) records (judgedRecord env tc r records) (bodyPasses tc)

theorem left_marked (env : Env) (tc : TestCase) (r : Runner) (records : List StateTest) :
    (left env tc r records).testMarkedFailed = tc.body.logsError := by
  simp [left, ran, begun, ltfStateTestStarted, Runner.tick, newRecord, LuaCode.logsError, LuaCode.logs]

theorem left_passes (env : Env) (tc : TestCase) (r : Runner) (records : List StateTest) :
    reportPasses tc (left env tc r records) = bodyPasses tc := by
  rw [reportPasses, left_marked, bodyPasses]

theorem left_state (env : Env) (tc : TestCase) {r : Runner} {records : List StateTest}
    (tests : r.state.tests = some records) :
    (left env tc r records).state = recorded r.state records (bodyRecord env tc r (begun env tc r).ticks) := by
  simp only [left, ran, pop_state, push_state, begun_state env tc tests, recorded_recorded]
  exact congrArg _ (bodyRecord_eq env tc r (begun env tc r).ticks)

/-- Up to the verdict nothing stops a test. -/
theorem judge_eq (env : Env) (tc : TestCase) {r : Runner} {records : List StateTest} (hooks : NoHooks r.state)
    (stage : r.state.currentStage = .test) (tests : r.state.tests = some records) :
    judge env tc r = .ok (judgedRunner env tc r records, bodyPasses tc) := by
  have state := begun_state env tc tests
  have here : At ((begun env tc r).push 2) records (newRecord env tc r) := by simp [At, state]
  have stage' : ((begun env tc r).push 2).state.currentStage = .test := by simpa [state] using stage
  have run : callBody env tc (begun env tc r) = .ok (left env tc r records) :=
    Steps.bind_ok.mpr ⟨_, actions_run env here stage' tc.body.actions, rfl⟩
  have leftHere : At (left env tc r records) records (bodyRecord env tc r (begun env tc r).ticks) := by
    rw [At, left_state env tc tests]
    rfl
  have report := body_reported env leftHere tc
  rw [left_passes] at report
  exact Steps.bind_ok.mpr ⟨_, test_begins env tc hooks stage tests, Steps.bind_ok.mpr ⟨_, run, report⟩⟩

theorem judgedRunner_state (env : Env) (tc : TestCase) {r : Runner} {records : List StateTest}
    (tests : r.state.tests = some records) :
    (judgedRunner env tc r records).state =
      counted r.state records (judgedRecord env tc r records) (bodyPasses tc) := by
  simp only [judgedRunner, settled, counted, left_state env tc tests, recorded_recorded]
  rfl

/-- A test is judged by its body: it passes when the body returns without an error in its log. -/
theorem judgedRecord_fits (env : Env) (tc : TestCase) (r : Runner) (records : List StateTest) :
    RecordOf tc (judgedRecord env tc r records) := by
  have status := reportedRecord_status env tc (left env tc r records) (bodyRecord env tc r (begun env tc r).ticks)
  have reasons := reported_reasons env r (begun env tc r).ticks (left_marked env tc r records)
  rw [left_passes] at status
  refine ⟨reportedRecord_name env tc _ _, ?_, ?_, ?_⟩
  · rw [judgedRecord, status]
    cases bodyPasses tc <;> simp
  · rw [judgedRecord, status]
    cases fails : tc.body.fails <;> cases error : tc.body.logsError <;> simp [bodyPasses, fails, error]
  · rw [judgedRecord, status, reasons]
    cases bodyPasses tc <;> simp

theorem judgedRecord_decided (env : Env) (tc : TestCase) (r : Runner) (records : List StateTest) :
    (judgedRecord env tc r records).status = .passed ∨ (judgedRecord env tc r records).status = .failed := by
  have fits := judgedRecord_fits env tc r records
  cases passes : bodyPasses tc with
  | true => exact .inl (fits.passed.mpr passes)
  | false => exact .inr (fits.failed.mpr (by simpa [bodyPasses, or_iff_not_imp_left] using passes))

theorem Entered.add {done : List TestCase} {tc : TestCase} {state : LtfState} {records : List StateTest}
    {record : StateTest}
    (entered : Entered done state) (tests : state.tests = some records) (fits : RecordOf tc record) :
    Entered (done ++ [tc]) (counted state records record (bodyPasses tc)) := by
  obtain ⟨records', tests', each⟩ := entered.records
  obtain rfl : records' = records := by simpa [tests] using tests'.symm
  refine ⟨entered.stage, ?_, ⟨records' ++ [record], rfl, List.rel_append each (.cons fits .nil)⟩, ?_, ?_, ?_⟩
  · intro fn
    have same : ltfGetHooks (counted state records' record (bodyPasses tc)) fn = ltfGetHooks state fn := by
      cases fn <;> rfl
    exact same.trans (entered.hooks fn)
  · simp [counted, recorded, entered.passed, List.countP_append, List.countP_cons]
  · simp only [counted, recorded, entered.failed, List.countP_append, List.countP_cons, List.countP_nil]
    cases bodyPasses tc <;> simp
  · simp [counted, recorded, entered.finished]

theorem RecordOf.torn {tc : TestCase} {record torn : StateTest} (fits : RecordOf tc record) (same : Torn record torn) :
    RecordOf tc torn := by
  obtain ⟨_, _, _, _, rfl⟩ := same
  exact ⟨fits.name, fits.passed, fits.failed, fits.reasons⟩

/-- What the records say about the tests. -/
def verdicts (r : Runner) : List (Option CStr × TestStatus × Option CStr × DaPtr TestOutput) :=
  r.tests.map fun test => (test.name, test.status, test.statusStr, test.failureReasons)

def counters (r : Runner) : Nat × Nat × Nat := (r.state.passedAmount, r.state.failedAmount, r.state.finishedAmount)

theorem runIteration_eq (env : Env) (loop : Loop) (tc : TestCase) :
    runIteration env loop tc = judge env tc loop.runner >>= fun judged => do
      let r ← runDeferred env (deferStatus tc.body.outcome) judged.1
      if env.sigint loop.index then .error (.exit 130)
      else
        let r ← ltfHooksRun env .testFinished r
        return { index := loop.index + 1, passed := loop.passed + (if judged.2 then 1 else 0), runner := r } := by
  simp only [runIteration, judge, bind_assoc]

/-- One iteration: the teardown changes no verdict and no counter, and an interrupt ends the process. -/
theorem iteration_enters (env : Env) {done : List TestCase} {loop : Loop} (ledger : Ledger done loop) (tc : TestCase) :
    ∃ judged torn, judge env tc loop.runner = .ok (judged, bodyPasses tc) ∧
      runDeferred env (deferStatus tc.body.outcome) judged = .ok torn ∧
      verdicts torn = verdicts judged ∧ counters torn = counters judged ∧
      Entered (done ++ [tc]) torn.state ∧ torn.state.passedAmount = loop.passed + (if bodyPasses tc then 1 else 0) ∧
      runIteration env loop tc =
        if env.sigint loop.index then .error (.exit 130)
        else .ok {
          index := loop.index + 1, passed := loop.passed + (if bodyPasses tc then 1 else 0), runner := torn } := by
  obtain ⟨entered, _, passed⟩ := ledger
  obtain ⟨records, tests, _⟩ := entered.records
  let judged := judgedRunner env tc loop.runner records
  have judgement : judge env tc loop.runner = .ok (judged, bodyPasses tc) :=
    judge_eq env tc entered.hooks entered.stage tests
  have state : judged.state =
      counted loop.runner.state records (judgedRecord env tc loop.runner records) (bodyPasses tc) :=
    judgedRunner_state env tc tests
  have fits := judgedRecord_fits env tc loop.runner records
  have here : At judged records (judgedRecord env tc loop.runner records) := by rw [At, state]; rfl
  have stage : judged.state.currentStage = .test := by rw [state]; exact entered.stage
  obtain ⟨torn, last, ran, leaves, _⟩ :=
    run_deferred env (deferStatus tc.body.outcome) here stage (judgedRecord_decided env tc loop.runner records)
  have tornState : torn.state = counted loop.runner.state records last (bodyPasses tc) := by
    rw [leaves.state, state]
    rfl
  have enters : Entered (done ++ [tc]) torn.state := tornState ▸ entered.add tests (fits.torn leaves.torn)
  refine ⟨judged, torn, judgement, ran, ?_, ?_, enters, ?_, ?_⟩
  · obtain ⟨_, _, _, _, rfl⟩ := leaves.torn
    simp [verdicts, Runner.tests, tornState, state, counted]
  · simp [counters, tornState, state, counted]
  · simp [tornState, counted, recorded, passed]
  · rw [runIteration_eq, Steps.bind_of_ok judgement, Steps.bind_of_ok ran, hooks_none enters.hooks enters.stage]
    rfl

theorem runTests_append (env : Env) (first second : List TestCase) (start : Loop) :
    runTests env (first ++ second) start = runTests env first start >>= runTests env second :=
  List.foldlM_append

theorem run_enters {env : Env} {tests : List TestCase} {start : Loop} (ledger : Ledger [] start)
    (quiet : ∀ i < tests.length, env.sigint i = false) :
    ∃ after, runTests env tests start = .ok after ∧ Ledger tests after := by
  induction tests using List.reverseRecOn with
  | nil => exact ⟨start, rfl, ledger⟩
  | append_singleton done tc ih =>
    obtain ⟨before, run, kept⟩ := ih fun i early => quiet i (by simp; omega)
    obtain ⟨judged, torn, _, _, _, _, enters, passed, step⟩ := iteration_enters env kept tc
    rw [quiet before.index (by simp [kept.index])] at step
    let after : Loop := {
      index := before.index + 1
      passed := before.passed + (if bodyPasses tc then 1 else 0)
      runner := torn }
    refine ⟨after, ?_, enters, ?_, passed.symm⟩
    · rw [runTests_append, Steps.bind_of_ok run]
      simpa [runTests] using step
    · simp [after, kept.index]

/-- The first interrupt that is noticed ends the run after the teardown of its test. -/
theorem run_interrupted {env : Env} {tests : List TestCase} {start : Loop} (ledger : Ledger [] start)
    (interrupted : ∃ i < tests.length, env.sigint i = true) : runTests env tests start = .error (.exit 130) := by
  classical
  obtain ⟨early, noticed⟩ := Nat.find_spec interrupted
  let first := Nat.find interrupted
  have before : ∀ i < (tests.take first).length, env.sigint i = false := by
    intro i small
    have below : i < first := by simp at small; omega
    have not_yet := Nat.find_min interrupted below
    simpa [show i < tests.length by omega] using not_yet
  obtain ⟨loop, run, kept⟩ := run_enters ledger before
  obtain ⟨_, _, _, _, _, _, _, _, step⟩ := iteration_enters env kept tests[first]
  have index : loop.index = first := by rw [kept.index, List.length_take]; omega
  rw [index, show env.sigint first = true from noticed] at step
  have split : tests = tests.take first ++ tests[first] :: tests.drop (first + 1) := by simp
  rw [split, runTests_append, Steps.bind_of_ok run]
  exact Steps.bind_of_error step

/-- What can be read off the state after some iterations. -/
structure OnRecord (done : List TestCase) (r : Runner) : Prop where
  amounts : r.state.passedAmount + r.state.failedAmount = r.state.finishedAmount
  finished : r.state.finishedAmount = r.tests.length
  iterated : r.tests.length = done.length
  records : List.Forall₂ RecordOf done r.tests

theorem Entered.onRecord {done : List TestCase} {r : Runner} (entered : Entered done r.state) : OnRecord done r := by
  obtain ⟨records, tests, each⟩ := entered.records
  have known : r.tests = records := by rw [Runner.tests, tests]; rfl
  refine ⟨?_, ?_, ?_, known ▸ each⟩
  · have both := List.length_eq_countP_add_countP bodyPasses (l := done)
    rw [entered.passed, entered.failed, entered.finished]
    simpa using both.symm
  · rw [entered.finished, known, each.length_eq]
  · rw [known, each.length_eq]

theorem records_passed {tests : List TestCase} {records : List StateTest} (each : List.Forall₂ RecordOf tests records) :
    (∀ record ∈ records, record.status = .passed) ↔ ∀ tc ∈ tests, bodyPasses tc = true := by
  induction each with
  | nil => simp
  | cons fits _ ih => simp [fits.passed, ih]

/-- The loop or the whole run ends early only when an interrupt has arrived by then. -/
def Interrupted (env : Env) (iterations : Nat) : Prop := ∃ i < iterations, env.sigint i = true

theorem Fresh.begins_eq {r : Runner} (fresh : Fresh r) (env : Env) :
    beginRun env r = .ok { index := 0, passed := 0, runner := ltfStateTestRunStarted env r } := by
  have quiet : ltfHooksRun env .testRunStarted (ltfStateTestRunStarted env r) = .ok (ltfStateTestRunStarted env r) :=
    hooks_none (r := ltfStateTestRunStarted env r) fresh.hooks fresh.stage _
  rw [beginRun, Steps.bind_ok]
  exact ⟨_, quiet, rfl⟩

theorem Fresh.begins {r : Runner} (fresh : Fresh r) (env : Env) :
    ∃ start, beginRun env r = .ok start ∧ Ledger [] start := by
  refine ⟨_, fresh.begins_eq env, ?_, rfl, fresh.passed.symm⟩
  exact ⟨fresh.stage, fresh.hooks, ⟨[], fresh.tests, .nil⟩, fresh.passed, fresh.failed, fresh.finished⟩

theorem run_uninterrupted {env : Env} {tests : List TestCase} {start : Loop} (ledger : Ledger [] start)
    (calm : ¬ Interrupted env tests.length) : ∃ after, runTests env tests start = .ok after ∧ Ledger tests after := by
  apply run_enters ledger
  intro i early
  simpa using fun noticed => calm ⟨i, early, noticed⟩

theorem run_ends_eq {env : Env} {tests : List TestCase} {r : Runner} {start after : Loop}
    (begins : beginRun env r = .ok start) (run : runTests env tests start = .ok after)
    (hooks : NoHooks after.runner.state) (stage : after.runner.state.currentStage = .test) :
    runAllTests env tests r =
      .ok (if after.passed = tests.length then exitSuccess else exitFailure,
        ltfStateTestRunFinished env after.runner) := by
  have quiet : ltfHooksRun env .testRunFinished (ltfStateTestRunFinished env after.runner) =
      .ok (ltfStateTestRunFinished env after.runner) :=
    hooks_none (r := ltfStateTestRunFinished env after.runner) hooks stage _
  rw [runAllTests, Steps.bind_of_ok begins, Steps.bind_of_ok run, Steps.bind_of_ok quiet]
  rfl

/-- The ledger after the last test is that of the run, and the exit code is read off it. -/
theorem run_ends {env : Env} {tests : List TestCase} {r : Runner} {start after : Loop}
    (begins : beginRun env r = .ok start)
    (run : runTests env tests start = .ok after) (kept : Ledger tests after) :
    ∃ code final, runAllTests env tests r = .ok (code, final) ∧
      OnRecord tests final ∧ (code = exitSuccess ↔ ∀ record ∈ final.tests, record.status = .passed) := by
  let final := ltfStateTestRunFinished env after.runner
  have ended : Entered tests final.state :=
    ⟨kept.entered.stage, kept.entered.hooks, kept.entered.records, kept.entered.passed, kept.entered.failed,
      kept.entered.finished⟩
  refine ⟨_, final, run_ends_eq begins run kept.entered.hooks kept.entered.stage, ended.onRecord, ?_⟩
  rw [records_passed ended.onRecord.records, kept.passed, kept.entered.passed, ← List.countP_eq_length]
  split
  next all => simp [all]
  next some_failed => simp [some_failed, exitSuccess, exitFailure]

/-- After every iteration the state tells what the bodies did, the teardown of a test
is not entered, and the exit code tells whether every record is passed. -/
theorem run_all_tests_on_record (env : Env) (tests : List TestCase) (r : Runner) (fresh : Fresh r) :
    ∃ start, beginRun env r = .ok start ∧
      (∀ done rest, tests = done ++ rest →
        (Interrupted env done.length → runTests env done start = .error (.exit 130)) ∧
        (¬ Interrupted env done.length → ∃ after, runTests env done start = .ok after ∧ OnRecord done after.runner)) ∧
      (∀ done tc rest before, tests = done ++ tc :: rest → runTests env done start = .ok before →
        ∃ judged ok torn, judge env tc before.runner = .ok (judged, ok) ∧
          runDeferred env (deferStatus tc.body.outcome) judged = .ok torn ∧
          verdicts torn = verdicts judged ∧ counters torn = counters judged) ∧
      (Interrupted env tests.length → runAllTests env tests r = .error (.exit 130)) ∧
      (¬ Interrupted env tests.length → ∃ code final, runAllTests env tests r = .ok (code, final) ∧
        OnRecord tests final ∧ (code = exitSuccess ↔ ∀ record ∈ final.tests, record.status = .passed)) := by
  obtain ⟨start, begins, ledger⟩ := fresh.begins env
  refine ⟨start, begins, ?_, ?_, ?_, ?_⟩
  · intro done rest equal
    subst equal
    refine ⟨run_interrupted ledger, ?_⟩
    intro calm
    obtain ⟨after, run, kept⟩ := run_uninterrupted ledger calm
    exact ⟨after, run, kept.entered.onRecord⟩
  · intro done tc rest before equal run
    subst equal
    have calm : ¬ Interrupted env done.length := by
      intro noticed
      rw [run_interrupted ledger noticed] at run
      cases run
    obtain ⟨after, run', kept⟩ := run_uninterrupted ledger calm
    obtain rfl : after = before := by simpa [run'] using run
    obtain ⟨judged, torn, judgement, teardown, same, counted, _⟩ := iteration_enters env kept tc
    exact ⟨judged, _, torn, judgement, teardown, same, counted⟩
  · intro noticed
    rw [runAllTests, Steps.bind_of_ok begins]
    exact Steps.bind_of_error (run_interrupted ledger noticed)
  · intro calm
    obtain ⟨after, run, kept⟩ := run_uninterrupted ledger calm
    exact run_ends begins run kept

def twoTests : List TestCase :=
  let error : LogCall := { level := .error, file := none, line := 1, msg := [98, 97, 100] }
  let cleanup : List LuaValue → LuaCode := fun _ => .mk [.log error] (.failed none)
  [{ name := .lit "first", body := .mk [.defer cleanup []] .returned },
   { name := .lit "second", body := .mk [.log error] .returned }]

theorem run_all_tests_on_record_two_tests :
    ∃ code final, runAllTests plainEnv twoTests newRunner = .ok (code, final) ∧
      OnRecord twoTests final ∧ (code = exitSuccess ↔ ∀ record ∈ final.tests, record.status = .passed) := by
  have fresh : Fresh newRunner := ltfStateNew_fresh _ _ _ _ _ _ _
  obtain ⟨_, _, _, _, _, ends⟩ := run_all_tests_on_record plainEnv twoTests newRunner fresh
  exact ends fun ⟨_, _, noticed⟩ => by cases noticed

end Ltf.Proofs.TestRun
