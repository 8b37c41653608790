import Ltf.Proofs.TestRun

/-! Where the logs of tests go. A stretch of teardown files the logs of the functions it
calls in one record and tells the callbacks of that record; a test files the logs of its
body first, and a run files test after test. -/

namespace Ltf.Proofs.LogPartition
open CString RunnerSteps Teardown TestRun

/-- The output was made for the call. -/
def MadeFor (call : LogCall) (output : TestOutput) : Prop := ∃ time, output = logOutput time call

/-- A list of a record holds these calls, in order and nothing else. -/
def Holds (calls : List LogCall) (list : DaPtr TestOutput) : Prop :=
  ∃ outputs, list = some outputs ∧ List.Forall₂ MadeFor calls outputs

def isDelivery : Event → Bool
  | .testLog .. | .hookLog .. => true
  | _ => false

def deliveries (events : List Event) : List Event := events.filter isDelivery

@[simp] theorem deliveries_append (first rest : List Event) :
    deliveries (first ++ rest) = deliveries first ++ deliveries rest :=
  List.filter_append ..

/-- Every callback is told of every output once, with the record it is in. -/
def told (cbs : List Nat) (record : Nat) (outputs : List TestOutput) : List Event :=
  outputs.flatMap fun output => cbs.map (.testLog · record output)

@[simp] theorem told_append (cbs : List Nat) (record : Nat) (first rest : List TestOutput) :
    told cbs record (first ++ rest) = told cbs record first ++ told cbs record rest :=
  List.flatMap_append ..

/-- All outputs of a record, in the order they were logged. -/
def logged (record : StateTest) : List TestOutput := record.outputs.getD [] ++ record.teardownOutputs.getD []

def toldOf (cbs : List Nat) (first : Nat) (records : List StateTest) : List Event :=
  (records.zipIdx first).flatMap fun (record, i) => told cbs i (logged record)

/-- A test, and the code its teardown runs: the pending functions, the last registered first. -/
structure Issued where
  test : TestCase
  served : List LuaCode

namespace Issued

def teardownLogs (issued : Issued) : List LogCall := issued.served.flatMap LuaCode.logs

def registered (issued : Issued) : Nat :=
  issued.test.body.defers.length + (issued.served.flatMap LuaCode.defers).length

end Issued

def issue (env : Env) (pending : List DeferEntry) (next : Nat) (tc : TestCase) : Issued where
  test := tc
  served := (pending ++ entries next tc.body.defers).reverse.map (calledCode env (deferStatus tc.body.outcome))

/-- What the tests of a run issue. Only the first may find functions that are pending. -/
def issuedBy (env : Env) : List DeferEntry → Nat → List TestCase → List Issued
  | _, _, [] => []
  | pending, next, tc :: rest =>
    issue env pending next tc :: issuedBy env [] (next + (issue env pending next tc).registered) rest

/-- The number of the next function that is deferred. -/
def nextAfter (next : Nat) (issued : List Issued) : Nat := issued.foldl (fun next one => next + one.registered) next

/-- The traceback a failed body leaves, as a reason of failure. -/
def tracebackOutput (time : CStr) (trace : CStr) : TestOutput where
  file := some ((traceLocation trace).1.getD (.lit "unknown"))
  dateTime := some time
  msg := some trace
  msgLen := trace.bytes.length
  line := (traceLocation trace).2
  level := some .critical

/-- At most one traceback, and one exactly when the body failed. -/
def IsTraceback (env : Env) (outcome : LuaOutcome) (reasons : List TestOutput) : Prop :=
  match outcome with
  | .returned => reasons = []
  | .failed value => ∃ time, reasons = [tracebackOutput time (CStr.ofBytes (ltfErrhandler env value))]

/-- The record holds what its test logged and why the test failed. -/
structure Filed (env : Env) (issued : Issued) (record : StateTest) : Prop where
  outputs : Holds issued.test.body.logs record.outputs
  teardown : Holds issued.teardownLogs record.teardownOutputs
  reasons : ∃ errors traceback, record.failureReasons = some (errors ++ traceback) ∧
    List.Forall₂ MadeFor (issued.test.body.logs.filter (·.level = .error)) errors ∧
    IsTraceback env issued.test.body.outcome traceback

/-- The records of the tests that are done partition the logs, and the callbacks were told accordingly. -/
structure Partitioned (env : Env) (r : Runner) (done : List TestCase) (after : Runner) : Prop where
  filed : List.Forall₂ (Filed env) (issuedBy env (r.deferList.getD []) r.nextDefer done) after.tests
  delivered : deliveries after.trace = deliveries r.trace ++ toldOf r.state.testLogCbs 0 after.tests

theorem deliveries_quiet {events : List Event} (quiet : ∀ event ∈ events, isDelivery event = false) :
    deliveries events = [] := by
  simpa [deliveries, List.filter_eq_nil_iff] using quiet

theorem deliveries_emit (r : Runner) {events : List Event} (quiet : ∀ event ∈ events, isDelivery event = false) :
    deliveries (r.emit events).trace = deliveries r.trace := by
  rw [emit_trace, deliveries_append, deliveries_quiet quiet, List.append_nil]

theorem deliveries_callbacks (cbs : List Nat) {news : Nat → Event} (quiet : ∀ cb, isDelivery (news cb) = false) :
    deliveries (.currentTest :: cbs.map news) = [] := by
  apply deliveries_quiet
  intro event member
  simp only [List.mem_cons, List.mem_map] at member
  obtain rfl | ⟨cb, _, rfl⟩ := member
  · rfl
  · exact quiet cb

theorem deliveries_actions (env : Env) (cbs : List Nat) (record tick next : Nat) (actions : List LuaAction) :
    deliveries (actionEvents env cbs record tick next actions) =
      told cbs record (stamped env tick (logCalls actions)) := by
  induction actions generalizing tick next with
  | nil => rfl
  | cons action actions ih =>
    cases action with
    | defer fn args =>
      show deliveries (actionEvents env cbs record tick (next + 1) actions) = _
      rw [ih]
      rfl
    | log call =>
      let output := logOutput (env.clock tick) call
      have all : deliveries (.currentTest :: cbs.map (.testLog · record output)) =
          cbs.map (.testLog · record output) := by
        show (cbs.map (.testLog · record output)).filter isDelivery = _
        apply List.filter_eq_self.mpr
        simp [isDelivery]
      rw [actionEvents, deliveries_append, all, ih]
      rfl

theorem stamped_madeFor (env : Env) (tick : Nat) (calls : List LogCall) :
    List.Forall₂ MadeFor calls (stamped env tick calls) := by
  induction calls generalizing tick with
  | nil => exact .nil
  | cons call calls ih => exact .cons ⟨_, rfl⟩ (ih (tick + 1))

/-- The errors among the outputs are those of the error calls. -/
theorem errors_madeFor {calls : List LogCall} {outputs : List TestOutput} (made : List.Forall₂ MadeFor calls outputs) :
    List.Forall₂ MadeFor (calls.filter (·.level = .error)) (outputs.filter (·.level = some .error)) := by
  induction made with
  | nil => exact .nil
  | @cons call output calls outputs same _ ih =>
    obtain ⟨time, rfl⟩ := same
    have level : (logOutput time call).level = some call.level := rfl
    by_cases error : call.level = .error
    · simpa [error, level] using ⟨⟨time, rfl⟩, ih⟩
    · simpa [error, level] using ih

section Teardown
variable (env : Env) {r : Runner} {earlier : List StateTest} {test : StateTest}

/-- The record is the same up to what its teardown adds, which has these outputs. -/
def TornWith (test : StateTest) (outputs : List TestOutput) (record : StateTest) : Prop :=
  ∃ started ended errors, record = { test with
    teardownStart := started
    teardownEnd := ended
    teardownOutputs := test.teardownOutputs.map (· ++ outputs)
    teardownErrors := errors }

theorem TornWith.unlogged (test : StateTest) (started ended : Option CStr) (errors : DaPtr TestOutput) :
    TornWith test [] { test with teardownStart := started, teardownEnd := ended, teardownErrors := errors } := by
  refine ⟨started, ended, errors, ?_⟩
  simp

theorem TornWith.refl (test : StateTest) : TornWith test [] test :=
  TornWith.unlogged test test.teardownStart test.teardownEnd test.teardownErrors

theorem TornWith.trans {first second third : StateTest} {one two : List TestOutput} (before : TornWith first one second)
    (after : TornWith second two third) : TornWith first (one ++ two) third := by
  obtain ⟨_, _, _, rfl⟩ := before
  obtain ⟨started, ended, errors, rfl⟩ := after
  refine ⟨started, ended, errors, ?_⟩
  cases first.teardownOutputs <;> simp

theorem TornWith.status {record : StateTest} {outputs : List TestOutput} (torn : TornWith test outputs record) :
    record.status = test.status := by
  obtain ⟨_, _, _, rfl⟩ := torn
  rfl

/-- A stretch of teardown in which this code ran: its logs are filed and told of. -/
structure Files (r : Runner) (earlier : List StateTest) (test : StateTest) (served : List LuaCode) (after : Runner)
    (record : StateTest) : Prop where
  state : after.state = recorded r.state earlier record
  next : after.nextDefer = r.nextDefer + (served.flatMap LuaCode.defers).length
  logs : ∃ outputs, List.Forall₂ MadeFor (served.flatMap LuaCode.logs) outputs ∧ TornWith test outputs record ∧
    deliveries after.trace = deliveries r.trace ++ told r.state.testLogCbs earlier.length outputs

theorem Files.here {served : List LuaCode} {after : Runner} {record : StateTest}
    (files : Files r earlier test served after record) : At after earlier record := by
  rw [At, files.state]
  rfl

theorem Files.status {served : List LuaCode} {after : Runner} {record : StateTest}
    (files : Files r earlier test served after record) : record.status = test.status := by
  obtain ⟨_, _, torn, _⟩ := files.logs
  exact torn.status

theorem Files.trans {one two : List LuaCode} {middle after : Runner} {torn record : StateTest}
    (first : Files r earlier test one middle torn) (rest : Files middle earlier torn two after record) :
    Files r earlier test (one ++ two) after record := by
  obtain ⟨outputs, made, tears, trace⟩ := first.logs
  obtain ⟨outputs', made', tears', trace'⟩ := rest.logs
  have cbs : middle.state.testLogCbs = r.state.testLogCbs := by rw [first.state, recorded_testLogCbs]
  refine ⟨by rw [rest.state, first.state, recorded_recorded], ?_, outputs ++ outputs', ?_, tears.trans tears', ?_⟩
  · rw [rest.next, first.next, List.flatMap_append, List.length_append, Nat.add_assoc]
  · rw [List.flatMap_append]
    exact List.rel_append made made'
  · rw [trace', trace, cbs, told_append, List.append_assoc]

/-- The end of a call logs nothing. -/
theorem call_files (here : At r earlier test) (outcome : LuaOutcome) (slots : Nat) {after : Runner}
    (ends : afterCall env outcome slots r = .ok after) : ∃ record, Files r earlier test [] after record := by
  cases outcome with
  | returned =>
    simp only [afterCall, Except.ok.injEq] at ends
    subst ends
    exact ⟨test, here.same.symm, rfl, [], .nil, .refl test, by simp [told]⟩
  | failed value =>
    obtain ⟨reported, failed, result⟩ := Steps.bind_ok.mp ends
    rw [defer_failed env (r := ((r.pop slots).push 1).pop 1) here] at failed
    simp only [pure, Except.pure, Except.ok.injEq] at result failed
    subst result failed
    refine ⟨_, rfl, rfl, [], .nil, .unlogged test _ _ _, ?_⟩
    simp only [pop_trace, push_trace, deliveries_append]
    rw [deliveries_callbacks _ fun _ => rfl]
    rfl

theorem step_files (here : At r earlier test) (stage : r.state.currentStage = .test)
    (teardown : test.status = .teardownAfterPassed ∨ test.status = .teardownAfterFailed)
    (status : CStr) (entry : DeferEntry) {after : Runner} (step : runDeferredStep env status entry r = .ok after) :
    ∃ record, Files r earlier test [calledCode env status entry] after record := by
  let actions := (calledCode env status entry).actions
  let begins := called env status entry r
  let left := ran env begins earlier test actions
  have run : runLua env (calledCode env status entry) begins = .ok left :=
    actions_run env (r := begins) here stage actions
  have files : Files r earlier test [calledCode env status entry] left
      ((stamped env begins.ticks (logCalls actions)).foldl takeLog test) := by
    refine ⟨rfl, ?_, stamped env begins.ticks (logCalls actions), ?_, ?_, ?_⟩
    · simp [left, ran, begins, called, actions, LuaCode.defers]
    · simpa [actions, LuaCode.logs] using stamped_madeFor env begins.ticks (logCalls actions)
    · rw [takeLogs_teardown teardown, foldl_daAppend]
      exact ⟨_, _, _, rfl⟩
    · have invoked : deliveries begins.trace = deliveries r.trace := by
        simp only [begins, called, emit_trace, push_trace, deliveries_append]
        exact List.append_nil _
      simp only [left, ran, deliveries_append, invoked, deliveries_actions]
      rfl
  rw [step_eq, Steps.bind_of_ok run] at step
  obtain ⟨record, ends⟩ := call_files env files.here _ _ step
  exact ⟨record, files.trans ends⟩

theorem loop_files (status : CStr) (i : Nat) (here : At r earlier test) (stage : r.state.currentStage = .test)
    (teardown : test.status = .teardownAfterPassed ∨ test.status = .teardownAfterFailed)
    (bound : i ≤ (r.deferList.getD []).length) {after : Runner} (loop : runDeferredLoop env status i r = .ok after) :
    ∃ record,
      Files r earlier test (((r.deferList.getD []).take i).reverse.map (calledCode env status)) after record := by
  induction i generalizing r test with
  | zero =>
    simp only [runDeferredLoop, pure, Except.pure, Except.ok.injEq] at loop
    subst loop
    exact ⟨test, here.same.symm, rfl, [], .nil, .refl test, (List.append_nil _).symm⟩
  | succ i ih =>
    have inside : i < (r.deferList.getD []).length := bound
    let entry := (r.deferList.getD [])[i]
    rw [runDeferredLoop, List.getElem?_eq_getElem inside, Steps.bind_ok] at loop
    obtain ⟨middle, step, rest⟩ := loop
    obtain ⟨middle', _, step', _, list, _⟩ := deferred_step env here stage teardown status entry
    obtain rfl : middle' = middle := Except.ok.inj (step'.symm.trans step)
    obtain ⟨torn, first⟩ := step_files env here stage teardown status entry step
    have grown : middle'.deferList.getD [] =
        r.deferList.getD [] ++ entries r.nextDefer (calledCode env status entry).defers := by
      rw [list, extend_getD]
    have short : i ≤ (middle'.deferList.getD []).length := by
      rw [grown, List.length_append]
      omega
    have stage' : middle'.state.currentStage = .test := by rw [first.state, recorded_stage, stage]
    obtain ⟨record, files⟩ := ih first.here stage' (first.status ▸ teardown) short rest
    have prior : (middle'.deferList.getD []).take i = (r.deferList.getD []).take i := by
      rw [grown, List.take_append_of_le_length (by omega)]
    have split : (r.deferList.getD []).take (i + 1) = (r.deferList.getD []).take i ++ [entry] :=
      List.take_succ_eq_append_getElem inside
    refine ⟨record, ?_⟩
    rw [split, List.reverse_append, List.map_append, ← prior]
    exact first.trans files

/-- A queue files the logs of all functions that were pending when it started, the last registered first. -/
theorem queue_files (status : CStr) (here : At r earlier test) (stage : r.state.currentStage = .test)
    (judged : test.status = .passed ∨ test.status = .failed) :
    ∃ after record, runDeferred env status r = .ok after ∧ after.deferList = none ∧
      Files r earlier test ((r.deferList.getD []).reverse.map (calledCode env status)) after record := by
  cases pending : r.deferList with
  | none =>
    refine ⟨r, test, ?_, pending, here.same.symm, rfl, [], .nil, .refl test, (List.append_nil _).symm⟩
    rw [runDeferred, pending]
    rfl
  | some list =>
    let entered := enterTeardown env (r.push 1) earlier test
    have started := queue_started env (r := r.push 1) here
    have enteredHere : At entered earlier (tearingRecord env (r.push 1) test) := rfl
    have enteredList : entered.deferList.getD [] = list := by simp [entered, enterTeardown, pending]
    have bound : list.length ≤ (entered.deferList.getD []).length := by rw [enteredList]
    have teardown := teardownStatus_of_judged judged
    obtain ⟨served, _, loop, _⟩ := deferred_loop env status list.length enteredHere stage teardown bound
    obtain ⟨torn, files⟩ := loop_files env status list.length enteredHere stage teardown bound loop
    have finished := queue_finished env files.here
    refine ⟨{ leaveTeardown env served earlier torn with deferList := none }, tornRecord env served torn, ?_, rfl, ?_⟩
    · rw [runDeferred, pending]
      exact Steps.bind_ok.mpr ⟨_, started, Steps.bind_ok.mpr ⟨_, loop, Steps.bind_ok.mpr ⟨_, finished, rfl⟩⟩⟩
    rw [enteredList, List.take_length] at files
    obtain ⟨outputs, made, tears, trace⟩ := files.logs
    have verdict : verdictStatus torn.status = test.status := by
      rw [files.status]
      exact verdictStatus_teardown judged
    refine ⟨?_, files.next, outputs, made, ?_, ?_⟩
    · simp only [leaveTeardown, files.state, entered, enterTeardown, recorded_recorded, push_state]
    · obtain ⟨_, _, _, same⟩ := tears
      rw [tornRecord, verdict, same]
      exact ⟨_, _, _, rfl⟩
    · simp only [leaveTeardown, deliveries_append, trace]
      rw [deliveries_callbacks _ fun _ => rfl]
      simp only [entered, enterTeardown, deliveries_append]
      rw [deliveries_callbacks _ fun _ => rfl]
      simp

end Teardown

section Body
variable (env : Env) (tc : TestCase) {r : Runner} {records : List StateTest}

def bodyOutputs (env : Env) (tc : TestCase) (r : Runner) : List TestOutput :=
  stamped env (begun env tc r).ticks tc.body.logs

theorem judgedRecord_outputs : (judgedRecord env tc r records).outputs = some (bodyOutputs env tc r) := by
  cases outcome : tc.body.outcome <;> cases marked : (left env tc r records).testMarkedFailed <;>
    simp [judgedRecord, reportedRecord, outcome, marked, passedRecord, failedRecord, bodyRecord, bodyOutputs]

theorem judgedRecord_teardownOutputs : (judgedRecord env tc r records).teardownOutputs = some [] := by
  cases outcome : tc.body.outcome <;> cases marked : (left env tc r records).testMarkedFailed <;>
    simp [judgedRecord, reportedRecord, outcome, marked, passedRecord, failedRecord, bodyRecord, newRecord]

/-- The reasons are the errors of the body and, after an error of the body itself, its traceback. -/
theorem judgedRecord_reasons :
    ∃ traceback, (judgedRecord env tc r records).failureReasons =
        some ((bodyOutputs env tc r).filter (·.level = some .error) ++ traceback) ∧
      IsTraceback env tc.body.outcome traceback := by
  cases outcome : tc.body.outcome with
  | returned =>
    refine ⟨[], ?_, rfl⟩
    cases marked : (left env tc r records).testMarkedFailed <;>
      simp [judgedRecord, reportedRecord, outcome, marked, passedRecord, failedRecord, bodyRecord, bodyOutputs]
  | failed value =>
    refine ⟨[_], ?_, env.clock (left env tc r records).ticks, rfl⟩
    simp [judgedRecord, reportedRecord, outcome, failedRecord, bodyRecord, bodyOutputs, daAppend, failureOutput,
      tracebackOutput]

theorem judgedRunner_trace (tests : r.state.tests = some records) :
    deliveries (judgedRunner env tc r records).trace =
      deliveries r.trace ++ told r.state.testLogCbs records.length (bodyOutputs env tc r) := by
  have state := begun_state env tc tests
  have begins : deliveries (begun env tc r).trace = deliveries r.trace := by
    apply deliveries_emit
    simp [isDelivery]
  simp only [judgedRunner, settled, deliveries_append]
  rw [deliveries_callbacks _ fun _ => rfl]
  simp only [left, ran, pop_trace, push_trace, push_state, deliveries_append, deliveries_actions, begins, state,
    recorded_testLogCbs, List.append_nil]
  rfl

theorem judgedRunner_deferList :
    (judgedRunner env tc r records).deferList.getD [] =
      r.deferList.getD [] ++ entries r.nextDefer tc.body.defers := by
  simp [judgedRunner, settled, left, ran, begun, ltfStateTestStarted, Runner.tick, LuaCode.defers]

theorem judgedRunner_nextDefer :
    (judgedRunner env tc r records).nextDefer = r.nextDefer + tc.body.defers.length := by
  simp [judgedRunner, settled, left, ran, begun, ltfStateTestStarted, Runner.tick, LuaCode.defers]

end Body

/-- A runner between two tests: these are the records so far. -/
structure Ready (r : Runner) (records : List StateTest) : Prop where
  hooks : NoHooks r.state
  stage : r.state.currentStage = .test
  tests : r.state.tests = some records

theorem Ready.add {r after : Runner} {records : List StateTest} {record : StateTest} {passes : Bool}
    (ready : Ready r records) (state : after.state = counted r.state records record passes) :
    Ready after (records ++ [record]) := by
  refine ⟨?_, ?_, by rw [state]; rfl⟩
  · intro fn
    have same : ltfGetHooks after.state fn = ltfGetHooks r.state fn := by rw [state]; cases fn <;> rfl
    exact same.trans (ready.hooks fn)
  · rw [state]
    exact ready.stage

/-- A test from its start to the end of its teardown. -/
structure TestFiled (env : Env) (tc : TestCase) (r : Runner) (records : List StateTest) (torn : Runner)
    (record : StateTest) : Prop where
  state : torn.state = counted r.state records record (bodyPasses tc)
  filed : Filed env (issue env (r.deferList.getD []) r.nextDefer tc) record
  empty : torn.deferList = none
  next : torn.nextDefer = r.nextDefer + (issue env (r.deferList.getD []) r.nextDefer tc).registered
  trace : deliveries torn.trace = deliveries r.trace ++ told r.state.testLogCbs records.length (logged record)

theorem test_filed (env : Env) (tc : TestCase) {r : Runner} {records : List StateTest} (ready : Ready r records) :
    ∃ torn record, judge env tc r = .ok (judgedRunner env tc r records, bodyPasses tc) ∧
      runDeferred env (deferStatus tc.body.outcome) (judgedRunner env tc r records) = .ok torn ∧
      TestFiled env tc r records torn record := by
  let judged := judgedRunner env tc r records
  have state := judgedRunner_state env tc ready.tests
  have here : At judged records (judgedRecord env tc r records) := by rw [At, state]; rfl
  have stage : judged.state.currentStage = .test := by rw [state]; exact ready.stage
  have cbs : judged.state.testLogCbs = r.state.testLogCbs := by rw [state]; rfl
  obtain ⟨torn, record, run, empty, files⟩ :=
    queue_files env (deferStatus tc.body.outcome) here stage (judgedRecord_decided env tc r records)
  have served : (judged.deferList.getD []).reverse.map (calledCode env (deferStatus tc.body.outcome)) =
      (issue env (r.deferList.getD []) r.nextDefer tc).served := by
    rw [judgedRunner_deferList]
    rfl
  rw [served] at files
  obtain ⟨outputs, made, ⟨_, _, _, same⟩, trace⟩ := files.logs
  obtain ⟨traceback, reasons, one⟩ := @judgedRecord_reasons env tc r records
  have logs : List.Forall₂ MadeFor tc.body.logs (bodyOutputs env tc r) := stamped_madeFor env _ _
  have body : record.outputs = some (bodyOutputs env tc r) := by
    rw [same]
    exact judgedRecord_outputs env tc
  have teardown : record.teardownOutputs = some outputs := by
    rw [same, judgedRecord_teardownOutputs]
    rfl
  refine ⟨torn, record, judge_eq env tc ready.hooks ready.stage ready.tests, run, ?_, ⟨?_, ?_, ?_⟩, empty, ?_, ?_⟩
  · rw [files.state, state]
    rfl
  · exact ⟨_, body, logs⟩
  · exact ⟨outputs, teardown, made⟩
  · exact ⟨_, traceback, by rw [same]; exact reasons, errors_madeFor logs, one⟩
  · rw [files.next, judgedRunner_nextDefer, Nat.add_assoc]
    rfl
  · rw [trace, judgedRunner_trace env tc ready.tests, cbs, List.append_assoc, ← told_append, logged, body, teardown]
    rfl

theorem issuedBy_concat (env : Env) (pending : List DeferEntry) (next : Nat) (done : List TestCase) (tc : TestCase) :
    issuedBy env pending next (done ++ [tc]) = issuedBy env pending next done ++
      [issue env (if done.isEmpty then pending else [])
        (nextAfter next (issuedBy env pending next done)) tc] := by
  induction done generalizing pending next with
  | nil => rfl
  | cons first done ih =>
    rw [List.cons_append, issuedBy, ih]
    simp [issuedBy, nextAfter]

theorem toldOf_concat (cbs : List Nat) (first : Nat) (records : List StateTest) (record : StateTest) :
    toldOf cbs first (records ++ [record]) =
      toldOf cbs first records ++ told cbs (first + records.length) (logged record) := by
  simp [toldOf, List.zipIdx_append]

/-- What some iterations of the loop leave, the runner in which the run starts given. -/
structure Filing (env : Env) (r : Runner) (done : List TestCase) (after : Runner) (records : List StateTest) :
    Prop where
  ready : Ready after records
  cbs : after.state.testLogCbs = r.state.testLogCbs
  pending : after.deferList.getD [] = if done.isEmpty then r.deferList.getD [] else []
  next : after.nextDefer = nextAfter r.nextDefer (issuedBy env (r.deferList.getD []) r.nextDefer done)
  filed : List.Forall₂ (Filed env) (issuedBy env (r.deferList.getD []) r.nextDefer done) records
  trace : deliveries after.trace = deliveries r.trace ++ toldOf r.state.testLogCbs 0 records

theorem Filing.partitioned {env : Env} {r after : Runner} {done : List TestCase} {records : List StateTest}
    (filing : Filing env r done after records) : Partitioned env r done after := by
  have known : after.tests = records := by rw [Runner.tests, filing.ready.tests]; rfl
  exact ⟨known ▸ filing.filed, known ▸ filing.trace⟩

theorem Filing.add {env : Env} {r middle torn : Runner} {done : List TestCase} {tc : TestCase}
    {records : List StateTest} {record : StateTest} (filing : Filing env r done middle records)
    (test : TestFiled env tc middle records torn record) :
    Filing env r (done ++ [tc]) torn (records ++ [record]) := by
  have issued : issue env (middle.deferList.getD []) middle.nextDefer tc =
      issue env (if done.isEmpty then r.deferList.getD [] else [])
        (nextAfter r.nextDefer (issuedBy env (r.deferList.getD []) r.nextDefer done)) tc := by
    rw [filing.pending, filing.next]
  refine ⟨filing.ready.add test.state, ?_, ?_, ?_, ?_, ?_⟩
  · rw [test.state]
    exact filing.cbs
  · simp [test.empty]
  · rw [test.next, issued, issuedBy_concat, filing.next]
    simp [nextAfter]
  · rw [issuedBy_concat, ← issued]
    exact List.rel_append filing.filed (.cons test.filed .nil)
  · rw [test.trace, filing.trace, filing.cbs, toldOf_concat, Nat.zero_add, List.append_assoc]

theorem iteration_files {env : Env} {r : Runner} {done : List TestCase} {tc : TestCase} {before after : Loop}
    {records : List StateTest} (filing : Filing env r done before.runner records)
    (ran : runIteration env before tc = .ok after) :
    ∃ record, Filing env r (done ++ [tc]) after.runner (records ++ [record]) := by
  obtain ⟨torn, record, judgement, teardown, test⟩ := test_filed env tc filing.ready
  have filed := filing.add test
  rw [runIteration_eq, Steps.bind_of_ok judgement, Steps.bind_of_ok teardown] at ran
  split at ran
  · cases ran
  · rw [hooks_none filed.ready.hooks filed.ready.stage] at ran
    cases ran
    exact ⟨record, filed⟩

theorem run_files {env : Env} {r : Runner} {start after : Loop} {tests : List TestCase}
    (filing : Filing env r [] start.runner []) (ran : runTests env tests start = .ok after) :
    ∃ records, Filing env r tests after.runner records := by
  have each : ∀ done tc before after, (∃ records, Filing env r done before.runner records) →
      runIteration env before tc = .ok after → ∃ records, Filing env r (done ++ [tc]) after.runner records := by
    rintro done tc before after ⟨records, kept⟩ step
    obtain ⟨record, filed⟩ := iteration_files kept step
    exact ⟨records ++ [record], filed⟩
  simpa using Steps.loop_ok (fun done loop => ∃ records, Filing env r done loop.runner records) each ⟨[], filing⟩ ran

theorem begins_filing (env : Env) {r : Runner} (fresh : Fresh r) :
    Filing env r [] (ltfStateTestRunStarted env r) [] := by
  refine ⟨⟨fresh.hooks, fresh.stage, fresh.tests⟩, rfl, rfl, rfl, .nil, ?_⟩
  refine (deliveries_emit _ ?_).trans (List.append_nil _).symm
  simp [isDelivery]

theorem ends_filing {env : Env} {r after : Runner} {tests : List TestCase} {records : List StateTest}
    (filing : Filing env r tests after records) : Filing env r tests (ltfStateTestRunFinished env after) records := by
  obtain ⟨⟨hooks, stage, tests'⟩, cbs, pending, next, filed, trace⟩ := filing
  refine ⟨⟨hooks, stage, tests'⟩, cbs, pending, next, filed, ?_⟩
  refine (deliveries_emit _ ?_).trans trace
  simp [isDelivery]

/-- At the end of every teardown and at the end of the run, the records partition what was logged. -/
theorem run_all_tests_partitioned (env : Env) (tests : List TestCase) (r : Runner) (fresh : Fresh r) :
    ∃ start, beginRun env r = .ok start ∧
      (∀ done tc rest before, tests = done ++ tc :: rest → runTests env done start = .ok before →
        ∃ judged ok torn, judge env tc before.runner = .ok (judged, ok) ∧
          runDeferred env (deferStatus tc.body.outcome) judged = .ok torn ∧
          Partitioned env r (done ++ [tc]) torn) ∧
      (Interrupted env tests.length → runAllTests env tests r = .error (.exit 130)) ∧
      (¬ Interrupted env tests.length →
        ∃ code final, runAllTests env tests r = .ok (code, final) ∧ Partitioned env r tests final) := by
  have begins := fresh.begins_eq env
  have filing := begins_filing env fresh
  obtain ⟨start, begins', ledger⟩ := fresh.begins env
  obtain rfl := Except.ok.inj (begins'.symm.trans begins)
  refine ⟨_, begins, ?_, ?_, ?_⟩
  · intro done tc rest before _ run
    obtain ⟨records, filed⟩ := run_files filing run
    obtain ⟨torn, record, judgement, teardown, test⟩ := test_filed env tc filed.ready
    exact ⟨_, _, torn, judgement, teardown, (filed.add test).partitioned⟩
  · intro noticed
    rw [runAllTests, Steps.bind_of_ok begins]
    exact Steps.bind_of_error (run_interrupted ledger noticed)
  · intro calm
    obtain ⟨after, run, _⟩ := run_uninterrupted ledger calm
    obtain ⟨records, filed⟩ := run_files filing run
    exact ⟨_, _, run_ends_eq begins run filed.ready.hooks filed.ready.stage, (ends_filing filed).partitioned⟩

theorem run_all_tests_partitioned_two_tests :
    ∃ code final, runAllTests plainEnv twoTests newRunner = .ok (code, final) ∧
      Partitioned plainEnv newRunner twoTests final := by
  have fresh : Fresh newRunner := ltfStateNew_fresh _ _ _ _ _ _ _
  obtain ⟨_, _, _, _, ends⟩ := run_all_tests_partitioned plainEnv twoTests newRunner fresh
  exact ends fun ⟨_, _, noticed⟩ => by cases noticed

end Ltf.Proofs.LogPartition
