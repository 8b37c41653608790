import Ltf.Base.Lifo
import Ltf.Proofs.RunnerSteps

/-! What the defer queue does to a run: the verdict of the record is out of its reach,
and its calls follow the list as it was when the queue started. -/

namespace Ltf.Proofs.Teardown
open CString RunnerSteps

/-- A registration or an invocation, seen as an operation on the pending functions. -/
abbrev DeferOp := Lifo.Op DeferEntry (DeferEntry × List LuaValue)

def deferOp : Event → Option DeferOp
  | .deferRegistered entry => some (.push entry)
  | .deferInvoked entry args => some (.pop (entry, args))
  | _ => none

def deferOps (events : List Event) : List DeferOp := events.filterMap deferOp

@[simp] theorem deferOps_append (first rest : List Event) :
    deferOps (first ++ rest) = deferOps first ++ deferOps rest :=
  List.filterMap_append

theorem deferOps_quiet {events : List Event} (quiet : ∀ event ∈ events, deferOp event = none) :
    deferOps events = [] := by
  simpa [deferOps, List.filterMap_eq_nil_iff] using quiet

theorem deferOps_callbacks (cbs : List Nat) {news : Nat → Event} (quiet : ∀ cb, deferOp (news cb) = none) :
    deferOps (.currentTest :: cbs.map news) = [] := by
  apply deferOps_quiet
  intro event told
  simp only [List.mem_cons, List.mem_map] at told
  obtain rfl | ⟨cb, _, rfl⟩ := told
  · rfl
  · exact quiet cb

theorem deferOps_actions (env : Env) (cbs : List Nat) (record tick next : Nat) (actions : List LuaAction) :
    deferOps (actionEvents env cbs record tick next actions) =
      (entries next (registrations actions)).map .push := by
  induction actions generalizing tick next with
  | nil => rfl
  | cons action actions ih =>
    cases action with
    | log call =>
      rw [actionEvents, deferOps_append, deferOps_callbacks cbs fun _ => rfl, ih]
      rfl
    | defer fn args =>
      show _ :: deferOps (actionEvents env cbs record tick (next + 1) actions) = _
      rw [ih]
      rfl

/-- The record is the same up to what its teardown adds. -/
def Torn (test record : StateTest) : Prop :=
  ∃ started ended outputs errors, record = { test with
    teardownStart := started, teardownEnd := ended, teardownOutputs := outputs, teardownErrors := errors }

theorem Torn.trans {first second third : StateTest} (one : Torn first second) (two : Torn second third) :
    Torn first third := by
  obtain ⟨_, _, _, _, rfl⟩ := one
  obtain ⟨started, ended, outputs, errors, rfl⟩ := two
  exact ⟨started, ended, outputs, errors, rfl⟩

theorem Torn.status {test record : StateTest} (torn : Torn test record) : record.status = test.status := by
  obtain ⟨_, _, _, _, rfl⟩ := torn
  rfl

def calledCode (env : Env) (status : CStr) (entry : DeferEntry) : LuaCode := entry.fn (deferArguments env status entry)

/-- The operations of a queue that serves these entries in this order. -/
def servedOps (env : Env) (status : CStr) : Nat → List DeferEntry → List DeferOp
  | _, [] => []
  | next, entry :: rest =>
    .pop (entry, deferArguments env status entry) ::
      (entries next (calledCode env status entry).defers).map .push ++
      servedOps env status (next + (calledCode env status entry).defers.length) rest

/-- What a stretch of teardown leaves of the runner. -/
structure Leaves (r : Runner) (earlier : List StateTest) (test : StateTest) (ops : List DeferOp) (after : Runner)
    (record : StateTest) : Prop where
  state : after.state = recorded r.state earlier record
  torn : Torn test record
  trace : deferOps after.trace = deferOps r.trace ++ ops

variable (env : Env) {r : Runner} {earlier : List StateTest} {test : StateTest}

theorem Leaves.here {ops : List DeferOp} {after : Runner} {record : StateTest}
    (leaves : Leaves r earlier test ops after record) : At after earlier record := by
  rw [At, leaves.state]
  rfl

theorem Leaves.stage {ops : List DeferOp} {after : Runner} {record : StateTest}
    (leaves : Leaves r earlier test ops after record) : after.state.currentStage = r.state.currentStage := by
  rw [leaves.state]
  rfl

def called (env : Env) (status : CStr) (entry : DeferEntry) (r : Runner) : Runner :=
  ((r.push 2).push (1 + (deferArguments env status entry).length)).emit
    [.deferInvoked entry (deferArguments env status entry)]

def afterCall (env : Env) (outcome : LuaOutcome) (slots : Nat) (r : Runner) : Process Runner :=
  match outcome with
  | .returned => .ok ((r.pop slots).pop 1)
  | .failed value => do
    let trace := CStr.ofBytes (ltfErrhandler env value)
    let r ← ltfStateTestDeferFailed env (traceLocation trace).1 (traceLocation trace).2 trace
      (((r.pop slots).push 1).pop 1)
    return r.pop 1

theorem step_eq (status : CStr) (entry : DeferEntry) (r : Runner) :
    runDeferredStep env status entry r = runLua env (calledCode env status entry) (called env status entry r) >>=
      afterCall env (calledCode env status entry).outcome (1 + (deferArguments env status entry).length) := rfl

/-- An error of a deferred function is noted apart from the verdict. -/
theorem call_ends (here : At r earlier test) (outcome : LuaOutcome) (slots : Nat) :
    ∃ after record, afterCall env outcome slots r = .ok after ∧ Leaves r earlier test [] after record ∧
      after.deferList = r.deferList ∧ after.nextDefer = r.nextDefer := by
  cases outcome with
  | returned => exact ⟨_, test, rfl, ⟨here.same.symm, ⟨_, _, _, _, rfl⟩, by simp⟩, rfl, rfl⟩
  | failed value =>
    have failed := defer_failed env (r := ((r.pop slots).push 1).pop 1) here
      (traceLocation (CStr.ofBytes (ltfErrhandler env value))).1
        (traceLocation (CStr.ofBytes (ltfErrhandler env value))).2
      (CStr.ofBytes (ltfErrhandler env value))
    refine ⟨_, _, Steps.bind_ok.mpr ⟨_, failed, rfl⟩, ⟨rfl, ⟨_, _, _, _, rfl⟩, ?_⟩, rfl, rfl⟩
    rw [pop_trace, deferOps_append, deferOps_callbacks _ fun _ => rfl]
    rfl

theorem deferred_step (here : At r earlier test) (stage : r.state.currentStage = .test)
    (teardown : test.status = .teardownAfterPassed ∨ test.status = .teardownAfterFailed)
    (status : CStr) (entry : DeferEntry) :
    ∃ after record, runDeferredStep env status entry r = .ok after ∧
      Leaves r earlier test (servedOps env status r.nextDefer [entry]) after record ∧
      after.deferList = extend r.deferList (entries r.nextDefer (calledCode env status entry).defers) ∧
      after.nextDefer = r.nextDefer + (calledCode env status entry).defers.length := by
  let actions := (calledCode env status entry).actions
  let left := ran env (called env status entry r) earlier test actions
  have run : runLua env (calledCode env status entry) (called env status entry r) = .ok left :=
    actions_run env (r := called env status entry r) here stage actions
  have leftHere : At left earlier
      ((stamped env (called env status entry r).ticks (logCalls actions)).foldl takeLog test) :=
    rfl
  have torn : Torn test ((stamped env (called env status entry r).ticks (logCalls actions)).foldl takeLog test) := by
    rw [takeLogs_teardown teardown]
    exact ⟨_, _, _, _, rfl⟩
  obtain ⟨after, record, ends, leaves, list, next⟩ := call_ends env leftHere
    (calledCode env status entry).outcome (1 + (deferArguments env status entry).length)
  refine ⟨after, record, ?_, ⟨?_, torn.trans leaves.torn, ?_⟩, ?_, ?_⟩
  · rw [step_eq, run]
    exact ends
  · rw [leaves.state]
    rfl
  · rw [leaves.trace]
    have invoked : deferOps (called env status entry r).trace =
        deferOps r.trace ++ [.pop (entry, deferArguments env status entry)] := deferOps_append _ _
    simp only [left, ran, deferOps_append, invoked, deferOps_actions, List.append_nil]
    simp [servedOps, actions, LuaCode.defers, called]
  · rw [list]
    rfl
  · rw [next]
    rfl

/-- The loop calls the entries of the list from the last to the first, whatever they register. -/
theorem deferred_loop (status : CStr) (i : Nat) (here : At r earlier test) (stage : r.state.currentStage = .test)
    (teardown : test.status = .teardownAfterPassed ∨ test.status = .teardownAfterFailed)
    (bound : i ≤ (r.deferList.getD []).length) :
    ∃ after record, runDeferredLoop env status i r = .ok after ∧
      Leaves r earlier test (servedOps env status r.nextDefer ((r.deferList.getD []).take i).reverse) after record := by
  induction i generalizing r test with
  | zero => exact ⟨r, test, rfl, here.same.symm, ⟨_, _, _, _, rfl⟩, by simp [servedOps]⟩
  | succ i ih =>
    have inside : i < (r.deferList.getD []).length := bound
    let entry := (r.deferList.getD [])[i]
    obtain ⟨middle, torn, step, first, list, next⟩ := deferred_step env here stage teardown status entry
    have grown : middle.deferList.getD [] =
        r.deferList.getD [] ++ entries r.nextDefer (calledCode env status entry).defers := by
      rw [list, extend_getD]
    have short : i ≤ (middle.deferList.getD []).length := by
      rw [grown, List.length_append]
      omega
    obtain ⟨after, record, loop, rest⟩ := ih first.here (first.stage.trans stage) (first.torn.status ▸ teardown) short
    refine ⟨after, record, ?_, ⟨?_, first.torn.trans rest.torn, ?_⟩⟩
    · rw [runDeferredLoop, List.getElem?_eq_getElem inside, Steps.bind_ok]
      exact ⟨middle, step, loop⟩
    · rw [rest.state, first.state, recorded_recorded]
    · have prior : (middle.deferList.getD []).take i = (r.deferList.getD []).take i := by
        rw [grown, List.take_append_of_le_length (by omega)]
      rw [rest.trace, first.trace, prior, next, List.take_succ_eq_append_getElem inside, List.reverse_append]
      simp [servedOps, entry]

theorem teardownStatus_of_judged {status : TestStatus} (judged : status = .passed ∨ status = .failed) :
    teardownStatus status = .teardownAfterPassed ∨ teardownStatus status = .teardownAfterFailed := by
  rcases judged with rfl | rfl
  · exact .inl rfl
  · exact .inr rfl

theorem verdictStatus_teardown {status : TestStatus} (judged : status = .passed ∨ status = .failed) :
    verdictStatus (teardownStatus status) = status := by
  rcases judged with rfl | rfl <;> rfl

/-- After a queue the verdict is what it was, and nothing is pending. -/
theorem run_deferred (status : CStr) (here : At r earlier test) (stage : r.state.currentStage = .test)
    (judged : test.status = .passed ∨ test.status = .failed) :
    ∃ after record, runDeferred env status r = .ok after ∧
      Leaves r earlier test (servedOps env status r.nextDefer (r.deferList.getD []).reverse) after record ∧
      after.deferList = none := by
  cases pending : r.deferList with
  | none =>
    refine ⟨r, test, by simp only [runDeferred, pending]; rfl, ⟨here.same.symm, ⟨_, _, _, _, rfl⟩, ?_⟩, pending⟩
    simp [servedOps]
  | some list =>
    have started := queue_started env (r := r.push 1) here
    have entered : At (enterTeardown env (r.push 1) earlier test) earlier (tearingRecord env (r.push 1) test) := rfl
    obtain ⟨served, torn, loop, leaves⟩ := deferred_loop env status list.length entered stage
      (teardownStatus_of_judged judged)
      (by simp [enterTeardown, pending])
    have finished := queue_finished env leaves.here
    refine ⟨{ leaveTeardown env served earlier torn with deferList := none }, tornRecord env served torn, ?_, ?_, rfl⟩
    · rw [runDeferred, pending]
      exact Steps.bind_ok.mpr ⟨_, started, Steps.bind_ok.mpr ⟨_, loop, Steps.bind_ok.mpr ⟨_, finished, rfl⟩⟩⟩
    constructor
    · simp only [leaveTeardown, leaves.state, enterTeardown, recorded_recorded, push_state]
    · have verdict : verdictStatus torn.status = test.status := by
        rw [leaves.torn.status]
        exact verdictStatus_teardown judged
      obtain ⟨_, _, _, _, same⟩ := leaves.torn
      rw [tornRecord, verdict, same]
      exact ⟨_, _, _, _, rfl⟩
    · simp only [leaveTeardown, deferOps_append, leaves.trace]
      rw [deferOps_callbacks _ fun _ => rfl]
      simp only [enterTeardown, deferOps_append]
      rw [deferOps_callbacks _ fun _ => rfl]
      simp [pending]

/-- From the call of the body to the end of its teardown. -/
def runBodyAndTeardown (env : Env) (tc : TestCase) (r : Runner) : Process Runner := do
  let r ← callBody env tc r
  let reported ← reportBody env tc r
  runDeferred env (deferStatus tc.body.outcome) reported.1

def queueOf (tc : TestCase) (r : Runner) : List DeferEntry :=
  r.deferList.getD [] ++ entries r.nextDefer tc.body.defers

/-- What the body and its teardown ask of the queue. -/
def testOps (env : Env) (tc : TestCase) (r : Runner) : List DeferOp :=
  (entries r.nextDefer tc.body.defers).map .push ++
    servedOps env (deferStatus tc.body.outcome) (r.nextDefer + tc.body.defers.length) (queueOf tc r).reverse

def testPasses (tc : TestCase) (r : Runner) : Bool := !tc.body.fails && !(r.testMarkedFailed || tc.body.logsError)

theorem body_and_teardown (tc : TestCase) (here : At r earlier test) (stage : r.state.currentStage = .test)
    (running : test.status = .running) :
    ∃ after record, runBodyAndTeardown env tc r = .ok after ∧ At after earlier record ∧
      record.status = (if testPasses tc r then .passed else .failed) ∧
      deferOps after.trace = deferOps r.trace ++ testOps env tc r := by
  let left := (ran env (r.push 2) earlier test tc.body.actions).pop 2
  let bodyTest := (stamped env r.ticks (logCalls tc.body.actions)).foldl takeLog test
  let record := reportedRecord env tc left bodyTest
  let judged := settled left earlier record (reportPasses tc left)
  have call : callBody env tc r = .ok left :=
    Steps.bind_ok.mpr ⟨_, actions_run env (r := r.push 2) here stage tc.body.actions, rfl⟩
  have leftHere : At left earlier bodyTest := rfl
  have marked : left.testMarkedFailed = (r.testMarkedFailed || tc.body.logsError) := by
    simp [left, ran, running, LuaCode.logsError, LuaCode.logs]
  have report : reportBody env tc left = .ok (judged, reportPasses tc left) := body_reported env leftHere tc
  have passes : reportPasses tc left = testPasses tc r := by rw [reportPasses, marked, testPasses]
  have status : record.status = if testPasses tc r then .passed else .failed := by
    rw [← passes]
    exact reportedRecord_status env tc left bodyTest
  have decided : record.status = .passed ∨ record.status = .failed := by
    rw [status]
    cases testPasses tc r <;> simp
  have judgedHere : At judged earlier record := rfl
  obtain ⟨after, last, teardown, leaves, _⟩ := run_deferred env (deferStatus tc.body.outcome) judgedHere stage decided
  have list : judged.deferList.getD [] = queueOf tc r := extend_getD _ _
  have bodyOps : deferOps judged.trace =
      deferOps r.trace ++ (entries r.nextDefer tc.body.defers).map .push := by
    simp only [judged, settled, deferOps_append]
    rw [deferOps_callbacks _ fun _ => rfl, List.append_nil]
    simp only [left, ran, pop_trace, push_trace, push_nextDefer, deferOps_append, deferOps_actions]
    rfl
  refine ⟨after, last, ?_, leaves.here, leaves.torn.status.trans status, ?_⟩
  · exact Steps.bind_ok.mpr ⟨left, call, Steps.bind_ok.mpr ⟨_, report, teardown⟩⟩
  · rw [leaves.trace, list, bodyOps, List.append_assoc]
    rfl

end Ltf.Proofs.Teardown
