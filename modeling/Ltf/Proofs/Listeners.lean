import Ltf.Proofs.TestRun
import Ltf.Proofs.WholeCommand
import Ltf.RunProtocol

/-! The raw log and those who listen to a run: the output log and the user interface. They are handed
logs and failures one by one; put together again, test by test, these are what the records hold. -/

namespace Ltf.Proofs.Listeners
open RunnerSteps Steps TestRun

/-- Where a log goes while a test has the status. -/
inductive Intake where
  | outputs
  | teardown
  | nothing
deriving DecidableEq

def intakeOf : TestStatus → Intake
  | .running => .outputs
  | .teardownAfterPassed | .teardownAfterFailed => .teardown
  | .passed | .failed => .nothing

/-- What a listener has put together of a test. -/
structure Heard where
  outputs : DaPtr TestOutput := some []
  teardownOutputs : DaPtr TestOutput := some []
  teardownErrors : DaPtr TestOutput := some []
  intake : Intake := .outputs

namespace Heard

def log (output : TestOutput) (test : Heard) : Heard :=
  match test.intake with
  | .outputs => { test with outputs := daAppend test.outputs output }
  | .teardown => { test with teardownOutputs := daAppend test.teardownOutputs output }
  | .nothing => test

def settle (test : Heard) : Heard := { test with intake := .nothing }

def tear (test : Heard) : Heard := { test with intake := if test.intake = .nothing then .teardown else test.intake }

def torn (test : Heard) : Heard := { test with intake := if test.intake = .teardown then .nothing else test.intake }

def fail (output : TestOutput) (test : Heard) : Heard :=
  { test with teardownErrors := daAppend test.teardownErrors output }

end Heard

/-- The part of a record that a listener is told about. -/
def heard (test : StateTest) : Heard where
  outputs := test.outputs
  teardownOutputs := test.teardownOutputs
  teardownErrors := test.teardownErrors
  intake := intakeOf test.status

def hear (known : List Heard) : News → List Heard
  | .testStarted _ => known ++ [{}]
  | .testFinished record => known.modify record .settle
  | .teardownStarted record => known.modify record .tear
  | .teardownFinished record => known.modify record .torn
  | .deferFailed record output => known.modify record (.fail output)
  | .testLog record output => known.modify record (.log output)
  | .testRunStarted | .testRunFinished | .hookStarted _ | .hookFinished _ | .hookFailed .. | .hookLog _ => known

/-- News about a test. -/
def ofTest : News → Bool
  | .testStarted _ | .testFinished _ | .teardownStarted _ | .teardownFinished _ | .deferFailed .. | .testLog .. => true
  | .testRunStarted | .testRunFinished | .hookStarted _ | .hookFinished _ | .hookFailed .. | .hookLog _ => false

/-- The callback that is called, and with what. -/
def callOf : Event → Option (Nat × News)
  | .testRunStarted cb => some (cb, .testRunStarted)
  | .testRunFinished cb => some (cb, .testRunFinished)
  | .testStarted cb record => some (cb, .testStarted record)
  | .testFinished cb record => some (cb, .testFinished record)
  | .teardownStarted cb record => some (cb, .teardownStarted record)
  | .teardownFinished cb record => some (cb, .teardownFinished record)
  | .deferFailed cb record output => some (cb, .deferFailed record output)
  | .testLog cb record output => some (cb, .testLog record output)
  | .hookStarted cb fn => some (cb, .hookStarted fn)
  | .hookFinished cb fn => some (cb, .hookFinished fn)
  | .hookFailed cb fn err => some (cb, .hookFailed fn err)
  | .hookLog cb output => some (cb, .hookLog output)
  | .currentTest | .deferRegistered _ | .deferInvoked .. => none

def told (cb : Nat) (trace : List Event) : List News :=
  (trace.filterMap callOf).filterMap fun call => if call.1 = cb then some call.2 else none

/-- A callback is registered once for everything about tests. -/
def Once (cb : Nat) (state : LtfState) : Prop := ∀ news : News, ofTest news = true → (news.listeners state).count cb = 1

section Told
variable (cb : Nat)

theorem told_append (first rest : List Event) : told cb (first ++ rest) = told cb first ++ told cb rest := by
  rw [told, List.filterMap_append, List.filterMap_append]
  rfl

theorem callOf_reach (news : News) (other : Nat) : callOf (news.reach other) = some (other, news) := by
  cases news <;> rfl

theorem told_reach (news : News) (cbs : List Nat) : told cb (cbs.map news.reach) = List.replicate (cbs.count cb) news := by
  induction cbs with
  | nil => rfl
  | cons other cbs ih =>
    rw [told] at ih
    rw [told, List.map_cons, List.filterMap_cons_some (callOf_reach news other)]
    by_cases same : other = cb
    · simp only [List.filterMap_cons, same, if_true, ih, List.count_cons_self, List.replicate_succ]
    · simp only [List.filterMap_cons, same, if_false, ih, List.count_cons_of_ne, ne_eq, not_false_eq_true]

theorem hear_aside {news : News} (aside : ofTest news = false) (known : List Heard) : hear known news = known := by
  cases news <;> first | rfl | cases aside

theorem hears_aside {news : News} (aside : ofTest news = false) (n : Nat) (known : List Heard) :
    (List.replicate n news).foldl hear known = known := by
  induction n with
  | zero => rfl
  | succ n ih => rw [List.replicate_succ, List.foldl_cons, hear_aside aside, ih]

end Told

section Records
variable {env : Env} {test : StateTest}

theorem heard_log (output : TestOutput) : heard (takeLog test output) = (heard test).log output := by
  cases status : test.status <;> simp [takeLog, heard, Heard.log, intakeOf, status]

theorem heard_reported (tc : TestCase) (r : Runner) : heard (reportedRecord env tc r test) = (heard test).settle := by
  rw [reportedRecord]
  cases tc.body.outcome with
  | returned =>
    dsimp only
    split <;> rfl
  | failed value => rfl

theorem heard_tearing (r : Runner) : heard (tearingRecord env r test) = (heard test).tear := by
  cases status : test.status <;> simp [tearingRecord, heard, Heard.tear, intakeOf, teardownStatus, status]

theorem heard_torn (r : Runner) : heard (tornRecord env r test) = (heard test).torn := by
  cases status : test.status <;> simp [tornRecord, heard, Heard.torn, intakeOf, verdictStatus, status]

/-- The last record is the one that is changed. -/
theorem modify_last {α : Type} (change : α → α) (earlier : List α) (last : α) :
    (earlier ++ [last]).modify earlier.length change = earlier ++ [change last] := by
  induction earlier with
  | nil => rfl
  | cons first earlier ih => rw [List.cons_append, List.length_cons, List.modify_succ_cons, ih, List.cons_append]

end Records

/-- What a callback was told up to now is enough for the records of the run. -/
structure Rebuilt (cb : Nat) (start r : Runner) (n : Nat) : Prop where
  listeners : ∀ news : News, news.listeners r.state = news.listeners start.state
  records : ∃ records, r.state.tests = some records ∧ records.length = n ∧
    (told cb r.trace).foldl hear [] = records.map heard

section Steps
variable {env : Env} {cb n : Nat} {start r after : Runner} {earlier : List StateTest} {test record : StateTest}

theorem Rebuilt.moved (rebuilt : Rebuilt cb start r n) (state : after.state = r.state)
    (trace : told cb after.trace = told cb r.trace) : Rebuilt cb start after n := by
  obtain ⟨listeners, records⟩ := rebuilt
  exact ⟨state ▸ listeners, trace ▸ state ▸ records⟩

theorem Rebuilt.staged (rebuilt : Rebuilt cb start r n) (stage : Stage) :
    Rebuilt cb start { r with state.currentStage := stage } n := by
  refine ⟨?_, rebuilt.records⟩
  intro news
  rw [← rebuilt.listeners news]
  cases news <;> rfl

/-- News that are not about a test. -/
theorem Rebuilt.aside (rebuilt : Rebuilt cb start r n) {news : News} (aside : ofTest news = false) :
    Rebuilt cb start (r.emit ((news.listeners r.state).map news.reach)) n := by
  obtain ⟨listeners, records, tests, length, known⟩ := rebuilt
  refine ⟨listeners, records, tests, length, ?_⟩
  rw [emit_trace, told_append, told_reach, List.foldl_append, hears_aside aside, known]

theorem Rebuilt.current (rebuilt : Rebuilt cb start r (n + 1)) : ∃ earlier test, At r earlier test := by
  obtain ⟨records, tests, length, _⟩ := rebuilt.records
  obtain ⟨earlier, test, here, _⟩ := At.of_length tests length
  exact ⟨earlier, test, here⟩

/-- The current record is changed, and the callback makes the same change. -/
theorem Rebuilt.write (rebuilt : Rebuilt cb start r n) (once : Once cb start.state) (here : At r earlier test)
    (news : News) (about : ofTest news = true) (change : Heard → Heard)
    (hears : ∀ known, hear known news = known.modify earlier.length change) (changed : heard record = change (heard test))
    (tests : after.state.tests = some (earlier ++ [record]))
    (listeners : ∀ other : News, other.listeners after.state = other.listeners r.state)
    (trace : after.trace = r.trace ++ .currentTest :: (news.listeners r.state).map news.reach) :
    Rebuilt cb start after n := by
  obtain ⟨same, records, before, length, known⟩ := rebuilt
  have last : records = earlier ++ [test] := Option.some.inj (before.symm.trans here.tests)
  subst last
  refine ⟨fun other => (listeners other).trans (same other), earlier ++ [record], tests, ?_, ?_⟩
  · rw [← length, List.length_append, List.length_append]
    rfl
  · have asked : told cb (.currentTest :: (news.listeners r.state).map news.reach) = [news] := by
      have single : told cb ((news.listeners r.state).map news.reach) = [news] := by
        rw [told_reach, same, once news about, List.replicate_one]
      exact single
    rw [trace, told_append, asked, List.foldl_append, known, List.foldl_cons, List.foldl_nil, hears, List.map_append,
      List.map_append, ← List.length_map (f := heard)]
    exact (modify_last change _ _).trans (by rw [← changed]; rfl)

theorem log_rebuilt (once : Once cb start.state) (rebuilt : Rebuilt cb start r n) (call : LogCall) :
    Ends (ltfStateLog env call r) fun after => Rebuilt cb start after n := by
  cases stage : r.state.currentStage with
  | hook =>
    have told : Rebuilt cb start (r.emit (r.state.hookLogCbs.map (.hookLog · (logOutput (env.clock r.ticks) call)))) n :=
      @Rebuilt.aside cb n start r rebuilt (.hookLog _) rfl
    rw [log_hook env stage call]
    exact .ok (told.moved rfl rfl)
  | teardown =>
    rw [log_dropped env stage call]
    exact .ok (rebuilt.moved rfl rfl)
  | test =>
    cases last : r.tests.getLast? with
    | none =>
      rw [log_unrecorded env last stage call]
      exact .stop
    | some test =>
      have here := At.of_last last
      rw [log_test env here stage call]
      refine .ok (rebuilt.write once here (.testLog _ _) rfl _ (fun _ => rfl) (heard_log _) rfl ?_ rfl)
      intro other
      cases other <;> rfl

theorem code_rebuilt (once : Once cb start.state) (rebuilt : Rebuilt cb start r n) (code : LuaCode) :
    Ends (runLua env code r) fun after => Rebuilt cb start after n := by
  refine .foldlM ?_ rebuilt
  intro middle action inside
  cases action with
  | log call => exact log_rebuilt once inside call
  | defer fn args =>
    refine .ok (inside.moved rfl ?_)
    exact (told_append cb _ _).trans (List.append_nil _)

theorem hook_rebuilt (once : Once cb start.state) (rebuilt : Rebuilt cb start r n) (fn : HookFn) (hook : LuaCode) :
    Ends (ltfHooksStep env fn r hook) fun after => Rebuilt cb start after n := by
  have started := @Rebuilt.aside cb n start r rebuilt (.hookStarted fn) rfl
  have called : Rebuilt cb start ((r.emit (r.state.hookStartedCbs.map (.hookStarted · fn))).push 2) n :=
    started.moved rfl rfl
  refine (code_rebuilt once called hook).bind ?_
  intro middle inside
  have popped : Rebuilt cb start (middle.pop 2) n := inside.moved rfl rfl
  cases hook.outcome with
  | returned => exact .ok ((@Rebuilt.aside cb n start _ popped (.hookFinished fn) rfl).staged .test)
  | failed err =>
    have pushed : Rebuilt cb start ((middle.pop 2).push 1) n := popped.moved rfl rfl
    exact .ok ((@Rebuilt.aside cb n start _ pushed (.hookFailed fn err) rfl).staged .test)

theorem hooks_rebuilt (once : Once cb start.state) (rebuilt : Rebuilt cb start r n) (fn : HookFn) :
    Ends (ltfHooksRun env fn r) fun after => Rebuilt cb start after n := by
  rw [ltfHooksRun]
  split
  · exact .ok (rebuilt.staged .test)
  · exact .foldlM (fun _ hook inside => hook_rebuilt once inside fn hook) (rebuilt.staged .hook)

theorem begin_rebuilt (once : Once cb start.state) (rebuilt : Rebuilt cb start r n) (tc : TestCase) :
    Ends (beginTest env tc r) fun after => Rebuilt cb start after (n + 1) := by
  obtain ⟨listeners, records, tests, length, known⟩ := rebuilt
  have started : Rebuilt cb start (ltfStateTestStarted env tc { r with testMarkedFailed := false }) (n + 1) := by
    refine ⟨?_, records ++ [newRecord env tc r], ?_, ?_, ?_⟩
    · intro news
      rw [← listeners news]
      cases news <;> rfl
    · show daAppend r.state.tests (newRecord env tc r) = _
      rw [tests]
      rfl
    · rw [List.length_append, length]
      rfl
    · have current : (ltfStateTestStarted env tc { r with testMarkedFailed := false }).current = n := by
        simp [ltfStateTestStarted, Runner.current, Runner.emit, Runner.tick, tests, daAppend, daSize, length]
      have single : told cb (r.state.testStartedCbs.map (.testStarted · n)) = [.testStarted n] := by
        have reached := told_reach cb (.testStarted n) r.state.testStartedCbs
        have counted : r.state.testStartedCbs.count cb = 1 := by
          rw [← once (.testStarted n) rfl, ← listeners]
          rfl
        rwa [counted, List.replicate_one] at reached
      have trace : (ltfStateTestStarted env tc { r with testMarkedFailed := false }).trace =
          r.trace ++ r.state.testStartedCbs.map (.testStarted · n) := by
        rw [← current]
        rfl
      rw [trace, told_append, single, List.foldl_append, known, List.map_append]
      rfl
  exact hooks_rebuilt once started _

theorem report_rebuilt (once : Once cb start.state) (rebuilt : Rebuilt cb start r (n + 1)) (tc : TestCase) :
    Ends (reportBody env tc r) fun verdict => Rebuilt cb start verdict.1 (n + 1) := by
  obtain ⟨earlier, test, here⟩ := rebuilt.current
  rw [body_reported env here]
  refine .ok (rebuilt.write once here (.testFinished _) rfl _ (fun _ => rfl) (heard_reported tc r) rfl ?_ rfl)
  intro other
  cases other <;> rfl

theorem defer_rebuilt (once : Once cb start.state) (rebuilt : Rebuilt cb start r (n + 1)) (status : CString.CStr)
    (entry : DeferEntry) : Ends (runDeferredStep env status entry r) fun after => Rebuilt cb start after (n + 1) := by
  let args := deferArguments env status entry
  have called : Rebuilt cb start (((r.push 2).push (1 + args.length)).emit [.deferInvoked entry args]) (n + 1) := by
    refine rebuilt.moved rfl ?_
    exact (told_append cb _ _).trans (List.append_nil _)
  refine (code_rebuilt once called (entry.fn args)).bind ?_
  intro middle inside
  cases outcome : (entry.fn (deferArguments env status entry)).outcome with
  | returned => exact .ok (inside.moved rfl rfl)
  | failed value =>
    have popped : Rebuilt cb start (((middle.pop (1 + args.length)).push 1).pop 1) (n + 1) := inside.moved rfl rfl
    obtain ⟨earlier, test, here⟩ := popped.current
    have failed : ∀ file line msg,
        Ends (ltfStateTestDeferFailed env file line msg (((middle.pop (1 + args.length)).push 1).pop 1)) fun after =>
          Rebuilt cb start after (n + 1) := by
      intro file line msg
      rw [defer_failed env here]
      refine .ok (popped.write once here (.deferFailed _ _) rfl _ (fun _ => rfl) rfl rfl ?_ rfl)
      intro other
      cases other <;> rfl
    refine (failed _ _ _).bind ?_
    intro after written
    exact .ok (written.moved rfl rfl)

theorem queue_rebuilt (once : Once cb start.state) (status : CString.CStr) (i : Nat) (rebuilt : Rebuilt cb start r (n + 1)) :
    Ends (runDeferredLoop env status i r) fun after => Rebuilt cb start after (n + 1) := by
  induction i generalizing r with
  | zero => exact .ok rebuilt
  | succ i ih =>
    rw [runDeferredLoop]
    cases (r.deferList.getD [])[i]? with
    | none => exact .stop
    | some entry => exact (defer_rebuilt once rebuilt status entry).bind fun _ => ih

theorem deferred_rebuilt (once : Once cb start.state) (rebuilt : Rebuilt cb start r (n + 1)) (status : CString.CStr) :
    Ends (runDeferred env status r) fun after => Rebuilt cb start after (n + 1) := by
  rw [runDeferred]
  cases r.deferList with
  | none => exact .ok rebuilt
  | some list =>
    have pushed : Rebuilt cb start (r.push 1) (n + 1) := rebuilt.moved rfl rfl
    obtain ⟨earlier, test, here⟩ := pushed.current
    have starts : Rebuilt cb start (enterTeardown env (r.push 1) earlier test) (n + 1) := by
      refine pushed.write once here (.teardownStarted _) rfl _ (fun _ => rfl) (heard_tearing _) rfl ?_ rfl
      intro other
      cases other <;> rfl
    simp only [queue_started env here]
    refine (queue_rebuilt once status list.length starts).bind ?_
    intro middle tearing
    obtain ⟨before, record, there⟩ := tearing.current
    have ends : Rebuilt cb start (leaveTeardown env middle before record) (n + 1) := by
      refine tearing.write once there (.teardownFinished _) rfl _ (fun _ => rfl) (heard_torn _) rfl ?_ rfl
      intro other
      cases other <;> rfl
    rw [queue_finished env there]
    exact .ok (ends.moved rfl rfl)

theorem iteration_rebuilt {loop : Loop} (once : Once cb start.state) (rebuilt : Rebuilt cb start loop.runner n)
    (tc : TestCase) : Ends (runIteration env loop tc) fun after => Rebuilt cb start after.runner (n + 1) := by
  refine (begin_rebuilt once rebuilt tc).bind ?_
  intro begun opened
  have pushed : Rebuilt cb start (begun.push 2) (n + 1) := opened.moved rfl rfl
  have called : Ends (callBody env tc begun) fun after => Rebuilt cb start after (n + 1) :=
    (code_rebuilt once pushed tc.body).bind fun _ inside => .ok (inside.moved rfl rfl)
  refine called.bind ?_
  intro bodied inside
  refine (report_rebuilt once inside tc).bind ?_
  intro verdict judged
  refine (deferred_rebuilt once judged _).bind ?_
  intro torn ended
  split
  · exact .stop
  · exact (hooks_rebuilt once ended _).bind fun _ rest => .ok rest

theorem tests_rebuilt {loop : Loop} (once : Once cb start.state) (rebuilt : Rebuilt cb start loop.runner n)
    (tests : List TestCase) : Ends (runTests env tests loop) fun after => Rebuilt cb start after.runner (n + tests.length) := by
  induction tests generalizing loop n with
  | nil => exact .ok rebuilt
  | cons tc tests ih =>
    rw [runTests, List.foldlM_cons, List.length_cons, ← Nat.add_assoc, Nat.add_right_comm]
    exact (iteration_rebuilt once rebuilt tc).bind fun _ => ih

theorem run_rebuilt (once : Once cb start.state) (tests : List TestCase) (fresh : start.state.tests = some [])
    (silent : told cb start.trace = []) :
    Ends (runAllTests env tests start) fun ended => Rebuilt cb start ended.2 tests.length := by
  have new : Rebuilt cb start { start.tick with state.started := some (env.clock start.ticks) } 0 := by
    refine ⟨?_, [], fresh, rfl, ?_⟩
    · intro news
      cases news <;> rfl
    · show (told cb start.trace).foldl hear [] = _
      rw [silent]
      rfl
  have opened : Ends (beginRun env start) fun loop => Rebuilt cb start loop.runner 0 := by
    have told : Rebuilt cb start (ltfStateTestRunStarted env start) 0 :=
      @Rebuilt.aside cb 0 start _ new .testRunStarted rfl
    exact (hooks_rebuilt once told _).bind fun _ begun => .ok begun
  refine opened.bind ?_
  intro loop first
  refine (tests_rebuilt once first tests).bind ?_
  intro done rest
  rw [Nat.zero_add] at rest
  have finished : Rebuilt cb start (ltfStateTestRunFinished env done.runner) tests.length := by
    have stamped : Rebuilt cb start { done.runner.tick with state.finished := some (env.clock done.runner.ticks) }
        tests.length := by
      refine ⟨?_, rest.records⟩
      intro news
      rw [← rest.listeners news]
      cases news <;> rfl
    exact @Rebuilt.aside cb tests.length start _ stamped .testRunFinished rfl
  exact (hooks_rebuilt once finished _).bind fun _ ended => .ok ended

end Steps

section Loading
open LtfTest

/-- Nobody listens yet, and nothing has been told. -/
structure Unheard (r : Runner) : Prop where
  tests : r.state.tests = some []
  silent : r.trace.filterMap callOf = []
  listeners : ∀ news : News, news.listeners r.state = []

variable {setup : Setup} {s : Loaded}

theorem action_unheard {env : Env} {r : Runner} (unheard : Unheard r) (action : LuaAction) :
    Ends (luaAction env r action) Unheard := by
  obtain ⟨tests, silent, listeners⟩ := unheard
  cases action with
  | defer fn args =>
    refine .ok ⟨tests, ?_, listeners⟩
    exact (List.filterMap_append ..).trans (by rw [silent]; rfl)
  | log call =>
    rw [luaAction]
    cases stage : r.state.currentStage with
    | test =>
      have missing : r.tests.getLast? = none := by simp [Runner.tests, tests]
      rw [log_unrecorded env missing stage call]
      exact .stop
    | hook =>
      have nobody : r.state.hookLogCbs = [] := listeners (.hookLog (logOutput (env.clock r.ticks) call))
      rw [log_hook env stage call, nobody, List.map_nil, List.append_nil]
      exact .ok ⟨tests, silent, listeners⟩
    | teardown =>
      rw [log_dropped env stage call]
      exact .ok ⟨tests, silent, listeners⟩

theorem call_unheard (unheard : Unheard s.runner) (call : LoadCall) :
    Ends (loadCall setup call s) fun done => Unheard done.2.runner := by
  cases call with
  | registerVars arg =>
    rw [loadCall, registerVars]
    split
    · exact .stop
    · exact .ok unheard
    · exact .ok unheard
  | registerSecrets arg =>
    rw [loadCall]
    unfold registerSecrets
    split
    · exact .ok unheard
    · split
      · exact .ok unheard
      · exact .ok unheard
      · exact .stop
      · exact .stop
  | registerTest arg =>
    rw [loadCall, registerTest]
    split <;> exact .ok unheard
  | registerHook fn hook =>
    rw [loadCall]
    unfold registerHook
    split
    · exact .ok unheard
    · split
      · refine .ok ⟨?_, unheard.silent, ?_⟩
        · cases fn <;> exact unheard.tests
        · intro news
          rw [← unheard.listeners news]
          cases fn <;> cases news <;> rfl
      · exact .stop
  | action action =>
    rw [loadCall]
    have acts := @action_unheard setup.env s.runner unheard action
    split
    next runner ran => exact .ok (acts runner ran)
    next => exact .stop

theorem calls_unheard (calls : List (LoadCall × Bool)) (unheard : Unheard s.runner) :
    Ends (loadCalls setup calls s) fun done => Unheard done.2.runner := by
  induction calls generalizing s with
  | nil => exact .ok unheard
  | cons call calls ih =>
    obtain ⟨call, guarded⟩ := call
    rw [loadCalls]
    refine (call_unheard unheard call).bind ?_
    rintro ⟨err, after⟩ next
    cases err with
    | none => exact ih next
    | some err =>
      dsimp only
      split
      · exact ih next
      · exact .ok next

theorem file_unheard (unheard : Unheard s.runner) (file : LuaFile) :
    Ends (luaLDofile setup file s) fun done => Unheard done.2.runner := by
  rw [luaLDofile]
  refine (calls_unheard file.calls unheard).bind ?_
  rintro ⟨err, after⟩ next
  cases err with
  | some err => exact .ok next
  | none =>
    dsimp only
    split <;> exact .ok next

theorem files_unheard (files : List LuaFile) (unheard : Unheard s.runner) :
    Ends (loadLuaFiles setup files s) fun done => Unheard done.2.runner := by
  induction files generalizing s with
  | nil => exact .ok unheard
  | cons file files ih =>
    rw [loadLuaFiles]
    refine (file_unheard unheard file).bind ?_
    rintro ⟨err, after⟩ next
    cases err with
    | some err => exact .ok next
    | none => exact ih next

theorem dir_unheard (unheard : Unheard s.runner) (path : CString.CStr) :
    Ends (loadProjectDir setup path s) fun after => Unheard after.runner := by
  have loads : Ends (loadLuaDir setup path s) fun done => Unheard done.2.runner := by
    rw [loadLuaDir]
    split
    · exact .ok unheard
    · exact .ok unheard
    · exact (files_unheard _ unheard).bind fun _ next => .ok next
  rw [loadProjectDir]
  refine loads.bind ?_
  rintro ⟨res, after⟩ next
  dsimp only
  split
  · exact .stop
  · exact .ok next

theorem vars_unheard (unheard : Unheard s.runner) : Ends (parseVars setup s) fun after => Unheard after.runner := by
  unfold parseVars
  dsimp only
  split
  · exact .stop
  · have registers : ∀ vars, Ends (ltfStateRegisterVars vars s.runner.state) fun state =>
        state.tests = some [] ∧ ∀ news : News, news.listeners state = [] := by
      intro vars
      cases vars with
      | none => exact .ok ⟨unheard.tests, unheard.listeners⟩
      | some vars =>
        intro state ran
        obtain ⟨copies, _, same⟩ := Steps.bind_ok.mp ran
        cases same
        refine ⟨unheard.tests, ?_⟩
        intro news
        rw [← unheard.listeners news]
        cases news <;> rfl
    refine (registers _).bind ?_
    intro state settled
    exact .ok ⟨settled.1, unheard.silent, settled.2⟩

theorem secrets_unheard (unheard : Unheard s.runner) : Ends (parseSecrets setup s) fun after => Unheard after.runner := by
  unfold parseSecrets
  dsimp only
  split
  · exact .stop
  · exact .ok unheard

theorem project_unheard (path : CString.CStr) (dirs : List CString.CStr) (unheard : Unheard s.runner) :
    Ends (loadProject setup path dirs s) fun after => Unheard after.runner := by
  refine (dir_unheard unheard _).bind ?_
  intro first unheard
  refine (vars_unheard unheard).bind ?_
  intro second unheard
  refine (secrets_unheard unheard).bind ?_
  intro third unheard
  refine Ends.bind (.foldlM (fun _ dir before => dir_unheard before dir) unheard) ?_
  intro fourth unheard
  have inited : Unheard (ltfHooksInit fourth).runner := by
    refine ⟨unheard.tests, unheard.silent, ?_⟩
    intro news
    have before := unheard.listeners news
    cases news <;> first | rfl | exact before
  dsimp only
  split
  · exact .ok inited
  · exact dir_unheard inited _

theorem newLoaded_unheard (name : CString.CStr) (out : List CString.CStr) : Unheard (newLoaded setup name out).runner where
  tests := rfl
  silent := rfl
  listeners := by
    intro news
    cases news <;> rfl

/-- A runner that is ready for a run, with these callbacks for each of the news about tests. -/
structure Listening (cbs : List Nat) (r : Runner) : Prop where
  tests : r.state.tests = some []
  silent : r.trace.filterMap callOf = []
  listeners : ∀ news : News, ofTest news = true → news.listeners r.state = cbs

variable (setup) in
def logCallbacks : List Nat := if setup.opts.noLogs then [] else [logCallback]

variable (setup) in
def uiCallback : Nat := if setup.opts.headless then headlessCallback else tuiCallback

theorem log_listens (unheard : Unheard s.runner) :
    Ends (openLog setup s) fun after => Listening (logCallbacks setup) after.runner := by
  rw [openLog, logCallbacks]
  cases setup.opts.noLogs with
  | true => exact .ok ⟨unheard.tests, unheard.silent, fun news _ => unheard.listeners news⟩
  | false =>
    simp only [Bool.false_eq_true, if_false, startLog]
    split
    · refine .ok ⟨unheard.tests, unheard.silent, ?_⟩
      intro news about
      have before := unheard.listeners news
      cases news with
      | testRunStarted | testRunFinished | hookStarted | hookFinished | hookFailed | hookLog => cases about
      | testStarted | testFinished | teardownStarted | teardownFinished | deferFailed | testLog =>
        exact congrArg (· ++ [logCallback]) before
    · exact .stop

theorem order_listens {cbs : List Nat} (listening : Listening cbs s.runner) :
    Ends (orderTests setup s) fun after => Listening cbs after.runner := by
  unfold orderTests
  dsimp only
  split
  · exact .stop
  · refine .ok ⟨listening.tests, listening.silent, ?_⟩
    intro news about
    rw [← listening.listeners news about]
    cases news <;> rfl

theorem listenAlike_listeners {cbs : List Nat} {state : LtfState}
    (known : ∀ news : News, ofTest news = true → news.listeners state = cbs) (callback : Nat) (news : News)
    (about : ofTest news = true) : news.listeners (listenAlike callback state) = cbs ++ [callback] := by
  have before := known news about
  cases news with
  | testRunStarted | testRunFinished | hookStarted | hookFinished | hookFailed | hookLog => cases about
  | testStarted | testFinished | teardownStarted | teardownFinished | deferFailed | testLog =>
    exact congrArg (· ++ [callback]) before

theorem ui_listens {cbs : List Nat} (listening : Listening cbs s.runner) :
    Ends (startUi setup s) fun after => Listening (cbs ++ [uiCallback setup]) after.runner := by
  rw [startUi, uiCallback]
  cases setup.opts.headless with
  | true =>
    refine .ok ⟨listening.tests, listening.silent, ?_⟩
    intro news about
    rw [if_pos rfl, ← listenAlike_listeners listening.listeners headlessCallback news about]
    cases news <;> first | rfl | cases about
  | false =>
    simp only [Bool.false_eq_true, if_false]
    split
    · exact .ok ⟨listening.tests, listening.silent, listenAlike_listeners listening.listeners tuiCallback⟩
    · exact .stop

variable (setup) in
/-- Who listens to the tests of a command. -/
def listenersOf : List Nat := logCallbacks setup ++ [uiCallback setup]

theorem listenersOf_once (cb : Nat) (member : cb ∈ listenersOf setup) : (listenersOf setup).count cb = 1 := by
  refine List.count_eq_one_of_mem ?_ member
  unfold listenersOf logCallbacks uiCallback
  cases setup.opts.noLogs <;> cases setup.opts.headless <;> decide

end Loading

/-- Whatever the tests, hooks and deferred functions of a command do, the calls about tests that the output log and
the user interface get are those for the logs, teardown logs and deferred failures that its records hold, test by
test and in order, and beside these only some for logs while the test has its verdict already, which no record
holds. What hooks log is told by calls of its own, and is in no record either. -/
theorem listeners_hear_records (setup : LtfTest.Setup) {code : Nat} {final : Runner}
    (ran : LtfTest.ltfTest setup = .ok (code, final)) :
    ∀ cb ∈ listenersOf setup, (told cb final.trace).foldl hear [] = final.tests.map heard := by
  intro cb member
  obtain ⟨name, path, dirs, out, lib, loaded, logged, ordered, shown, _, _, loads, log, order, ui, ran⟩ :=
    (WholeCommand.command_split code final).mp ran
  have unheard := project_unheard path dirs (newLoaded_unheard name (out ++ lib.2)) loaded loads
  have listening := ui_listens (order_listens (log_listens unheard logged log) ordered order) shown ui
  have once : Once cb shown.runner.state := by
    intro news about
    rw [listening.listeners news about]
    exact listenersOf_once cb member
  have silent : told cb shown.runner.trace = [] := by
    rw [told, listening.silent]
    rfl
  obtain ⟨_, records, tests, _, known⟩ := run_rebuilt once _ listening.tests silent _ ran
  rw [known, Runner.tests, tests]
  rfl

/-- It logs, and leaves a deferred function that logs and fails. -/
def loggingTest : TestCases.TestTable where
  name := .string [99]
  body := some (.mk [
    .log { level := .info, file := none, line := 3, msg := [104, 105] },
    .defer (fun _ => .mk [.log { level := .info, file := none, line := 5, msg := [98, 121, 101] }] (.failed none)) []] .returned)

def logging : LtfTest.Setup := { WholeCommand.tagged with
  opts := { headless := true }
  dir := fun path =>
    if path = .lit "/p/tests" then some [⟨.lit "/p/tests/tests.lua", [(.registerTest (some loggingTest), false)], .returned⟩]
    else none
  logOpens := true }

theorem listeners_hear_records_logging : ∃ code final, LtfTest.ltfTest logging = .ok (code, final) ∧
    listenersOf logging = [LtfTest.logCallback, LtfTest.headlessCallback] ∧
    ∀ cb ∈ listenersOf logging, (told cb final.trace).foldl hear [] = final.tests.map heard := by
  have runs : (LtfTest.ltfTest logging).toOption.isSome = true := by decide +kernel
  cases ran : LtfTest.ltfTest logging with
  | error ended =>
    rw [ran] at runs
    cases runs
  | ok ended =>
    obtain ⟨code, final⟩ := ended
    exact ⟨code, final, rfl, by decide +kernel, listeners_hear_records logging ran⟩

end Ltf.Proofs.Listeners
