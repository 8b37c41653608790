import Ltf.Proofs.RawLogReread
import Ltf.Proofs.TestRun

/-! What a run hands over to be written as its raw log. Whatever hooks, bodies and deferred
functions do, as long as each message and traceback can be counted by an `int`, every
record stays exact, and the log gives back the state that was written. -/

namespace Ltf.Proofs.RunLog
open CString JsonC RunnerSteps StateRoundTrip RawLogReread Steps TestRun

/-- A log call whose message is a C string with a length that is an `int`. -/
structure ModestCall (call : LogCall) : Prop where
  line : Int32 call.line
  clean : (0 : UInt8) ∉ call.msg
  short : call.msg.length < 2147483648

/-- The traceback of an error, and the line that is found in it. -/
structure ModestTrace (env : Env) (value : Option (List UInt8)) : Prop where
  short : (CStr.ofBytes (ltfErrhandler env value)).bytes.length < 2147483648
  line : Int32 (traceLocation (CStr.ofBytes (ltfErrhandler env value))).2

/-- Code that logs modestly, whatever it defers and however it ends. -/
inductive Modest (env : Env) : LuaCode → Prop where
  | mk {actions : List LuaAction} {outcome : LuaOutcome} (logs : ∀ call ∈ logCalls actions, ModestCall call)
      (defers : ∀ fn args, (fn, args) ∈ registrations actions → ∀ given, Modest env (fn given))
      (error : ∀ value, outcome = .failed value → ModestTrace env value) : Modest env (.mk actions outcome)

/-- A record of a run in progress. -/
structure ExactRecord (t : StateTest) : Prop where
  tags : ∀ tag ∈ t.tags.getD [], tag.isSome = true
  outputs : ∀ arr ∈ outputArrays t, ∀ o ∈ arr.getD [], ExactOutput o
  keywords : t.keywordStatuses = none

/-- What a run leaves alone. -/
def header (s : LtfState) : LtfState := { s with
  tests := none
  passedAmount := 0
  failedAmount := 0
  finishedAmount := 0
  started := none
  finished := none
  currentStage := .hook }

/-- The state of a run with so many records, of which so many have a verdict. -/
structure Logged (env : Env) (start r : Runner) (n m : Nat) : Prop where
  header : header r.state = header start.state
  pending : ∀ entry ∈ r.deferList.getD [], ∀ given, Modest env (entry.fn given)
  records : ∃ records, r.state.tests = some records ∧ records.length = n ∧ ∀ t ∈ records, ExactRecord t
  passed : r.state.passedAmount ≤ m
  failed : r.state.failedAmount ≤ m
  finished : r.state.finishedAmount = m

section Records
variable {env : Env} {t : StateTest} {o : TestOutput}

theorem logOutput_exact {call : LogCall} (modest : ModestCall call) (time : CStr) : ExactOutput (logOutput time call) := by
  refine ⟨modest.line, rfl, ⟨_, rfl, ?_⟩, modest.short⟩
  rw [CStr.strndup_all modest.clean]
  rfl

theorem daAppend_exact {arr : DaPtr TestOutput} (exact : ∀ o ∈ arr.getD [], ExactOutput o) (fine : ExactOutput o) :
    ∀ other ∈ (daAppend arr o).getD [], ExactOutput other := by
  intro other inside
  cases arr with
  | none => cases inside
  | some items =>
    obtain old | new := List.mem_append.mp inside
    · exact exact other old
    · rwa [List.mem_singleton.mp new]

theorem takeLog_exact (exact : ExactRecord t) (fine : ExactOutput o) : ExactRecord (takeLog t o) := by
  obtain ⟨reasons, outputs, teardowns, errors⟩ := (forall_outputArrays _ t).mp exact.outputs
  rw [takeLog]
  cases t.status with
  | running =>
    refine ⟨exact.tags, (forall_outputArrays _ _).mpr ⟨?_, daAppend_exact outputs fine, teardowns, errors⟩, exact.keywords⟩
    show ∀ other ∈ Option.getD (ite _ _ _) [], _
    split
    · exact daAppend_exact reasons fine
    · exact reasons
  | teardownAfterFailed | teardownAfterPassed =>
    exact ⟨exact.tags, (forall_outputArrays _ _).mpr ⟨reasons, outputs, daAppend_exact teardowns fine, errors⟩,
      exact.keywords⟩
  | failed | passed => exact exact

theorem newRecord_exact {tc : TestCase} {r : Runner} : ExactRecord (newRecord env tc r) := by
  refine ⟨?_, (forall_outputArrays _ _).mpr ⟨?_, ?_, ?_, ?_⟩, rfl⟩
  · intro tag inside
    obtain ⟨text, _, rfl⟩ := List.mem_map.mp inside
    rfl
  all_goals
    intro o inside
    cases inside

theorem failedRecord_exact {r : Runner} {file : Option CStr} {line : Int} {msg : Option CStr} (exact : ExactRecord t)
    (int : Int32 line) (short : ∀ text, msg = some text → text.bytes.length < 2147483648) :
    ExactRecord (failedRecord env r file line msg t) := by
  obtain ⟨reasons, outputs, teardowns, errors⟩ := (forall_outputArrays _ t).mp exact.outputs
  refine ⟨exact.tags, (forall_outputArrays _ _).mpr ⟨?_, outputs, teardowns, errors⟩, exact.keywords⟩
  cases msg with
  | none => exact reasons
  | some text => exact daAppend_exact reasons ⟨int, rfl, ⟨text, rfl, rfl⟩, short text rfl⟩

/-- Times and the status may change. -/
theorem ExactRecord.stamped {started finished : Option CStr} {status : TestStatus} (exact : ExactRecord t) :
    ExactRecord { t with teardownStart := started, teardownEnd := finished, status } :=
  ⟨exact.tags, exact.outputs, exact.keywords⟩

theorem reportedRecord_exact {r : Runner} {tc : TestCase} (exact : ExactRecord t)
    (modest : ∀ value, tc.body.outcome = .failed value → ModestTrace env value) :
    ExactRecord (reportedRecord env tc r t) := by
  have zero : Int32 0 := ⟨by decide, by decide⟩
  rw [reportedRecord]
  cases outcome : tc.body.outcome with
  | returned =>
    dsimp only
    split
    · exact failedRecord_exact exact zero (fun _ none => by cases none)
    · exact ⟨exact.tags, exact.outputs, exact.keywords⟩
  | failed value =>
    refine failedRecord_exact exact (modest value outcome).line ?_
    intro text same
    cases same
    exact (modest value outcome).short

end Records

section Steps
variable {env : Env} {start r after : Runner} {n m : Nat} {earlier : List StateTest} {test record : StateTest}

theorem Logged.moved (logged : Logged env start r n m) (state : after.state = r.state)
    (deferList : after.deferList = r.deferList) : Logged env start after n m := by
  obtain ⟨header, pending, records, passed, failed, finished⟩ := logged
  exact ⟨state ▸ header, deferList ▸ pending, state ▸ records, state ▸ passed, state ▸ failed, state ▸ finished⟩

theorem Logged.staged (logged : Logged env start r n m) (stage : Stage) :
    Logged env start { r with state.currentStage := stage } n m := by
  obtain ⟨header, pending, records, passed, failed, finished⟩ := logged
  exact ⟨header, pending, records, passed, failed, finished⟩

theorem Logged.last (logged : Logged env start r n m) (here : At r earlier test) : ExactRecord test := by
  obtain ⟨records, tests, _, exact⟩ := logged.records
  rw [here.tests, Option.some.injEq] at tests
  subst tests
  exact exact test (by simp)

/-- The current record is replaced by another exact one. -/
theorem Logged.put (logged : Logged env start r n m) (here : At r earlier test) (exact : ExactRecord record)
    (state : after.state = recorded r.state earlier record) (deferList : after.deferList = r.deferList) :
    Logged env start after n m := by
  obtain ⟨header, pending, ⟨records, tests, length, all⟩, passed, failed, finished⟩ := logged
  rw [here.tests, Option.some.injEq] at tests
  subst tests
  refine ⟨?_, deferList ▸ pending, ⟨earlier ++ [record], ?_, ?_, ?_⟩, ?_, ?_, ?_⟩
  · rw [state]
    exact header
  · rw [state, recorded_tests]
  · rw [← length, List.length_append, List.length_append]
    rfl
  · intro t inside
    obtain old | new := List.mem_append.mp inside
    · exact all t (by simp [old])
    · rwa [List.mem_singleton.mp new]
  · rw [state]
    exact passed
  · rw [state]
    exact failed
  · rw [state]
    exact finished

theorem Logged.current (logged : Logged env start r (n + 1) m) : ∃ earlier test, At r earlier test := by
  obtain ⟨records, tests, length, _⟩ := logged.records
  obtain ⟨earlier, test, here, _⟩ := At.of_length tests length
  exact ⟨earlier, test, here⟩

theorem log_logged (logged : Logged env start r n m) {call : LogCall} (modest : ModestCall call) :
    Ends (ltfStateLog env call r) fun after => Logged env start after n m := by
  cases stage : r.state.currentStage with
  | hook =>
    rw [log_hook env stage call]
    exact .ok (logged.moved rfl rfl)
  | teardown =>
    rw [log_dropped env stage call]
    exact .ok (logged.moved rfl rfl)
  | test =>
    cases last : r.tests.getLast? with
    | none =>
      rw [log_unrecorded env last stage call]
      exact .stop
    | some test =>
      have here := At.of_last last
      rw [log_test env here stage call]
      exact .ok (logged.put here (takeLog_exact (logged.last here) (logOutput_exact modest _)) rfl rfl)

theorem code_logged (logged : Logged env start r n m) {code : LuaCode} (modest : Modest env code) :
    Ends (runLua env code r) fun after => Logged env start after n m := by
  obtain @⟨actions, outcome, logs, defers, error⟩ := modest
  rw [runLua, LuaCode.actions]
  clear error
  induction actions generalizing r with
  | nil => exact .ok logged
  | cons action actions ih =>
    rw [List.foldlM_cons]
    cases action with
    | log call =>
      refine (log_logged logged (logs call (by simp))).bind ?_
      intro middle next
      refine ih next (fun other inside => logs other (by simp [inside])) ?_
      intro fn args inside
      exact defers fn args inside
    | defer fn args =>
      have deferred : Logged env start (lModuleLtfDefer fn args r) n m := by
        refine ⟨logged.header, ?_, logged.records, logged.passed, logged.failed, logged.finished⟩
        intro entry inside
        obtain old | new := List.mem_append.mp inside
        · exact logged.pending entry old
        · cases List.mem_singleton.mp new
          exact defers fn args (by simp)
      refine ih deferred (fun other inside => logs other inside) ?_
      intro other given inside
      exact defers other given (by simp [inside])

theorem hook_logged (logged : Logged env start r n m) {fn : HookFn} {hook : LuaCode} (modest : Modest env hook) :
    Ends (ltfHooksStep env fn r hook) fun after => Logged env start after n m := by
  have called : Logged env start ((r.emit (r.state.hookStartedCbs.map (.hookStarted · fn))).push 2) n m :=
    logged.moved rfl rfl
  refine (code_logged called modest).bind ?_
  intro middle inside
  cases hook.outcome with
  | returned =>
    have finished : Logged env start ((middle.pop 2).emit (middle.state.hookFinishedCbs.map (.hookFinished · fn))) n m :=
      inside.moved rfl rfl
    exact .ok (finished.staged .test)
  | failed err =>
    have failed : Logged env start
        (((middle.pop 2).push 1).emit (middle.state.hookFailedCbs.map (.hookFailed · fn err))) n m :=
      inside.moved rfl rfl
    exact .ok (failed.staged .test)

/-- All hooks of a run are modest, at every call. -/
def ModestHooks (env : Env) (s : LtfState) : Prop :=
  ∀ fn, ∀ hook ∈ ltfGetHooks s fn, ∀ records, Modest env (hook records)

theorem hooks_logged (logged : Logged env start r n m) (modest : ModestHooks env start.state) (fn : HookFn) :
    Ends (ltfHooksRun env fn r) fun after => Logged env start after n m := by
  have same : ltfGetHooks r.state fn = ltfGetHooks start.state fn := by
    have hooks : ltfGetHooks (header r.state) fn = ltfGetHooks (header start.state) fn := by rw [logged.header]
    cases fn <;> exact hooks
  have each : ∀ call ∈ hookCalls r.state fn, Modest env call := by
    intro call inside
    obtain ⟨hook, registered, rfl⟩ := List.mem_map.mp inside
    exact modest fn hook (same ▸ registered) _
  rw [ltfHooksRun]
  split
  · exact .ok (logged.staged .test)
  · generalize hookCalls r.state fn = hooks at each
    have staged := logged.staged .hook
    generalize ({ r with state.currentStage := .hook } : Runner) = before at staged
    induction hooks generalizing before with
    | nil => exact .ok staged
    | cons hook hooks ih =>
      rw [List.foldlM_cons]
      refine (hook_logged staged (each hook (by simp))).bind ?_
      intro middle next
      exact ih (fun other inside => each other (by simp [inside])) middle next

theorem begin_logged (logged : Logged env start r n n) (modest : ModestHooks env start.state) (tc : TestCase) :
    Ends (beginTest env tc r) fun after => Logged env start after (n + 1) n := by
  obtain ⟨header, pending, ⟨records, tests, length, all⟩, passed, failed, finished⟩ := logged
  have started : Logged env start (ltfStateTestStarted env tc { r with testMarkedFailed := false }) (n + 1) n := by
    refine ⟨header, pending, ⟨records ++ [newRecord env tc r], ?_, ?_, ?_⟩, passed, failed, finished⟩
    · show daAppend r.state.tests (newRecord env tc r) = _
      rw [tests]
      rfl
    · rw [List.length_append, length]
      rfl
    · intro t inside
      obtain old | new := List.mem_append.mp inside
      · exact all t old
      · cases List.mem_singleton.mp new
        exact newRecord_exact
  exact hooks_logged started modest _

theorem report_logged (logged : Logged env start r (n + 1) n) {tc : TestCase} (modest : Modest env tc.body) :
    Ends (reportBody env tc r) fun verdict => Logged env start verdict.1 (n + 1) (n + 1) := by
  obtain ⟨earlier, test, here⟩ := logged.current
  have trace : ∀ value, tc.body.outcome = .failed value → ModestTrace env value := by
    cases body : tc.body with
    | mk actions outcome =>
      rw [body] at modest
      cases modest with
      | mk logs defers error => exact error
  let record := reportedRecord env tc r test
  have exact : ExactRecord record := reportedRecord_exact (logged.last here) trace
  have written : Logged env start { r with state := recorded r.state earlier record } (n + 1) n :=
    logged.put here exact rfl rfl
  obtain ⟨header, pending, records, passed, failed, finished⟩ := written
  rw [body_reported env here]
  refine .ok ⟨header, pending, records, ?_, ?_, ?_⟩
  · show r.state.passedAmount + _ ≤ n + 1
    have bound : r.state.passedAmount ≤ n := passed
    split <;> omega
  · show r.state.failedAmount + _ ≤ n + 1
    have bound : r.state.failedAmount ≤ n := failed
    split <;> omega
  · show r.state.finishedAmount + 1 = n + 1
    rw [logged.finished]

theorem defer_logged (logged : Logged env start r (n + 1) m) (status : CStr) {entry : DeferEntry}
    (modest : ∀ given, Modest env (entry.fn given)) :
    Ends (runDeferredStep env status entry r) fun after => Logged env start after (n + 1) m := by
  let args := deferArguments env status entry
  have called : Logged env start (((r.push 2).push (1 + args.length)).emit [.deferInvoked entry args]) (n + 1) m :=
    logged.moved rfl rfl
  refine (code_logged called (modest args)).bind ?_
  intro middle inside
  have trace : ∀ value, (entry.fn args).outcome = .failed value → ModestTrace env value := by
    have fine := modest args
    cases body : entry.fn args with
    | mk actions outcome =>
      rw [body] at fine
      cases fine with
      | mk logs defers error => exact error
  cases outcome : (entry.fn (deferArguments env status entry)).outcome with
  | returned => exact .ok (inside.moved rfl rfl)
  | failed value =>
    have popped : Logged env start (((middle.pop (1 + args.length)).push 1).pop 1) (n + 1) m := inside.moved rfl rfl
    obtain ⟨earlier, test, here⟩ := popped.current
    have exact := popped.last here
    obtain ⟨reasons, outputs, teardowns, errors⟩ := (forall_outputArrays _ _).mp exact.outputs
    have modestTrace := trace value outcome
    have failed : ∀ file, Ends (ltfStateTestDeferFailed env file (traceLocation (CStr.ofBytes (ltfErrhandler env value))).2
        (CStr.ofBytes (ltfErrhandler env value)) (((middle.pop (1 + args.length)).push 1).pop 1)) fun after =>
          Logged env start after (n + 1) m := by
      intro file
      rw [defer_failed env here]
      refine .ok (popped.put here ?_ rfl rfl)
      refine ⟨exact.tags, (forall_outputArrays _ _).mpr ⟨reasons, outputs, teardowns, ?_⟩, exact.keywords⟩
      exact daAppend_exact errors ⟨modestTrace.line, rfl, ⟨_, rfl, rfl⟩, modestTrace.short⟩
    refine (failed _).bind ?_
    intro after written
    exact .ok (written.moved rfl rfl)

theorem queue_logged (status : CStr) (i : Nat) (logged : Logged env start r (n + 1) m) :
    Ends (runDeferredLoop env status i r) fun after => Logged env start after (n + 1) m := by
  induction i generalizing r with
  | zero => exact .ok logged
  | succ i ih =>
    rw [runDeferredLoop]
    cases here : (r.deferList.getD [])[i]? with
    | none => exact .stop
    | some entry =>
      have modest := logged.pending entry (List.mem_of_getElem? here)
      exact (defer_logged logged status modest).bind fun _ => ih

theorem deferred_logged (logged : Logged env start r (n + 1) m) (status : CStr) :
    Ends (runDeferred env status r) fun after => Logged env start after (n + 1) m := by
  rw [runDeferred]
  cases r.deferList with
  | none => exact .ok logged
  | some list =>
    have pushed : Logged env start (r.push 1) (n + 1) m := logged.moved rfl rfl
    obtain ⟨before, first, here⟩ := pushed.current
    have starts : Logged env start (enterTeardown env (r.push 1) before first) (n + 1) m :=
      pushed.put here (pushed.last here).stamped rfl rfl
    simp only [queue_started env here]
    refine (queue_logged status list.length starts).bind ?_
    intro middle tearing
    obtain ⟨before, last, there⟩ := tearing.current
    have ends : Logged env start (leaveTeardown env middle before last) (n + 1) m :=
      tearing.put there (tearing.last there).stamped rfl rfl
    rw [queue_finished env there]
    obtain ⟨header, _, records, passed, failed, finished⟩ := ends
    refine .ok ⟨header, ?_, records, passed, failed, finished⟩
    intro entry inside
    cases inside

theorem iteration_logged {loop : Loop} (logged : Logged env start loop.runner n n)
    (hooks : ModestHooks env start.state) {tc : TestCase} (modest : Modest env tc.body) :
    Ends (runIteration env loop tc) fun after => Logged env start after.runner (n + 1) (n + 1) := by
  refine (begin_logged logged hooks tc).bind ?_
  intro begun opened
  have pushed : Logged env start (begun.push 2) (n + 1) n := opened.moved rfl rfl
  have called : Ends (callBody env tc begun) fun after => Logged env start after (n + 1) n :=
    (code_logged pushed modest).bind fun _ inside => .ok (inside.moved rfl rfl)
  refine called.bind ?_
  intro bodied inside
  refine (report_logged inside modest).bind ?_
  intro verdict judged
  refine (deferred_logged judged _).bind ?_
  intro torn ended
  split
  · exact .stop
  · exact (hooks_logged ended hooks _).bind fun _ rest => .ok rest

theorem tests_logged {loop : Loop} (logged : Logged env start loop.runner n n) (hooks : ModestHooks env start.state)
    {tests : List TestCase} (modest : ∀ tc ∈ tests, Modest env tc.body) :
    Ends (runTests env tests loop) fun after =>
      Logged env start after.runner (n + tests.length) (n + tests.length) := by
  induction tests generalizing loop n with
  | nil => exact .ok logged
  | cons tc tests ih =>
    rw [runTests, List.foldlM_cons, List.length_cons, ← Nat.add_assoc, Nat.add_right_comm]
    refine (iteration_logged logged hooks (modest tc (by simp))).bind ?_
    intro middle next
    exact ih next fun other inside => modest other (by simp [inside])

end Steps

/-- The state in which the test run finished callbacks are called, and so the one that is written. -/
def writtenState (env : Env) (tests : List TestCase) (r : Runner) : Process LtfState := do
  let loop ← beginRun env r
  let loop ← runTests env tests loop
  return (ltfStateTestRunFinished env loop.runner).state

/-- The state a run starts with, as `ltf_test` has prepared it: nothing is recorded, and the variables are settled. -/
structure Prepared (env : Env) (r : Runner) : Prop where
  tests : r.state.tests = some []
  amounts : r.state.passedAmount = 0 ∧ r.state.failedAmount = 0 ∧ r.state.finishedAmount = 0
  pending : r.deferList = none
  vars : (∀ var ∈ r.state.vars.getD [], var.finalValue.isSome = true) ∧ ((r.state.vars.getD []).map (·.name)).Nodup
  tags : ∀ tag ∈ r.state.tags.getD [], tag.isSome = true
  hooks : ModestHooks env r.state

/-- The keyword forests that the recorder has attached to the records. -/
def attach (forests : Nat → DaPtr KeywordStatus) (s : LtfState) : LtfState :=
  { s with tests := s.tests.map fun tests => tests.mapIdx fun i t => { t with keywordStatuses := forests i } }

/-- All arrays of a state can be indexed by an `int`. -/
structure Sizes (s : LtfState) : Prop where
  tags : Indexable s.tags
  tests : (s.tests.getD []).length < 2147483648
  each : ∀ t ∈ s.tests.getD [], Indexable t.tags ∧ ∀ arr ∈ outputArrays t, Indexable arr

instance (s : LtfState) : Decidable (Sizes s) :=
  decidable_of_iff ((s.tags.getD []).length ≤ 2147483648 ∧ (s.tests.getD []).length < 2147483648 ∧
    ∀ t ∈ s.tests.getD [], (t.tags.getD []).length ≤ 2147483648 ∧
      ∀ arr ∈ outputArrays t, (arr.getD []).length ≤ 2147483648)
    ⟨fun sizes => ⟨sizes.1, sizes.2.1, sizes.2.2⟩, fun sizes => ⟨sizes.tags, sizes.tests, sizes.each⟩⟩

theorem prepared_logged {env : Env} {r : Runner} (prepared : Prepared env r) : Logged env r r 0 0 := by
  obtain ⟨passed, failed, finished⟩ := prepared.amounts
  refine ⟨rfl, ?_, ⟨[], prepared.tests, rfl, ?_⟩, Nat.le_of_eq passed, Nat.le_of_eq failed, finished⟩
  · intro entry inside
    rw [prepared.pending] at inside
    cases inside
  · intro t inside
    cases inside

/-- The state that is written has a record for each test, and is otherwise as it was prepared. -/
theorem written_logged {env : Env} {r : Runner} (prepared : Prepared env r) {tests : List TestCase}
    (modest : ∀ tc ∈ tests, Modest env tc.body) :
    Ends (writtenState env tests r) fun s =>
      ∃ last : Runner, s = (ltfStateTestRunFinished env last).state ∧ Logged env r last tests.length tests.length := by
  obtain ⟨header, pending, records, passed, failed, finished⟩ := prepared_logged prepared
  have started : Logged env r (ltfStateTestRunStarted env r) 0 0 := ⟨header, pending, records, passed, failed, finished⟩
  have opened : Ends (beginRun env r) fun loop => Logged env r loop.runner 0 0 :=
    (hooks_logged started prepared.hooks _).bind fun _ rest => .ok rest
  refine opened.bind ?_
  intro loop first
  refine (tests_logged first prepared.hooks modest).bind ?_
  intro done rest
  rw [Nat.zero_add] at rest
  exact .ok ⟨done.runner, rfl, rest⟩

theorem attach_mem {forests : Nat → DaPtr KeywordStatus} {s : LtfState} {t : StateTest}
    (inside : t ∈ (attach forests s).tests.getD []) :
    ∃ own ∈ s.tests.getD [], ∃ i, t = { own with keywordStatuses := forests i } := by
  cases tests : s.tests with
  | none => simp [attach, tests] at inside
  | some records =>
    simp only [attach, tests, Option.map_some, Option.getD_some, List.mem_mapIdx] at inside
    obtain ⟨i, bound, rfl⟩ := inside
    exact ⟨records[i], by simp, i, rfl⟩

theorem written_exact {env : Env} {r : Runner} (prepared : Prepared env r) {tests : List TestCase}
    (modest : ∀ tc ∈ tests, Modest env tc.body) {s : LtfState} (ran : writtenState env tests r = .ok s)
    {forests : Nat → DaPtr KeywordStatus}
    (keywords : ∀ i, Indexable (forests i) ∧ ∀ keyword ∈ (forests i).getD [], ExactKeyword keyword) (sizes : Sizes s) :
    ExactState (attach forests s) ∧ daSize (attach forests s).tests = tests.length := by
  obtain ⟨last, rfl, logged⟩ := written_logged prepared modest s ran
  obtain ⟨records, known, length, exact⟩ := logged.records
  have known : (ltfStateTestRunFinished env last).state.tests = some records := known
  have vars : (header last.state).vars = (header r.state).vars := by rw [logged.header]
  have tags : (header last.state).tags = (header r.state).tags := by rw [logged.header]
  have bound : tests.length < 2147483648 := by
    have small := sizes.tests
    rwa [known, Option.getD_some, length] at small
  have size : daSize (attach forests (ltfStateTestRunFinished env last).state).tests = tests.length := by
    rw [attach, known, Option.map_some, daSize, Option.getD_some, List.length_mapIdx, length]
  refine ⟨⟨⟨?_, ?_, ?_⟩, ?_, ⟨sizes.tags, ?_⟩, ?_, ?_⟩, size⟩
  · exact Nat.lt_of_le_of_lt logged.passed bound
  · exact Nat.lt_of_le_of_lt logged.failed bound
  · exact Nat.lt_of_le_of_lt (Nat.le_of_eq logged.finished) bound
  · show (∀ var ∈ last.state.vars.getD [], _) ∧ ((last.state.vars.getD []).map (·.name)).Nodup
    rw [show last.state.vars = r.state.vars from vars]
    exact prepared.vars
  · show ∀ tag ∈ last.state.tags.getD [], _
    rw [show last.state.tags = r.state.tags from tags]
    exact prepared.tags
  · rw [daSize] at size
    rw [Indexable, size]
    exact Nat.le_of_lt bound
  · intro t inside
    obtain ⟨own, there, i, rfl⟩ := attach_mem inside
    obtain ⟨sizeTags, sizeOutputs⟩ := sizes.each own there
    rw [known, Option.getD_some] at there
    have fine := exact own there
    exact ⟨⟨sizeTags, fine.tags⟩, fun arr among => ⟨sizeOutputs arr among, fine.outputs arr among⟩, keywords i⟩

/-- Whatever hooks, tests and deferred functions of a run do, the state it hands over to be
written is exact, so the log gives it back with a record for each test. -/
theorem raw_log_reread (lib : Coercions) (beyond : Nat → UInt8) {env : Env} {r : Runner} (prepared : Prepared env r)
    {tests : List TestCase} (modest : ∀ tc ∈ tests, Modest env tc.body) {s : LtfState}
    (ran : writtenState env tests r = .ok s) {forests : Nat → DaPtr KeywordStatus}
    (keywords : ∀ i, Indexable (forests i) ∧ ∀ keyword ∈ (forests i).getD [], ExactKeyword keyword) (sizes : Sizes s) :
    ∃ root, ltfStateToJson beyond (attach forests s) = some root ∧
      ltfStateFromJson lib root = some (some (recalled (attach forests s))) ∧
      (recalled (attach forests s)).totalAmount = tests.length := by
  obtain ⟨exact, size⟩ := written_exact prepared modest ran keywords sizes
  obtain ⟨root, written, read⟩ := state_recalled lib beyond exact
  exact ⟨root, written, read, size⟩

theorem newRunner_prepared : Prepared plainEnv newRunner := by
  refine ⟨rfl, ⟨rfl, rfl, rfl⟩, rfl, ⟨?_, .nil⟩, ?_, ?_⟩
  · intro var inside
    cases inside
  · intro tag inside
    cases inside
  · intro fn hook inside
    cases fn <;> cases inside

/-- The tests of the example log and fail; the error of the deferred function has no text. -/
theorem twoTests_modest : ∀ tc ∈ twoTests, Modest plainEnv tc.body := by
  have call : ModestCall { level := .error, file := none, line := 1, msg := [98, 97, 100] } :=
    ⟨⟨by decide, by decide⟩, by decide, by decide⟩
  have trace : ModestTrace plainEnv none := ⟨by decide, ⟨by decide, by decide⟩⟩
  have calm : ∀ value, LuaOutcome.returned = .failed value → ModestTrace plainEnv value := fun _ never => by cases never
  have cleanup : Modest plainEnv
      (.mk [.log { level := .error, file := none, line := 1, msg := [98, 97, 100] }] (.failed none)) := by
    refine .mk (by simpa [logCalls] using call) (by simp) ?_
    intro value same
    cases same
    exact trace
  intro tc inside
  simp only [twoTests, List.mem_cons, List.not_mem_nil, or_false] at inside
  obtain rfl | rfl := inside
  · refine .mk (by simp [logCalls]) ?_ calm
    intro fn args among given
    simp only [registrations_defer, registrations_nil, List.mem_singleton, Prod.mk.injEq] at among
    rw [among.1]
    exact cleanup
  · exact .mk (by simpa [logCalls] using call) (by simp) calm

theorem raw_log_reread_two_tests : ∃ s, writtenState plainEnv twoTests newRunner = .ok s ∧
    ∃ root, ltfStateToJson (fun _ => 0) (attach (fun _ => none) s) = some root ∧
      ltfStateFromJson default root = some (some (recalled (attach (fun _ => none) s))) ∧
      (recalled (attach (fun _ => none) s)).totalAmount = 2 := by
  refine ⟨_, rfl, ?_⟩
  refine raw_log_reread default (fun _ => 0) newRunner_prepared twoTests_modest rfl ?_ (of_decide_eq_true rfl)
  intro _
  exact ⟨Nat.zero_le _, fun _ inside => by cases inside⟩

end Ltf.Proofs.RunLog
