import Ltf.Base.Monitor
import Ltf.Proofs.TestRun
import Ltf.RunProtocol

/-! Every run that comes to an end keeps to the protocol. The news it has told so far lead
the protocol to the place it is in, and every callback was called for every piece of
news it is registered for, in the order of the news and of the registrations. -/

namespace Ltf.Proofs.RunProtocol
open Monitor RunnerSteps Steps TestRun

theorem calls_append (first rest : List Event) : calls (first ++ rest) = calls first ++ calls rest :=
  List.filter_append ..

@[simp] theorem calls_reach (news : News) (cbs : List Nat) : calls (cbs.map news.reach) = cbs.map news.reach := by
  apply List.filter_eq_self.mpr
  intro event member
  obtain ⟨cb, _, rfl⟩ := List.mem_map.mp member
  cases news <;> rfl

@[simp] theorem calls_current (rest : List Event) : calls (.currentTest :: rest) = calls rest := rfl

/-- The news of a run up to now: they are a story the protocol allows, and were spread. -/
structure Story (start r : Runner) (place : Place) : Prop where
  tests : ∃ records, r.state.tests = some records ∧ records.length = place.records
  listeners : ∀ news : News, news.listeners r.state = news.listeners start.state
  told : ∃ story, Accepts Place.next ⟨.new, 0, none⟩ story place ∧
    calls r.trace = calls start.trace ++ story.flatMap (News.spread (News.listeners start.state))

section Steps
variable {start r after : Runner} {place later : Place} {phase : Phase} {n : Nat} {fn : HookFn}

/-- Nothing that callbacks can see has happened. -/
theorem Story.moved (story : Story start r place) (state : after.state = r.state)
    (trace : calls after.trace = calls r.trace) : Story start after place := by
  obtain ⟨tests, listeners, told⟩ := story
  exact ⟨state ▸ tests, state ▸ listeners, trace ▸ told⟩

theorem Story.staged (story : Story start r place) (stage : Stage) :
    Story start { r with state.currentStage := stage } place := by
  refine ⟨story.tests, ?_, story.told⟩
  intro news
  rw [← story.listeners news]
  cases news <;> rfl

theorem Story.tell (story : Story start r place) (news : News) (step : place.next news = some later)
    (tests : ∃ records, after.state.tests = some records ∧ records.length = later.records)
    (listeners : ∀ other : News, other.listeners after.state = other.listeners r.state)
    (trace : calls after.trace = calls r.trace ++ (news.listeners r.state).map news.reach) :
    Story start after later := by
  obtain ⟨earlier, accepted, spread⟩ := story.told
  refine ⟨tests, fun other => (listeners other).trans (story.listeners other), earlier ++ [news],
    accepted.concat step, ?_⟩
  rw [trace, spread, story.listeners, List.append_assoc, List.flatMap_append, List.flatMap_singleton]
  rfl

/-- News that are told without a look at the records. -/
theorem Story.emit (story : Story start r place) (news : News) (step : place.next news = some later)
    (same : later.records = place.records) : Story start (r.emit ((news.listeners r.state).map news.reach)) later := by
  refine story.tell news step ?_ (fun _ => rfl) ?_
  · rw [same]
    exact story.tests
  · rw [emit_trace, calls_append, calls_reach]

theorem Story.current (story : Story start r place) (some : place.records = n + 1) :
    ∃ earlier test, At r earlier test ∧ earlier.length = n := by
  obtain ⟨records, tests, length⟩ := story.tests
  exact At.of_length tests (length.trans some)

/-- News about the current record, which is written at the same time. -/
theorem Story.write {earlier : List StateTest} {test record : StateTest} (story : Story start r place)
    (here : At r earlier test) (news : News) (step : place.next news = some later) (same : later.records = place.records)
    (tests : after.state.tests = some (earlier ++ [record]))
    (listeners : ∀ other : News, other.listeners after.state = other.listeners r.state)
    (trace : after.trace = r.trace ++ .currentTest :: (news.listeners r.state).map news.reach) :
    Story start after later := by
  refine story.tell news step ?_ listeners ?_
  · obtain ⟨records, known, length⟩ := story.tests
    have last : records = earlier ++ [test] := Option.some.inj (known.symm.trans here.tests)
    refine ⟨earlier ++ [record], tests, ?_⟩
    rw [same, ← length, last, List.length_append, List.length_append]
    rfl
  · rw [trace, calls_append, calls_current, calls_reach]

variable {env : Env}

/-- A log goes to the current record, or is not allowed at all. -/
theorem log_record (story : Story start r place) (stage : r.state.currentStage = .test) (call : LogCall)
    (step : ∀ record output, record + 1 = place.records → place.next (.testLog record output) = some later)
    (same : later.records = place.records) :
    Ends (ltfStateLog env call r) fun after => after.state.currentStage = .test ∧ Story start after later := by
  intro after ran
  cases amount : place.records with
  | zero =>
    obtain ⟨records, tests, length⟩ := story.tests
    have empty : records = [] := by simpa [amount] using length
    have missing : r.tests.getLast? = none := by simp [Runner.tests, tests, empty]
    rw [log_unrecorded env missing stage call] at ran
    cases ran
  | succ n =>
    obtain ⟨earlier, test, here, length⟩ := story.current amount
    rw [log_test env here stage call] at ran
    cases ran
    have told := step earlier.length (logOutput (env.clock r.ticks) call) (by rw [length, amount])
    refine ⟨stage, story.write here (.testLog _ _) told same rfl ?_ rfl⟩
    intro other
    cases other <;> rfl

theorem defer_registered (story : Story start r place) (fn : List LuaValue → LuaCode) (args : List LuaValue) :
    Story start (lModuleLtfDefer fn args r) place := by
  refine story.moved rfl ?_
  exact (calls_append _ _).trans (List.append_nil _)

/-- The code of a hook logs to the hook log or to the current record. -/
theorem hook_code (story : Story start r ⟨phase, n, some fn⟩) (code : LuaCode) :
    Ends (runLua env code r) fun after => Story start after ⟨phase, n, some fn⟩ := by
  refine .foldlM ?_ story
  intro middle action inside
  cases action with
  | defer fn args => exact .ok (defer_registered inside fn args)
  | log call =>
    cases stage : middle.state.currentStage with
    | test =>
      intro after ran
      refine (log_record inside stage call ?_ rfl after ran).2
      intro record output current
      exact if_pos current
    | hook =>
      intro after ran
      have told := inside.emit (.hookLog (logOutput (env.clock middle.ticks) call)) rfl rfl
      rw [luaAction, log_hook env stage call] at ran
      cases ran
      exact told.moved rfl rfl
    | teardown =>
      rw [luaAction, log_dropped env stage call]
      exact .ok (inside.moved rfl rfl)

theorem hookPhase_stays {later : Phase} (path : hookPhase phase fn = some later) :
    hookPhase later fn = some later := by
  cases phase <;> cases fn <;> cases path <;> rfl

theorem hook_story {later : Phase} (story : Story start r ⟨phase, n, none⟩) (path : hookPhase phase fn = some later)
    (hook : LuaCode) :
    Ends (ltfHooksStep env fn r hook) fun after =>
      after.state.currentStage = .test ∧ Story start after ⟨later, n, none⟩ := by
  have opens : Place.next ⟨phase, n, none⟩ (.hookStarted fn) = some ⟨later, n, some fn⟩ := by
    simp [Place.next, Place.nextOutside, path]
  have entered : Story start ((r.emit (r.state.hookStartedCbs.map (.hookStarted · fn))).push 2) ⟨later, n, some fn⟩ :=
    (story.emit (.hookStarted fn) opens rfl).moved rfl rfl
  refine (hook_code entered hook).bind ?_
  intro middle inside
  have popped : Story start (middle.pop 2) ⟨later, n, some fn⟩ := inside.moved rfl rfl
  cases hook.outcome with
  | returned =>
    have closes : Place.next ⟨later, n, some fn⟩ (.hookFinished fn) = some ⟨later, n, none⟩ := if_pos rfl
    exact .ok ⟨rfl, (popped.emit (.hookFinished fn) closes rfl).staged .test⟩
  | failed err =>
    have closes : Place.next ⟨later, n, some fn⟩ (.hookFailed fn err) = some ⟨later, n, none⟩ := if_pos rfl
    have pushed : Story start ((middle.pop 2).push 1) ⟨later, n, some fn⟩ := popped.moved rfl rfl
    exact .ok ⟨rfl, (pushed.emit (.hookFailed fn err) closes rfl).staged .test⟩

/-- The hooks of an event leave the test stage behind, and the phase only if there were any. -/
theorem hooks_story {later : Phase} (story : Story start r ⟨phase, n, none⟩) (path : hookPhase phase fn = some later) :
    Ends (ltfHooksRun env fn r) fun after => after.state.currentStage = .test ∧
      (Story start after ⟨phase, n, none⟩ ∨ Story start after ⟨later, n, none⟩) := by
  rw [ltfHooksRun]
  cases hookCalls r.state fn with
  | nil => exact .ok ⟨rfl, .inl (story.staged .test)⟩
  | cons hook hooks =>
    rw [if_neg (by simp), List.foldlM_cons]
    refine (hook_story (story.staged .hook) path hook).bind ?_
    intro middle first
    have rest : Ends (hooks.foldlM (ltfHooksStep env fn) middle) fun after =>
        after.state.currentStage = .test ∧ Story start after ⟨later, n, none⟩ :=
      .foldlM (fun between hook done => hook_story done.2 (hookPhase_stays path) hook) first
    intro after ran
    exact ⟨(rest after ran).1, .inr (rest after ran).2⟩

theorem hooks_stay (story : Story start r ⟨phase, n, none⟩) (path : hookPhase phase fn = some phase) :
    Ends (ltfHooksRun env fn r) fun after => after.state.currentStage = .test ∧ Story start after ⟨phase, n, none⟩ := by
  intro after ran
  obtain ⟨stage, same⟩ := hooks_story story path after ran
  exact ⟨stage, same.elim id id⟩

/-- Between a test and the next one. -/
def AtRest (start r : Runner) (n : Nat) : Prop :=
  Story start r ⟨.opened, n, none⟩ ∨ Story start r ⟨.judged, n, none⟩ ∨ Story start r ⟨.closed, n, none⟩

theorem test_begins (rest : AtRest start r n) (tc : TestCase) :
    Story start (ltfStateTestStarted env tc r) ⟨.begun, n + 1, none⟩ := by
  have first : ∃ phase, Story start r ⟨phase, n, none⟩ ∧
      Place.next ⟨phase, n, none⟩ (.testStarted n) = some ⟨.begun, n + 1, none⟩ := by
    obtain opened | judged | closed := rest
    · exact ⟨.opened, opened, if_pos rfl⟩
    · exact ⟨.judged, judged, if_pos rfl⟩
    · exact ⟨.closed, closed, if_pos rfl⟩
  obtain ⟨phase, story, step⟩ := first
  obtain ⟨records, tests, length⟩ := story.tests
  refine story.tell (.testStarted n) step ?_ ?_ ?_
  · exact ⟨_, by simp only [ltfStateTestStarted, tick_state, tests, daAppend, Option.map_some]; rfl, by simp [length]⟩
  · intro other
    cases other <;> rfl
  · have current : (ltfStateTestStarted env tc r).current = n := by
      simp [ltfStateTestStarted, Runner.current, Runner.emit, Runner.tick, tests, daAppend, daSize, length]
    rw [← current]
    exact (calls_append _ _).trans (congrArg _ (calls_reach (.testStarted _) _))

/-- The body of a test is running. -/
def InBody (start r : Runner) (n : Nat) : Prop :=
  r.state.currentStage = .test ∧ (Story start r ⟨.begun, n, none⟩ ∨ Story start r ⟨.running, n, none⟩)

theorem body_code (body : InBody start r n) (code : LuaCode) :
    Ends (runLua env code r) fun after => InBody start after n := by
  refine .foldlM ?_ body
  intro middle action inside
  obtain ⟨stage, inside⟩ := inside
  cases action with
  | defer fn args =>
    exact .ok ⟨stage, inside.imp (defer_registered · fn args) (defer_registered · fn args)⟩
  | log call =>
    intro after ran
    obtain begun | running := inside
    · obtain ⟨stage, logged⟩ := log_record begun stage call (fun _ _ current => if_pos current) rfl after ran
      exact ⟨stage, .inr logged⟩
    · obtain ⟨stage, logged⟩ := log_record running stage call (fun _ _ current => if_pos current) rfl after ran
      exact ⟨stage, .inr logged⟩

/-- The end of the body, whatever the verdict is. -/
theorem settled_story {earlier : List StateTest} {test : StateTest} (body : InBody start r (n + 1))
    (here : At r earlier test) (length : earlier.length = n) (record : StateTest) (passes : Bool) :
    (settled r earlier record passes).state.currentStage = .test ∧
      Story start (settled r earlier record passes) ⟨.judged, n + 1, none⟩ := by
  refine ⟨body.1, ?_⟩
  have current : earlier.length + 1 = n + 1 := by rw [length]
  obtain begun | running := body.2
  · refine begun.write here (.testFinished earlier.length) (if_pos current) rfl rfl ?_ rfl
    intro other
    cases other <;> rfl
  · refine running.write here (.testFinished earlier.length) (if_pos current) rfl rfl ?_ rfl
    intro other
    cases other <;> rfl

theorem report_story (body : InBody start r (n + 1)) (tc : TestCase) :
    Ends (reportBody env tc r) fun verdict =>
      verdict.1.state.currentStage = .test ∧ Story start verdict.1 ⟨.judged, n + 1, none⟩ := by
  have known : ∃ earlier test, At r earlier test ∧ earlier.length = n := by
    obtain begun | running := body.2
    · exact begun.current rfl
    · exact running.current rfl
  obtain ⟨earlier, test, here, length⟩ := known
  rw [body_reported env here]
  exact .ok (settled_story body here length _ _)

/-- The functions of the defer list are running. -/
def InTeardown (start r : Runner) (n : Nat) : Prop :=
  r.state.currentStage = .test ∧ Story start r ⟨.tearing, n, none⟩

theorem teardown_code (tearing : InTeardown start r n) (code : LuaCode) :
    Ends (runLua env code r) fun after => InTeardown start after n := by
  refine .foldlM ?_ tearing
  intro middle action inside
  obtain ⟨stage, inside⟩ := inside
  cases action with
  | defer fn args => exact .ok ⟨stage, defer_registered inside fn args⟩
  | log call => exact log_record inside stage call (fun _ _ current => if_pos current) rfl

theorem defer_story (tearing : InTeardown start r (n + 1)) (status : CString.CStr) (entry : DeferEntry) :
    Ends (runDeferredStep env status entry r) fun after => InTeardown start after (n + 1) := by
  obtain ⟨stage, story⟩ := tearing
  let args := deferArguments env status entry
  have called : InTeardown start (((r.push 2).push (1 + args.length)).emit [.deferInvoked entry args]) (n + 1) := by
    refine ⟨stage, story.moved rfl ?_⟩
    exact (calls_append _ _).trans (List.append_nil _)
  refine (teardown_code called _).bind ?_
  intro middle inside
  obtain ⟨stage, story⟩ := inside
  cases outcome : (entry.fn (deferArguments env status entry)).outcome with
  | returned => exact .ok ⟨stage, story.moved rfl rfl⟩
  | failed value =>
    have popped : Story start (((middle.pop (1 + args.length)).push 1).pop 1) ⟨.tearing, n + 1, none⟩ :=
      story.moved rfl rfl
    obtain ⟨earlier, test, here, length⟩ := popped.current rfl
    have current : earlier.length + 1 = n + 1 := by rw [length]
    have failed : ∀ file line msg,
        Ends (ltfStateTestDeferFailed env file line msg (((middle.pop (1 + args.length)).push 1).pop 1)) fun after =>
          InTeardown start after (n + 1) := by
      intro file line msg
      rw [defer_failed env here]
      refine .ok ⟨stage, popped.write here (.deferFailed earlier.length _) (if_pos current) rfl rfl ?_ rfl⟩
      intro other
      cases other <;> rfl
    refine (failed _ _ _).bind ?_
    intro after inside
    exact .ok ⟨inside.1, inside.2.moved rfl rfl⟩

theorem queue_story (status : CString.CStr) (i : Nat) (tearing : InTeardown start r (n + 1)) :
    Ends (runDeferredLoop env status i r) fun after => InTeardown start after (n + 1) := by
  induction i generalizing r with
  | zero => exact .ok tearing
  | succ i ih =>
    rw [runDeferredLoop]
    cases (r.deferList.getD [])[i]? with
    | none => exact .stop
    | some entry => exact (defer_story tearing status entry).bind fun _ => ih

/-- A test has its verdict and may have been torn down. -/
theorem deferred_story (story : Story start r ⟨.judged, n + 1, none⟩) (stage : r.state.currentStage = .test)
    (status : CString.CStr) :
    Ends (runDeferred env status r) fun after =>
      Story start after ⟨.judged, n + 1, none⟩ ∨ Story start after ⟨.closed, n + 1, none⟩ := by
  rw [runDeferred]
  cases r.deferList with
  | none => exact .ok (.inl story)
  | some list =>
    have pushed : Story start (r.push 1) ⟨.judged, n + 1, none⟩ := story.moved rfl rfl
    obtain ⟨earlier, test, here, length⟩ := pushed.current rfl
    have current : earlier.length + 1 = n + 1 := by rw [length]
    have starts : InTeardown start (enterTeardown env (r.push 1) earlier test) (n + 1) := by
      refine ⟨stage, pushed.write here (.teardownStarted earlier.length) (if_pos current) rfl rfl ?_ rfl⟩
      intro other
      cases other <;> rfl
    simp only [queue_started env here]
    refine (queue_story status list.length starts).bind ?_
    intro middle tearing
    obtain ⟨before, record, there, size⟩ := tearing.2.current rfl
    have last : before.length + 1 = n + 1 := by rw [size]
    rw [queue_finished env there]
    refine .ok (.inr ?_)
    have finished : Story start (leaveTeardown env middle before record) ⟨.closed, n + 1, none⟩ := by
      refine tearing.2.write there (.teardownFinished before.length) (if_pos last) rfl rfl ?_ rfl
      intro other
      cases other <;> rfl
    exact finished.moved rfl rfl

theorem iteration_story {loop : Loop} (rest : AtRest start loop.runner n) (tc : TestCase) :
    Ends (runIteration env loop tc) fun after => AtRest start after.runner (n + 1) := by
  have fresh : AtRest start { loop.runner with testMarkedFailed := false } n :=
    rest.imp (·.moved rfl rfl) (·.imp (·.moved rfl rfl) (·.moved rfl rfl))
  refine (hooks_stay (test_begins fresh tc) rfl).bind ?_
  intro begun opening
  have pushed : InBody start (begun.push 2) (n + 1) := ⟨opening.1, .inl (opening.2.moved rfl rfl)⟩
  have called : Ends (callBody env tc begun) fun after => InBody start after (n + 1) := by
    refine (body_code pushed tc.body).bind ?_
    intro middle body
    exact .ok ⟨body.1, body.2.imp (·.moved rfl rfl) (·.moved rfl rfl)⟩
  refine called.bind ?_
  intro bodied body
  refine (report_story body tc).bind ?_
  intro verdict judged
  refine (deferred_story judged.2 judged.1 _).bind ?_
  intro torn ended
  split
  · exact .stop
  · have hooks : Ends (ltfHooksRun env .testFinished torn) fun after => AtRest start after (n + 1) := by
      intro after ran
      obtain judged | closed := ended
      · obtain ⟨_, still | later⟩ := hooks_story judged rfl after ran
        · exact .inr (.inl still)
        · exact .inr (.inr later)
      · exact .inr (.inr (hooks_stay closed rfl after ran).2)
    exact hooks.bind fun _ rest => .ok rest

theorem tests_story {loop : Loop} (rest : AtRest start loop.runner n) (tests : List TestCase) :
    Ends (runTests env tests loop) fun after => AtRest start after.runner (n + tests.length) := by
  induction tests generalizing loop n with
  | nil => exact .ok rest
  | cons tc tests ih =>
    rw [runTests, List.foldlM_cons, List.length_cons, ← Nat.add_assoc, Nat.add_right_comm]
    exact (iteration_story rest tc).bind fun _ => ih

theorem run_story (tests : List TestCase) (fresh : start.state.tests = some []) :
    Ends (runAllTests env tests start) fun ended => Story start ended.2 ⟨.over, tests.length, none⟩ := by
  have new : Story start { start.tick with state.started := some (env.clock start.ticks) } ⟨.new, 0, none⟩ := by
    refine ⟨⟨[], fresh, rfl⟩, ?_, [], .nil, (List.append_nil _).symm⟩
    intro news
    cases news <;> rfl
  have opened : Ends (beginRun env start) fun loop => AtRest start loop.runner 0 := by
    have told : Story start (ltfStateTestRunStarted env start) ⟨.opened, 0, none⟩ := new.emit .testRunStarted rfl rfl
    refine (hooks_stay told rfl).bind ?_
    intro begun opening
    exact .ok (.inl opening.2)
  refine opened.bind ?_
  intro loop first
  refine (tests_story first tests).bind ?_
  intro done rest
  rw [Nat.zero_add] at rest
  have finished : Story start (ltfStateTestRunFinished env done.runner) ⟨.over, tests.length, none⟩ := by
    have finish : ∀ {phase}, Story start done.runner ⟨phase, tests.length, none⟩ →
        Place.next ⟨phase, tests.length, none⟩ .testRunFinished = some ⟨.over, tests.length, none⟩ →
        Story start (ltfStateTestRunFinished env done.runner) ⟨.over, tests.length, none⟩ := by
      intro phase story step
      refine story.tell .testRunFinished step story.tests ?_ ?_
      · intro other
        cases other <;> rfl
      · exact (calls_append _ _).trans (congrArg _ (calls_reach .testRunFinished _))
    obtain opened | judged | closed := rest
    · exact finish opened rfl
    · exact finish judged rfl
    · exact finish closed rfl
  exact (hooks_stay finished rfl).bind fun _ ended => .ok ended.2

end Steps

section Counts
variable {place after : Place} {news : News}

theorem onRecord_eq {record : Nat} {phase : Phase} (step : place.onRecord record phase = some after) :
    record + 1 = place.records ∧ after = { place with phase } := by
  obtain ⟨current, same⟩ := Option.ite_none_right_eq_some.mp step
  exact ⟨current, (Option.some.inj same).symm⟩

/-- Inside a hook nothing is numbered. -/
theorem inHook_kept {fn : HookFn} (step : place.nextInHook fn news = some after) :
    news.begun = none ∧ news.judged = none ∧ after.records = place.records ∧ after.phase = place.phase := by
  cases news with
  | hookLog output =>
    cases step
    exact ⟨rfl, rfl, rfl, rfl⟩
  | testLog record output =>
    obtain ⟨_, rfl⟩ := onRecord_eq step
    exact ⟨rfl, rfl, rfl, rfl⟩
  | hookFinished other | hookFailed other err =>
    obtain ⟨_, same⟩ := Option.ite_none_right_eq_some.mp step
    cases same
    exact ⟨rfl, rfl, rfl, rfl⟩
  | _ => cases step

theorem hookPhase_verdicts {phase later : Phase} {fn : HookFn} (path : hookPhase phase fn = some later) (n : Nat)
    (hook : Option HookFn) : Place.verdicts ⟨later, n, hook⟩ = Place.verdicts ⟨phase, n, none⟩ := by
  cases phase <;> cases fn <;> cases path <;> rfl

/-- News that number no test. -/
structure Unnumbered (place : Place) (news : News) (after : Place) : Prop where
  begun : news.begun = none
  judged : news.judged = none
  records : after.records = place.records
  verdicts : after.verdicts = place.verdicts

/-- A step between two hooks begins a test, judges the test that has begun, or numbers none. -/
theorem outside_cases {phase : Phase} {n : Nat} (step : Place.nextOutside ⟨phase, n, none⟩ news = some after) :
    (news = .testStarted n ∧ Place.verdicts ⟨phase, n, none⟩ = n ∧ after = ⟨.begun, n + 1, none⟩) ∨
    (∃ record, news = .testFinished record ∧ n = record + 1 ∧ Place.verdicts ⟨phase, n, none⟩ = record ∧
      after = ⟨.judged, n, none⟩) ∨
    Unnumbered ⟨phase, n, none⟩ news after := by
  cases news with
  | testStarted record =>
    left
    cases phase <;> first
      | cases step
      | obtain ⟨rfl, same⟩ := Option.ite_none_right_eq_some.mp step
        cases same
        exact ⟨rfl, rfl, rfl⟩
  | testFinished record =>
    right
    left
    cases phase <;> first
      | cases step
      | obtain ⟨current, rfl⟩ := onRecord_eq step
        cases current
        exact ⟨record, rfl, rfl, rfl, rfl⟩
  | hookStarted fn =>
    right
    right
    obtain ⟨later, path, rfl⟩ := Option.map_eq_some_iff.mp step
    exact ⟨rfl, rfl, rfl, hookPhase_verdicts path n (some fn)⟩
  | testRunStarted | testRunFinished =>
    right
    right
    cases phase <;> cases step <;> exact ⟨rfl, rfl, rfl, rfl⟩
  | teardownStarted record | teardownFinished record | deferFailed record output | testLog record output =>
    right
    right
    cases phase <;> first
      | cases step
      | obtain ⟨_, rfl⟩ := onRecord_eq step
        exact ⟨rfl, rfl, rfl, rfl⟩
  | hookFinished | hookFailed | hookLog => cases step

/-- What one piece of news does to the numbers of tests begun and judged. -/
theorem next_cases (step : place.next news = some after) :
    (news = .testStarted place.records ∧ place.verdicts = place.records ∧ after = ⟨.begun, place.records + 1, none⟩) ∨
    (∃ record, news = .testFinished record ∧ place.records = record + 1 ∧ place.verdicts = record ∧
      after = ⟨.judged, place.records, none⟩) ∨
    Unnumbered place news after := by
  obtain ⟨phase, n, hook⟩ := place
  cases hook with
  | none => exact outside_cases step
  | some fn =>
    obtain ⟨begun, judged, records, same⟩ := inHook_kept step
    refine .inr (.inr ⟨begun, judged, records, ?_⟩)
    rw [Place.verdicts, Place.verdicts, records, same]

/-- A test that begins gets the next number. -/
theorem begun_counted (place : Place) (news : News) (after : Place) (step : place.next news = some after) :
    (news.begun = none ∧ after.records = place.records) ∨
      (news.begun = some place.records ∧ after.records = place.records + 1) := by
  obtain ⟨rfl, _, rfl⟩ | ⟨record, rfl, _, _, rfl⟩ | silent := next_cases step
  · exact .inr ⟨rfl, rfl⟩
  · exact .inl ⟨rfl, rfl⟩
  · exact .inl ⟨silent.begun, silent.records⟩

/-- A verdict is about the test that began last. -/
theorem judged_counted (place : Place) (news : News) (after : Place) (step : place.next news = some after) :
    (news.judged = none ∧ after.verdicts = place.verdicts) ∨
      (news.judged = some place.verdicts ∧ after.verdicts = place.verdicts + 1) := by
  obtain ⟨rfl, verdicts, rfl⟩ | ⟨record, rfl, records, verdicts, rfl⟩ | silent := next_cases step
  · exact .inl ⟨rfl, verdicts.symm⟩
  · refine .inr ⟨congrArg some verdicts.symm, ?_⟩
    rw [verdicts, ← records]
    rfl
  · exact .inl ⟨silent.judged, silent.verdicts⟩

end Counts

/-- A run that comes to an end has told a story that keeps to the protocol, from its start to
its end. Every test began and got its verdict once, in the order of the list, and the
callbacks were called for all of it and for nothing else. -/
theorem run_told (env : Env) (tests : List TestCase) {start final : Runner} {code : Nat}
    (fresh : start.state.tests = some []) (ran : runAllTests env tests start = .ok (code, final)) :
    ∃ story, Accepts Place.next ⟨.new, 0, none⟩ story ⟨.over, tests.length, none⟩ ∧
      calls final.trace = calls start.trace ++ story.flatMap (News.spread (News.listeners start.state)) ∧
      story.filterMap News.begun = List.range tests.length ∧ story.filterMap News.judged = List.range tests.length := by
  obtain ⟨_, _, story, accepted, spread⟩ := run_story tests fresh _ ran
  exact ⟨story, accepted, spread, accepted.numbered Place.records News.begun rfl begun_counted,
    accepted.numbered Place.verdicts News.judged rfl judged_counted⟩

/-- A runner with a listener for everything and a hook that logs, for examples. -/
def watched : Runner where
  state := { ltfStateNew (.lit "project") (.lit "1.0") (.lit "os") (.lit "1") none [] 2 with
    hooksTestFinished := [fun _ => .mk [.log { level := .info, file := none, line := 3, msg := [104, 105] }] .returned]
    hookStartedCbs := [7]
    hookFinishedCbs := [7]
    hookFailedCbs := [7]
    hookLogCbs := [7]
    testRunStartedCbs := [7]
    testRunFinishedCbs := [7]
    testStartedCbs := [7]
    testFinishedCbs := [7]
    testLogCbs := [7]
    testTeardownStartedCbs := [7]
    testTeardownFinishedCbs := [7]
    testDeferFailedCbs := [7] }

theorem run_told_two_tests : ∃ code final, runAllTests plainEnv twoTests watched = .ok (code, final) ∧
    ∃ story, Accepts Place.next ⟨.new, 0, none⟩ story ⟨.over, 2, none⟩ ∧
      calls final.trace = story.flatMap (News.spread (News.listeners watched.state)) ∧
      story.filterMap News.begun = [0, 1] ∧ story.filterMap News.judged = [0, 1] := by
  refine ⟨_, _, rfl, ?_⟩
  have fresh : watched.state.tests = some [] := rfl
  exact run_told plainEnv twoTests fresh rfl

end Ltf.Proofs.RunProtocol
