import Ltf.Proofs.DeferQueue

/-! The status a deferred function is told. It comes from the protected call of the body,
the verdict of the record also from the flag that error logs set. -/

namespace Ltf.Proofs.DeferStatus
open CString RunnerSteps Teardown DeferQueue

def passedArguments : List LuaValue := [.string (CStr.lit "passed").bytes]

def failedArguments : List LuaValue := [.string (CStr.lit "failed").bytes]

/-- Every deferred function without arguments of its own is told the verdict on record. -/
def StatusAgrees (env : Env) (tc : TestCase) (r : Runner) : Prop :=
  ∃ after record ops, runBodyAndTeardown env tc r = .ok after ∧ after.tests.getLast? = some record ∧
    deferOps after.trace = deferOps r.trace ++ ops ∧
    ∀ entry args, .pop (entry, args) ∈ ops → entry.args = [] →
      (args = passedArguments ↔ record.status = .passed) ∧ (args = failedArguments ↔ record.status = .failed)

theorem passed_ne_failed : passedArguments ≠ failedArguments := by decide

theorem pop_mem_servedOps (env : Env) (status : CStr) {next : Nat} {list : List DeferEntry} {entry : DeferEntry}
    {args : List LuaValue} :
    .pop (entry, args) ∈ servedOps env status next list ↔ entry ∈ list ∧ args = deferArguments env status entry := by
  induction list generalizing next with
  | nil => simp [servedOps]
  | cons first list ih =>
    simp only [servedOps, List.cons_append, List.mem_cons, List.mem_append, ih, List.mem_map, reduceCtorEq, and_false,
      exists_false, false_or, Lifo.Op.pop.injEq, Prod.mk.injEq]
    constructor
    · intro told
      rcases told with ⟨rfl, rfl⟩ | ⟨inside, same⟩
      · exact ⟨.inl rfl, rfl⟩
      · exact ⟨.inr inside, same⟩
    · intro told
      obtain ⟨rfl | inside, same⟩ := told
      · exact .inl ⟨rfl, same⟩
      · exact .inr ⟨inside, same⟩

theorem pop_mem_testOps (env : Env) (tc : TestCase) (r : Runner) {entry : DeferEntry} {args : List LuaValue} :
    .pop (entry, args) ∈ testOps env tc r ↔
      entry ∈ queueOf tc r ∧ args = deferArguments env (deferStatus tc.body.outcome) entry := by
  simp [testOps, pop_mem_servedOps]

theorem deferStatus_of_returned {tc : TestCase} (kept : tc.body.fails = false) :
    [LuaValue.string (deferStatus tc.body.outcome).bytes] = passedArguments := by
  rw [LuaCode.fails_false kept]
  rfl

theorem deferStatus_of_failed {tc : TestCase} (fails : tc.body.fails = true) :
    [LuaValue.string (deferStatus tc.body.outcome).bytes] = failedArguments := by
  cases outcome : tc.body.outcome with
  | returned => simp [LuaCode.fails_returned outcome] at fails
  | failed value => rfl

theorem told_verdict {tc : TestCase} {r : Runner} {record : StateTest}
    (status : record.status = if testPasses tc r then .passed else .failed) :
    (([LuaValue.string (deferStatus tc.body.outcome).bytes] = passedArguments ↔ record.status = .passed) ∧
      ([LuaValue.string (deferStatus tc.body.outcome).bytes] = failedArguments ↔ record.status = .failed)) ↔
      (tc.body.fails = false → r.testMarkedFailed = false ∧ tc.body.logsError = false) := by
  cases fails : tc.body.fails with
  | true => simp [deferStatus_of_failed fails, status, testPasses, fails, passed_ne_failed.symm]
  | false =>
    rw [deferStatus_of_returned fails, status]
    cases passes : testPasses tc r with
    | true => simpa [passed_ne_failed, testPasses, fails] using passes
    | false => simpa [passed_ne_failed, testPasses, fails] using passes

theorem deferArguments_none (env : Env) (status : CStr) {entry : DeferEntry} (none_given : entry.args = []) :
    deferArguments env status entry = [.string status.bytes] := by
  rw [deferArguments_full env _ (by simp [none_given]), promisedArguments, if_pos none_given]

/-- Each call without arguments is told the same verdict. -/
theorem status_agrees_each (env : Env) (tc : TestCase) (r : Runner) {earlier : List StateTest} {test : StateTest}
    (here : At r earlier test) (stage : r.state.currentStage = .test) (running : test.status = .running) :
    StatusAgrees env tc r ↔ ∀ entry ∈ queueOf tc r, entry.args = [] →
      (tc.body.fails = false → r.testMarkedFailed = false ∧ tc.body.logsError = false) := by
  obtain ⟨after, record, ran, last, status, trace⟩ := body_and_teardown env tc here stage running
  have found : after.tests.getLast? = some record := At.last last
  constructor
  · intro agrees entry inside none_given
    obtain ⟨other, record', ops, ran', found', trace', agree⟩ := agrees
    obtain rfl : after = other := by simpa [ran] using ran'
    obtain rfl : record = record' := by simpa [found] using found'
    obtain rfl := List.append_cancel_left (trace.symm.trans trace')
    have called := (pop_mem_testOps env tc r).mpr ⟨inside, (deferArguments_none env _ none_given).symm⟩
    exact (told_verdict status).mp (agree entry _ called none_given)
  · intro agree
    refine ⟨after, record, _, ran, found, trace, ?_⟩
    intro entry args called none_given
    obtain ⟨inside, rfl⟩ := (pop_mem_testOps env tc r).mp called
    rw [deferArguments_none env _ none_given]
    exact (told_verdict status).mpr (agree entry inside none_given)

/-- The status that is told agrees with the verdict exactly when the body does not return
with an error logged, or nobody is told. -/
theorem status_agrees_iff (env : Env) (tc : TestCase) (r : Runner) (earlier : List StateTest) (test : StateTest)
    (here : r.state.tests = some (earlier ++ [test])) (stage : r.state.currentStage = .test)
    (running : test.status = .running) :
    StatusAgrees env tc r ↔
      (tc.body.fails = false → r.testMarkedFailed = false ∧ tc.body.logsError = false) ∨
        (∀ entry ∈ r.deferList.getD [], entry.args ≠ []) ∧ ∀ registration ∈ tc.body.defers, registration.2 ≠ [] := by
  rw [status_agrees_each env tc r here stage running, ← queueOf_all fun registration => registration.2 ≠ []]
  constructor
  · intro agree
    by_cases told_one : ∃ entry ∈ queueOf tc r, entry.args = []
    · obtain ⟨entry, inside, none_given⟩ := told_one
      exact .inl (agree entry inside none_given)
    · exact .inr (by simpa using told_one)
  · intro either entry inside none_given
    rcases either with agree | nobody
    · exact agree
    · exact absurd none_given (nobody entry inside)

def loggedError : TestCase where
  name := .lit "logged"
  body := .mk [.defer (fun _ => .mk [] .returned) [],
    .log { level := .error, file := none, line := 3, msg := [98, 97, 100] }]
    .returned

theorem status_agrees_quiet_body : StatusAgrees plainEnv
    { name := .lit "quiet", body := .mk [.defer (fun _ => .mk [] .returned) []] .returned } runningTest :=
  (status_agrees_iff plainEnv _ runningTest [] { status := .running } rfl rfl rfl).mpr (.inl fun _ => ⟨rfl, rfl⟩)

theorem logged_error_told_passed : ¬ StatusAgrees plainEnv loggedError runningTest := by
  intro agrees
  obtain ⟨after, record, ops, ran, found, trace, agree⟩ := agrees
  obtain ⟨after', record', ran', last, status, trace'⟩ :=
    body_and_teardown plainEnv loggedError runningTest_here rfl rfl
  obtain rfl : after' = after := by simpa [ran'] using ran
  obtain rfl := List.append_cancel_left (trace'.symm.trans trace)
  obtain rfl : record' = record := Option.some.inj ((At.last last).symm.trans found)
  have called : .pop (_, passedArguments) ∈ testOps plainEnv loggedError runningTest :=
    List.mem_cons_of_mem _ (List.mem_cons_self ..)
  have passed := (agree _ _ called rfl).1.mp rfl
  rw [status] at passed
  cases passed

end Ltf.Proofs.DeferStatus
