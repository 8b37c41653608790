import Ltf.Base.Steps
import Ltf.StateJson
import Ltf.Proofs.RunnerSteps

/-! A logged message is copied into the record, from there into the raw log and from the
raw log back into a record. The copies agree on messages without a NUL that are short
enough for an `int`. -/

namespace Ltf.Proofs.MessageBytes
open CString JsonC RunnerSteps Steps

/-- The messages every copy can hold. -/
structure Plain (bytes : List UInt8) : Prop where
  clean : (0 : UInt8) ∉ bytes
  short : bytes.length < 2147483648

/-- The bytes logged are in the record, in the raw log, and in the record read back from it. -/
structure Intact (lib : Coercions) (beyond : Nat → UInt8) (o : TestOutput) (bytes : List UInt8) : Prop where
  buffer : ∃ text, o.msg = some text ∧ o.msgLen ≤ text.blockSize
  serialised : get (ltfStateTestOutputToJson beyond o) (.lit "msg") = some (.string bytes)
  reread : ∃ back, ltfStateTestOutputFromJson lib (ltfStateTestOutputToJson beyond o) = some back ∧
    back.msg.map (·.bytes) = some bytes ∧ back.msgLen = bytes.length

/-- The copy that `ltf_state_log` makes of a message. -/
def Copied (o : TestOutput) : Prop :=
  ∀ bytes, o.logged = some bytes → o.msg = some (.strndup bytes bytes.length) ∧ o.msgLen = bytes.length

theorem logOutput_copied (time : CStr) (call : LogCall) : Copied (logOutput time call) := by
  intro bytes found
  cases found
  exact ⟨rfl, rfl⟩

theorem unlogged_copied {o : TestOutput} (unlogged : o.logged = none) : Copied o := by
  intro bytes logged
  cases unlogged.symm.trans logged

theorem read_length (beyond : Nat → UInt8) (text : CStr) (count : Nat) : (text.read beyond count).length = count := by
  rw [CStr.read, List.length_take, List.length_append, List.length_cons, List.length_map, List.length_range]
  omega

theorem output_reread (lib : Coercions) (beyond : Nat → UInt8) (o : TestOutput) :
    ∃ back, ltfStateTestOutputFromJson lib (ltfStateTestOutputToJson beyond o) = some back ∧
      back.msg = jgetStrDup lib (ltfStateTestOutputToJson beyond o) "msg" ∧
      back.msgLen = (back.msg.map (·.bytes.length)).getD 0 := by
  obtain ⟨-, -, -, level, -⟩ := output_get beyond o
  cases name : ltfLogLevelToStr o.level with
  | none => simp [ltfStateTestOutputFromJson, level, name]
  | some text => simp [ltfStateTestOutputFromJson, level, name, newString, getString]

theorem intact_iff (lib : Coercions) (beyond : Nat → UInt8) {o : TestOutput} {bytes : List UInt8} (copied : Copied o)
    (logged : o.logged = some bytes) : Intact lib beyond o bytes ↔ Plain bytes := by
  obtain ⟨msg, msgLen⟩ := copied bytes logged
  obtain ⟨-, -, -, -, written⟩ := output_get beyond o
  obtain ⟨back, reads, message, length⟩ := output_reread lib beyond o
  rw [msg, msgLen, Option.map_some] at written
  constructor
  · intro intact
    obtain ⟨-, serialised, back', reads', bytes', -⟩ := intact
    obtain rfl : back = back' := by simpa [reads] using reads'
    refine ⟨?_, ?_⟩
    · obtain ⟨text, -, rfl⟩ := Option.map_eq_some_iff.mp bytes'
      exact text.terminated
    · rw [written, newStringLen] at serialised
      split at serialised
      next => cases serialised
      next nonneg =>
        have same := congrArg List.length (Json.string.inj (Option.some.inj serialised))
        rw [read_length] at same
        simp only [toInt] at same nonneg
        split at same <;> omega
  · intro plain
    obtain ⟨clean, short⟩ := plain
    have text : (CStr.strndup bytes bytes.length).bytes = bytes := CStr.strndup_all clean
    have serialised : get (ltfStateTestOutputToJson beyond o) (.lit "msg") = some (.string bytes) := by
      rw [written, toInt_of_lt short, newStringLen, if_neg (by omega), Int.toNat_natCast,
        CStr.read_within beyond (by rw [text]), text, List.take_length]
    have read : back.msg = some (.ofBytes bytes) := by
      rw [message, jgetStrDup, serialised]
      rfl
    refine ⟨⟨_, msg, ?_⟩, serialised, back, reads, ?_, ?_⟩
    · rw [msgLen, CStr.blockSize, text]
      omega
    · rw [read, Option.map_some, CStr.ofBytes_eq clean]
    · rw [length, read, Option.map_some, CStr.ofBytes_eq clean, Option.getD_some]

/-- The outputs of a record, wherever it keeps them. -/
def stored (test : StateTest) : List TestOutput :=
  test.outputs.getD [] ++ test.teardownOutputs.getD [] ++ test.failureReasons.getD [] ++ test.teardownErrors.getD []

def AllCopied (r : Runner) : Prop := ∀ test ∈ r.tests, ∀ o ∈ stored test, Copied o

/-- Each output of a list of the record holds its copy. -/
def ListCopied (outputs : DaPtr TestOutput) : Prop := ∀ o ∈ outputs.getD [], Copied o

theorem ListCopied.append {outputs : DaPtr TestOutput} {o : TestOutput} (all : ListCopied outputs) (copied : Copied o) :
    ListCopied (daAppend outputs o) := by
  cases outputs with
  | none => exact all
  | some items =>
    intro other inside
    rcases List.mem_append.mp inside with old | last
    · exact all other old
    · rw [List.mem_singleton] at last
      exact last ▸ copied

theorem stored_copied {test : StateTest} : (∀ o ∈ stored test, Copied o) ↔
    ListCopied test.outputs ∧ ListCopied test.teardownOutputs ∧ ListCopied test.failureReasons ∧
      ListCopied test.teardownErrors := by
  simp only [stored, List.forall_mem_append, ListCopied, and_assoc]

section Functions
variable {env : Env} {r : Runner} {test : StateTest}

theorem takeLog_stored {o : TestOutput} (copied : Copied o) (all : ∀ other ∈ stored test, Copied other) :
    ∀ other ∈ stored (takeLog test o), Copied other := by
  rw [stored_copied] at all ⊢
  obtain ⟨outputs, teardowns, reasons, errors⟩ := all
  cases status : test.status with
  | running =>
    simp only [takeLog, status]
    refine ⟨outputs.append copied, teardowns, ?_, errors⟩
    split
    next => exact reasons.append copied
    next => exact reasons
  | teardownAfterFailed =>
    simp only [takeLog, status]
    exact ⟨outputs, teardowns.append copied, reasons, errors⟩
  | teardownAfterPassed =>
    simp only [takeLog, status]
    exact ⟨outputs, teardowns.append copied, reasons, errors⟩
  | failed =>
    simp only [takeLog, status]
    exact ⟨outputs, teardowns, reasons, errors⟩
  | passed =>
    simp only [takeLog, status]
    exact ⟨outputs, teardowns, reasons, errors⟩

theorem putCurrent_copied (all : AllCopied r) (kept : ∀ o ∈ stored test, Copied o) : AllCopied (r.putCurrent test) := by
  intro other inside
  cases tests : r.state.tests with
  | none => simp [Runner.tests, Runner.putCurrent, tests] at inside
  | some records =>
    simp only [Runner.tests, Runner.putCurrent, tests, Option.map_some, Option.getD_some, List.mem_append,
      List.mem_singleton] at inside
    rcases inside with inside | rfl
    · exact all other (by simpa [Runner.tests, tests] using List.dropLast_subset _ inside)
    · exact kept

theorem getCurrent_copied (all : AllCopied r) :
    Ends (ltfStateGetCurrentTest r) fun current => AllCopied current.2 ∧ ∀ o ∈ stored current.1, Copied o := by
  rw [ltfStateGetCurrentTest]
  split
  next => exact .stop
  next test found => exact .ok ⟨all, all test (List.mem_of_getLast? found)⟩

theorem log_copied (call : LogCall) (all : AllCopied r) : Ends (ltfStateLog env call r) AllCopied := by
  rw [ltfStateLog]
  cases stage : r.tick.state.currentStage with
  | hook => exact .ok all
  | teardown => exact .ok all
  | test =>
    refine (getCurrent_copied (r := r.tick) all).bind ?_
    intro found copied
    obtain ⟨test, middle⟩ := found
    obtain ⟨kept, outputs⟩ := copied
    have put := putCurrent_copied kept (takeLog_stored (logOutput_copied (env.clock r.ticks) call) outputs)
    apply Ends.ok
    intro record inside
    split at inside <;> exact put record inside

theorem runLua_copied (code : LuaCode) (all : AllCopied r) : Ends (runLua env code r) AllCopied := by
  refine .foldlM ?_ all
  intro r action all
  cases action with
  | log call => exact log_copied call all
  | defer fn args => exact .ok all

theorem hooks_copied (fn : HookFn) (all : AllCopied r) : Ends (ltfHooksRun env fn r) AllCopied := by
  by_cases empty : (hookCalls r.state fn).length = 0
  · simp only [ltfHooksRun, empty, if_true]
    exact .ok all
  · simp only [ltfHooksRun, empty, if_false]
    refine .foldlM ?_ all
    intro r hook all
    refine (runLua_copied (r := (r.emit _).push 2) hook all).bind ?_
    intro after all
    cases hook.outcome <;> exact .ok all

theorem begin_copied (tc : TestCase) (all : AllCopied r) : Ends (beginTest env tc r) AllCopied := by
  apply hooks_copied .testStarted
  intro record inside
  cases tests : r.state.tests with
  | none => simp [Runner.tests, ltfStateTestStarted, Runner.emit, Runner.tick, daAppend, tests] at inside
  | some records =>
    simp only [Runner.tests, ltfStateTestStarted, Runner.emit, Runner.tick, daAppend, tests, Option.map_some,
      Option.getD_some, List.mem_append, List.mem_singleton] at inside
    rcases inside with inside | rfl
    · exact all record (by simpa [Runner.tests, tests] using inside)
    · simp [stored]

theorem testPassed_copied (all : AllCopied r) : Ends (ltfStateTestPassed env r) AllCopied :=
  (getCurrent_copied (r := r.tick) all).bind fun _ ⟨kept, outputs⟩ => .ok (putCurrent_copied kept outputs)

theorem testFailed_copied (file : Option CStr) (line : Int) (msg : Option CStr) (all : AllCopied r) :
    Ends (ltfStateTestFailed env file line msg r) AllCopied := by
  refine (getCurrent_copied (r := r.tick) all).bind ?_
  intro found copied
  obtain ⟨test, middle⟩ := found
  obtain ⟨kept, outputs⟩ := copied
  apply Ends.ok
  cases msg with
  | none => exact putCurrent_copied (r := { middle with state := _ }) kept outputs
  | some msg =>
    apply putCurrent_copied (r := { middle with state := _ }) kept
    rw [stored_copied] at outputs ⊢
    obtain ⟨outputs, teardowns, reasons, errors⟩ := outputs
    exact ⟨outputs, teardowns, reasons.append (unlogged_copied rfl), errors⟩

theorem report_copied (tc : TestCase) (all : AllCopied r) :
    Ends (reportBody env tc r) fun reported => AllCopied reported.1 := by
  unfold reportBody
  split
  next =>
    split
    next => exact (testFailed_copied none 0 none all).bind fun _ all => .ok all
    next => exact (testPassed_copied all).bind fun _ all => .ok all
  next => exact (testFailed_copied _ _ _ all).bind fun _ all => .ok all

theorem deferFailed_copied (file : Option CStr) (line : Int) (msg : CStr) (all : AllCopied r) :
    Ends (ltfStateTestDeferFailed env file line msg r) AllCopied := by
  refine (getCurrent_copied (r := r.tick) all).bind ?_
  intro found copied
  obtain ⟨test, middle⟩ := found
  obtain ⟨kept, outputs⟩ := copied
  apply Ends.ok
  apply putCurrent_copied kept
  rw [stored_copied] at outputs ⊢
  obtain ⟨outputs, teardowns, reasons, errors⟩ := outputs
  exact ⟨outputs, teardowns, reasons, errors.append (unlogged_copied rfl)⟩

theorem queueStarted_copied (all : AllCopied r) : Ends (ltfStateTestDeferQueueStarted env r) AllCopied :=
  (getCurrent_copied (r := r.tick) all).bind fun _ ⟨kept, outputs⟩ => .ok (putCurrent_copied kept outputs)

theorem queueFinished_copied (all : AllCopied r) : Ends (ltfStateTestDeferQueueFinished env r) AllCopied :=
  (getCurrent_copied (r := r.tick) all).bind fun _ ⟨kept, outputs⟩ => .ok (putCurrent_copied kept outputs)

theorem deferredStep_copied (status : CStr) (entry : DeferEntry) (all : AllCopied r) :
    Ends (runDeferredStep env status entry r) AllCopied := by
  refine (runLua_copied (r := ((r.push 2).push _).emit _) _ all).bind ?_
  intro after all
  split
  next => exact .ok all
  next => exact (deferFailed_copied (r := ((after.pop _).push 1).pop 1) _ _ _ all).bind fun _ all => .ok all

theorem deferredLoop_copied (status : CStr) (count : Nat) (all : AllCopied r) :
    Ends (runDeferredLoop env status count r) AllCopied := by
  induction count generalizing r with
  | zero => exact .ok all
  | succ count ih =>
    unfold runDeferredLoop
    split
    next => exact .stop
    next entry _ => exact (deferredStep_copied status entry all).bind fun _ all => ih all

theorem deferred_copied (status : CStr) (all : AllCopied r) : Ends (runDeferred env status r) AllCopied := by
  unfold runDeferred
  split
  next => exact .ok all
  next list _ =>
    refine (queueStarted_copied (r := r.push 1) all).bind ?_
    intro r all
    refine (deferredLoop_copied status list.length all).bind ?_
    intro r all
    exact (queueFinished_copied all).bind fun _ all => .ok all

theorem iteration_copied (loop : Loop) (tc : TestCase) (all : AllCopied loop.runner) :
    Ends (runIteration env loop tc) fun after => AllCopied after.runner := by
  refine (begin_copied tc all).bind ?_
  intro begun all
  have body : Ends (callBody env tc begun) AllCopied :=
    (runLua_copied (r := begun.push 2) tc.body all).bind fun _ all => .ok all
  refine body.bind ?_
  intro left all
  refine (report_copied tc all).bind ?_
  intro judged all
  refine (deferred_copied _ all).bind ?_
  intro torn all
  split
  next => exact .stop
  next => exact (hooks_copied .testFinished all).bind fun _ all => .ok all

end Functions

/-- The runner after each test of a run, and when the run is over. -/
inductive Reached (env : Env) (tests : List TestCase) (r : Runner) : Runner → Prop where
  | iterated {done rest : List TestCase} {start after : Loop} (split : tests = done ++ rest)
      (begins : beginRun env r = .ok start) (ran : runTests env done start = .ok after) :
      Reached env tests r after.runner
  | returned {code : Nat} {final : Runner} (ran : runAllTests env tests r = .ok (code, final)) :
      Reached env tests r final

theorem reached_copied {env : Env} {tests : List TestCase} {r after : Runner} (empty : r.tests = [])
    (reached : Reached env tests r after) : AllCopied after := by
  have none : AllCopied r := fun _ inside => by simp [empty] at inside
  have begins : Ends (beginRun env r) fun loop => AllCopied loop.runner :=
    (hooks_copied (r := ltfStateTestRunStarted env r) .testRunStarted none).bind fun _ all => .ok all
  have runs : ∀ tests start, AllCopied start.runner →
    Ends (runTests env tests start) fun loop => AllCopied loop.runner :=
    fun tests start all => .foldlM (fun loop tc all => iteration_copied loop tc all) all
  cases reached with
  | @iterated done _ start after _ start' ran => exact runs done start (begins start start') after ran
  | @returned code _ ran =>
    have whole : Ends (runAllTests env tests r) fun result => AllCopied result.2 :=
      begins.bind fun start all => (runs tests start all).bind fun loop all =>
        (hooks_copied (r := ltfStateTestRunFinished env loop.runner) .testRunFinished all).bind fun _ all => .ok all
    exact whole _ ran

/-- In every state of a run, the copies of a logged message agree exactly when it has no
NUL and its length fits an `int`. -/
theorem messages_intact_iff (lib : Coercions) (beyond : Nat → UInt8) (env : Env) (tests : List TestCase) (r : Runner)
    (empty : r.tests = []) : ∀ after, Reached env tests r after → ∀ test ∈ after.tests, ∀ o ∈ stored test,
      ∀ bytes, o.logged = some bytes → (Intact lib beyond o bytes ↔ Plain bytes) :=
  fun _ reached test inside o found _ logged =>
    intact_iff lib beyond (reached_copied empty reached test inside o found) logged

def logging (msg : List UInt8) : TestCase where
  name := .lit "talks"
  body := .mk [.log { level := .info, file := none, line := 1, msg }] .returned

theorem messages_intact_short : ∃ code final, runAllTests plainEnv [logging [104, 105]] newRunner = .ok (code, final) ∧
    ∃ test ∈ final.tests, ∃ o ∈ stored test, o.logged = some [104, 105] ∧ Intact default (fun _ => 0) o [104, 105] := by
  refine ⟨_, _, rfl, _, .head _, _, .head _, rfl, ?_⟩
  exact (messages_intact_iff default _ plainEnv [logging [104, 105]] newRunner rfl _ (.returned rfl)
    _ (.head _) _ (.head _) _
    rfl).mpr ⟨by decide, by decide⟩

/-- The text read back ends at the NUL. -/
theorem message_with_nul_cut :
    ∃ code final, runAllTests plainEnv [logging [104, 0, 105]] newRunner = .ok (code, final) ∧
    ∃ test ∈ final.tests, ∃ o ∈ stored test,
      o.logged = some [104, 0, 105] ∧ ¬ Intact default (fun _ => 0) o [104, 0, 105] := by
  refine ⟨_, _, rfl, _, .head _, _, .head _, rfl, ?_⟩
  intro intact
  have plain := (intact_iff default _ (logOutput_copied _ _) rfl).mp intact
  exact plain.clean (by decide)

end Ltf.Proofs.MessageBytes
