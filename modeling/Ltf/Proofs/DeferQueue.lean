import Ltf.Proofs.Teardown

/-! What the defer queue promises: each registered function is called once, the most
recent one first, with the arguments it was registered with. -/

namespace Ltf.Proofs.DeferQueue
open CString RunnerSteps Teardown

/-- The arguments a registration asks for. -/
def promisedArguments (status : CStr) (args : List LuaValue) : List LuaValue :=
  if args = [] then [.string status.bytes] else args

/-- A call that keeps the promise made to a registration. -/
def Keeps (status : CStr) (promised : DeferEntry) (called : DeferEntry × List LuaValue) : Prop :=
  called.1 = promised ∧ called.2 = promisedArguments status promised.args

/-- What is still to be called, the most recent registration first. -/
def pending (r : Runner) : List DeferEntry := (r.deferList.getD []).reverse

/-- Every function pending when the body is called or registered until the teardown is
over has been called, exactly once and in last-in first-out order, and none is pending. -/
def DefersHonoured (env : Env) (tc : TestCase) (r : Runner) : Prop :=
  ∃ after ops, runBodyAndTeardown env tc r = .ok after ∧ deferOps after.trace = deferOps r.trace ++ ops ∧
    Lifo.Served (Keeps (deferStatus tc.body.outcome)) (pending r) ops []

/-- A registration the queue can honour: no argument is nil, and the call registers nothing. -/
def Plain (status : CStr) (registration : (List LuaValue → LuaCode) × List LuaValue) : Prop :=
  .nil ∉ registration.2 ∧ (registration.1 (promisedArguments status registration.2)).defers = []

theorem deferArguments_full (env : Env) (status : CStr) {entry : DeferEntry} (full : .nil ∉ entry.args) :
    deferArguments env status entry = promisedArguments status entry.args := by
  have table : .nil ∉ LuaValue.object entry.id :: entry.args := by simpa using full
  have length := (env.luaLength.border _).unique table
  simp only [deferArguments, promisedArguments, length, List.length_cons, Nat.add_sub_cancel]
  by_cases none_given : entry.args = []
  · simp [none_given]
  · rw [if_neg (by simpa using none_given), if_neg none_given]
    apply List.ext_getElem
    · simp
    · intro i inside inside'
      simp [List.getElem?_eq_getElem inside']

theorem deferArguments_first {env : Env} {status : CStr} {entry : DeferEntry}
    (kept : deferArguments { env with luaLength := .first } status entry = promisedArguments status entry.args) :
    .nil ∉ entry.args := by
  intro hole
  have some_given : entry.args ≠ [] := List.ne_nil_of_mem hole
  have border : firstBorder (.object entry.id :: entry.args) - 1 = firstBorder entry.args := by simp [firstBorder]
  have short := firstBorder_lt hole
  simp only [deferArguments, LuaLength.first, border, promisedArguments, if_neg some_given] at kept
  split at kept
  next cut =>
    rw [← kept] at hole
    simp at hole
  next =>
    have lengths := congrArg List.length kept
    simp at lengths
    omega

theorem entries_length (next : Nat) (registrations : List ((List LuaValue → LuaCode) × List LuaValue)) :
    (entries next registrations).length = registrations.length := by
  induction registrations generalizing next with
  | nil => rfl
  | cons registration registrations ih => simp [entries, ih]

theorem entries_registrations (next : Nat) (registrations : List ((List LuaValue → LuaCode) × List LuaValue)) :
    (entries next registrations).map (fun entry => (entry.fn, entry.args)) = registrations := by
  induction registrations generalizing next with
  | nil => rfl
  | cons registration registrations ih => simp [entries, ih]

theorem queueOf_all (promise : (List LuaValue → LuaCode) × List LuaValue → Prop) (tc : TestCase) (r : Runner) :
    (∀ entry ∈ queueOf tc r, promise (entry.fn, entry.args)) ↔
      (∀ entry ∈ r.deferList.getD [], promise (entry.fn, entry.args)) ∧
        ∀ registration ∈ tc.body.defers, promise registration := by
  have added : (∀ entry ∈ entries r.nextDefer tc.body.defers, promise (entry.fn, entry.args)) ↔
      ∀ registration ∈ tc.body.defers, promise registration := by
    rw [← List.forall_mem_map (f := fun entry : DeferEntry => (entry.fn, entry.args)), entries_registrations]
  simp only [queueOf, List.forall_mem_append, added]

variable (env : Env) (status : CStr)

theorem pops_servedOps (next : Nat) (list : List DeferEntry) :
    (Lifo.pops (servedOps env status next list)).length = list.length := by
  induction list generalizing next with
  | nil => rfl
  | cons entry list ih =>
    simp only [servedOps, List.cons_append, Lifo.pops_pop, Lifo.pops_append, Lifo.pops_map_push, List.nil_append,
      List.length_cons, ih]

theorem servedOps_plain {list : List DeferEntry} (plain : ∀ entry ∈ list, (calledCode env status entry).defers = [])
    (next : Nat) :
    servedOps env status next list = (list.map fun entry => (entry, deferArguments env status entry)).map .pop := by
  induction list generalizing next with
  | nil => rfl
  | cons entry list ih =>
    rw [servedOps, plain entry (by simp), ih fun entry inside => plain entry (by simp [inside])]
    rfl

/-- A queue that does not grow while it is served has only such calls. -/
theorem servedOps_closed {next : Nat} {list : List DeferEntry}
    (closed : (Lifo.pushes (servedOps env status next list)).length = 0) :
    ∀ entry ∈ list, (calledCode env status entry).defers = [] := by
  induction list generalizing next with
  | nil => simp
  | cons entry list ih =>
    simp only [servedOps, List.cons_append, Lifo.pushes_pop, Lifo.pushes_append, Lifo.pushes_map_push,
      List.length_append, entries_length] at closed
    have none_added : (calledCode env status entry).defers = [] := List.length_eq_zero_iff.mp (by omega)
    have later : (Lifo.pushes (servedOps env status (next + _) list)).length = 0 :=
      Nat.eq_zero_of_add_eq_zero_left closed
    simpa [none_added] using ih later

/-- A queue that serves everything serves nothing that was registered while it ran. -/
theorem servedOps_no_push (tc : TestCase) (r : Runner)
    (served : Lifo.Served (Keeps (deferStatus tc.body.outcome)) (pending r) (testOps env tc r) []) :
    (Lifo.pushes (servedOps env (deferStatus tc.body.outcome) (r.nextDefer + tc.body.defers.length)
      (queueOf tc r).reverse)).length = 0 := by
  have balance := served.balance
  have queue : (queueOf tc r).length = (pending r).length + (entries r.nextDefer tc.body.defers).length := by
    rw [queueOf, pending, List.length_append, List.length_reverse]
  simp only [testOps, Lifo.pushes_append, Lifo.pops_append, Lifo.pushes_map_push, Lifo.pops_map_push, List.nil_append,
    List.length_append, List.length_nil, pops_servedOps, List.length_reverse, queue] at balance
  omega

theorem testOps_served (tc : TestCase) (r : Runner) :
    Lifo.Served (Keeps (deferStatus tc.body.outcome)) (pending r) (testOps env tc r) [] ↔
      ∀ entry ∈ queueOf tc r, (calledCode env (deferStatus tc.body.outcome) entry).defers = [] ∧
        deferArguments env (deferStatus tc.body.outcome) entry =
          promisedArguments (deferStatus tc.body.outcome) entry.args := by
  let status := deferStatus tc.body.outcome
  let own := entries r.nextDefer tc.body.defers
  have waiting : own.reverse ++ pending r = (queueOf tc r).reverse := by
    simp [own, pending, queueOf]
  have kept : (∀ entry ∈ queueOf tc r, deferArguments env status entry = promisedArguments status entry.args) ↔
      List.Forall₂ (Keeps status) (queueOf tc r).reverse
        ((queueOf tc r).reverse.map fun entry => (entry, deferArguments env status entry)) := by
    simp [List.forall₂_map_right_iff, List.forall₂_same, Keeps]
  constructor
  · intro served
    have closed := servedOps_no_push env tc r served
    have plain := servedOps_closed env _ closed
    obtain ⟨middle, first, last⟩ := served.split
    rw [first.of_pushAll, waiting, servedOps_plain env _ plain] at last
    intro entry inside
    exact ⟨plain entry (List.mem_reverse.mpr inside), kept.mpr last.of_popAll entry inside⟩
  · intro promises
    have plain : ∀ entry ∈ (queueOf tc r).reverse, (calledCode env status entry).defers = [] := fun entry inside =>
      (promises entry (List.mem_reverse.mp inside)).1
    have called := Lifo.Served.popAll (kept.mp fun entry inside => (promises entry inside).2) []
    rw [List.append_nil] at called
    rw [testOps, servedOps_plain env _ plain]
    exact (Lifo.Served.pushAll _ own).append (waiting ▸ called)

/-- The promise is kept under every length Lua may choose exactly when no registration
has a nil argument and no deferred function registers another one. -/
theorem defers_honoured_iff (env : Env) (tc : TestCase) (r : Runner) (earlier : List StateTest) (test : StateTest)
    (here : r.state.tests = some (earlier ++ [test])) (stage : r.state.currentStage = .test)
    (running : test.status = .running) :
    (∀ length, DefersHonoured { env with luaLength := length } tc r) ↔
      (∀ entry ∈ r.deferList.getD [], Plain (deferStatus tc.body.outcome) (entry.fn, entry.args)) ∧
        ∀ registration ∈ tc.body.defers, Plain (deferStatus tc.body.outcome) registration := by
  have served : ∀ env, DefersHonoured env tc r ↔
      Lifo.Served (Keeps (deferStatus tc.body.outcome)) (pending r) (testOps env tc r) [] := by
    intro env
    obtain ⟨after, _, ran, _, _, trace⟩ := body_and_teardown env tc here stage running
    constructor
    · intro honoured
      obtain ⟨other, ops, ran', trace', kept⟩ := honoured
      obtain rfl : after = other := by simpa [ran] using ran'
      rw [trace] at trace'
      exact List.append_cancel_left trace' ▸ kept
    · exact fun kept => ⟨after, _, ran, trace, kept⟩
  simp only [served, testOps_served, ← queueOf_all]
  constructor
  · intro honoured entry inside
    obtain ⟨closed, kept⟩ := honoured .first entry inside
    rw [calledCode, kept] at closed
    exact ⟨deferArguments_first kept, closed⟩
  · intro plain length entry inside
    have kept :=
      deferArguments_full { env with luaLength := length } (deferStatus tc.body.outcome) (plain entry inside).1
    exact ⟨by rw [calledCode, kept]; exact (plain entry inside).2, kept⟩

def runningTest : Runner where
  state := { tests := some [{ status := .running }], currentStage := .test }

theorem runningTest_here : At runningTest [] { status := .running } := rfl

theorem plain_defer_honoured :
    DefersHonoured { plainEnv with luaLength := .first }
      { name := .lit "plain", body := .mk [.defer (fun _ => .mk [] (.failed none)) [.integer 7]] .returned }
      runningTest :=
  (defers_honoured_iff plainEnv _ runningTest [] { status := .running } rfl rfl rfl).mpr
    ⟨by simp [runningTest], by simp [Plain, LuaCode.defers, LuaCode.actions, promisedArguments]⟩ .first

def nestedDefer : TestCase where
  name := .lit "nested"
  body := .mk [.defer (fun _ => .mk [.defer (fun _ => .mk [] .returned) []] .returned) []] .returned

theorem nested_defer_dropped : ¬ DefersHonoured plainEnv nestedDefer runningTest := by
  intro honoured
  obtain ⟨after, ops, ran, trace, served⟩ := honoured
  obtain ⟨after', _, ran', _, _, trace'⟩ := body_and_teardown plainEnv nestedDefer runningTest_here rfl rfl
  obtain rfl : after' = after := by simpa [ran'] using ran
  obtain rfl := List.append_cancel_left (trace'.symm.trans trace)
  have balance := served.balance
  have two : (Lifo.pushes (testOps plainEnv nestedDefer runningTest)).length = 2 := rfl
  have one : (Lifo.pops (testOps plainEnv nestedDefer runningTest)).length = 1 := rfl
  rw [two, one] at balance
  cases balance

end Ltf.Proofs.DeferQueue
