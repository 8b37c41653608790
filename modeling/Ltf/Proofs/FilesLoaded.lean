import Ltf.LtfTest
import Ltf.Proofs.HookedRun
import Ltf.Proofs.TestRegistry

/-! Loading the files of a project: when all of them get through, and what they have registered
then. Each rule says both, for a call, a file, a directory and a list of directories. -/

namespace Ltf.Proofs.FilesLoaded
open CString CmdParser Vars Secrets TestCases LtfTest HookedRun

variable (setup : Setup)

def varsRead (arg : Option VarsTable) : Option (Except LuaError (List VarEntry)) :=
  match arg with
  | none => some (.error (.typeError 1 (.lit "table")))
  | some table => readVars setup.lua.toLuaChoices table setup.fuel none []

theorem varsRead_eq (arg : Option VarsTable) (vars : DaPtr VarEntry) :
    lModuleLtfRegisterVars setup.lua.toLuaChoices setup.fuel arg vars =
      (varsRead setup arg).map fun read => read.map fun new => ltfRegisterVars new vars := by
  cases arg <;> rfl

def secretsRead (arg : Option (List LuaValue)) : LuaRun (List CStr) :=
  match arg with
  | none => .error (.raised (.lit "table"))
  | some names => secretNames setup names

/-- Whether a call succeeds or raises an error, if it comes back at all. -/
def answer (ready : Bool) : LoadCall → Option Bool
  | .registerVars arg => (varsRead setup arg).map (·.isOk)
  | .registerSecrets arg =>
    match secretsRead setup arg with
    | .ok _ => some true
    | .error (.raised _) => some false
    | .error _ => none
  | .registerTest arg => some (arg.bind (describedTest setup.lua.toLuaChoices)).isSome
  | .registerHook _ none => some false
  | .registerHook _ (some _) => if ready then some true else none
  | .action (.log _) => none
  | .action (.defer _ _) => some true

/-- A call does not keep its file from going on. -/
def Goes (ready : Bool) (call : LoadCall × Bool) : Prop :=
  answer setup ready call.1 = some true ∨ (call.2 = true ∧ answer setup ready call.1 = some false)

/-- A file gets through. -/
structure Loads (ready : Bool) (file : LuaFile) : Prop where
  calls : ∀ call ∈ file.calls, Goes setup ready call
  outcome : file.outcome = .returned

def newVars : LoadCall → List VarEntry
  | .registerVars arg =>
    match varsRead setup arg with
    | some (.ok new) => new
    | _ => []
  | _ => []

def newSecrets : LoadCall → List CStr
  | .registerSecrets arg =>
    match secretsRead setup arg with
    | .ok new => new
    | .error _ => []
  | _ => []

def testArg : LoadCall → Option (Option TestTable)
  | .registerTest arg => some arg
  | _ => none

def hookFor (fn : HookFn) : LoadCall → Option LtfHook
  | .registerHook other (some hook) => if other = fn then some hook else none
  | _ => none

/-- What calls have registered. -/
structure Effect (calls : List LoadCall) (s after : Loaded) : Prop where
  ready : Ready after.runner
  hooksReady : after.hooksReady = s.hooksReady
  vars : after.vars.getD [] = s.vars.getD [] ++ calls.flatMap (newVars setup)
  secrets : after.secrets.getD [] = s.secrets.getD [] ++ (calls.flatMap (newSecrets setup)).map fun name => (name, none)
  tests : after.tests = (registerTests setup.lua.toLuaChoices setup.opts (calls.filterMap testArg) s.tests).2
  hooks : ∀ fn, ltfGetHooks after.runner.state fn = ltfGetHooks s.runner.state fn ++ calls.filterMap (hookFor fn)

/-- A part of the loading gets through exactly under a condition, and then has an effect. -/
structure Through (condition : Prop) (calls : List LoadCall) (s : Loaded) (went : Loaded → Prop) : Prop where
  goes : condition → ∃ after, went after
  only : ∀ after, went after → condition ∧ Effect setup calls s after

section Rules
variable {setup} {s middle after : Loaded} {calls more : List LoadCall} {first second : Prop} {went onward : Loaded → Prop}

theorem registerTests_append (args others : List (Option TestTable)) (tests : Tests) :
    (registerTests setup.lua.toLuaChoices setup.opts (args ++ others) tests).2 =
      (registerTests setup.lua.toLuaChoices setup.opts others
        (registerTests setup.lua.toLuaChoices setup.opts args tests).2).2 := by
  induction args generalizing tests with
  | nil => rfl
  | cons arg args ih => exact ih _

theorem Effect.nil (ready : Ready s.runner) : Effect setup [] s s :=
  ⟨ready, rfl, (List.append_nil _).symm, (List.append_nil _).symm, rfl, fun _ => (List.append_nil _).symm⟩

theorem Effect.trans (one : Effect setup calls s middle) (two : Effect setup more middle after) :
    Effect setup (calls ++ more) s after := by
  refine ⟨two.ready, two.hooksReady.trans one.hooksReady, ?_, ?_, ?_, fun fn => ?_⟩
  · rw [two.vars, one.vars, List.flatMap_append, List.append_assoc]
  · rw [two.secrets, one.secrets, List.flatMap_append, List.map_append, List.append_assoc]
  · rw [two.tests, one.tests, List.filterMap_append, registerTests_append]
  · rw [two.hooks, one.hooks, List.filterMap_append, List.append_assoc]

theorem Through.stay (ready : Ready s.runner) : Through setup True [] s (· = s) where
  goes := fun _ => ⟨s, rfl⟩
  only := by
    rintro after rfl
    exact ⟨trivial, .nil ready⟩

/-- One part after the other. -/
theorem Through.seq {onward : Loaded → Loaded → Prop} {whole : Loaded → Prop} (one : Through setup first calls s went)
    (two : ∀ middle, Effect setup calls s middle → Through setup second more middle (onward middle))
    (split : ∀ after, whole after ↔ ∃ middle, went middle ∧ onward middle after) :
    Through setup (first ∧ second) (calls ++ more) s whole where
  goes := by
    rintro ⟨here, later⟩
    obtain ⟨middle, went⟩ := one.goes here
    obtain ⟨after, done⟩ := (two middle (one.only middle went).2).goes later
    exact ⟨after, (split after).mpr ⟨middle, went, done⟩⟩
  only := by
    intro after done
    obtain ⟨middle, went, done⟩ := (split after).mp done
    obtain ⟨here, effect⟩ := one.only middle went
    obtain ⟨later, effect'⟩ := (two middle effect).only after done
    exact ⟨⟨here, later⟩, effect.trans effect'⟩

theorem Through.congr {whole : Loaded → Prop} (through : Through setup first calls s went) (same : first ↔ second)
    (split : ∀ after, whole after ↔ went after) : Through setup second calls s whole where
  goes := fun condition => (through.goes (same.mpr condition)).imp fun after => (split after).mpr
  only := by
    intro after done
    obtain ⟨condition, effect⟩ := through.only after ((split after).mp done)
    exact ⟨same.mp condition, effect⟩

end Rules

section Calls
variable {s after : Loaded}

/-- What a call does: it comes back exactly when it has an answer. -/
structure Answers (call : LoadCall) (s : Loaded) (result : Command (Option LuaError × Loaded)) : Prop where
  back : ∀ went, answer setup s.hooksReady call = some went → ∃ err after, result = .ok (err, after)
  only : ∀ err after, result = .ok (err, after) →
    answer setup s.hooksReady call = some err.isNone ∧ Effect setup [call] s after

variable {setup} {call : LoadCall}

theorem Answers.ended {stop : Ended} (never : answer setup s.hooksReady call = none) : Answers setup call s (.error stop) where
  back := fun went same => by rw [never] at same; cases same
  only := fun _ _ ran => by cases ran

theorem Answers.came {err : Option LuaError} (same : answer setup s.hooksReady call = some err.isNone)
    (effect : Effect setup [call] s after) : Answers setup call s (.ok (err, after)) where
  back := fun _ _ => ⟨err, after, rfl⟩
  only := by
    rintro _ _ ⟨⟩
    exact ⟨same, effect⟩

/-- Nothing has been registered. -/
theorem Effect.quiet (ready : Ready s.runner) (vars : newVars setup call = []) (secrets : newSecrets setup call = [])
    (tests : testArg call = none) (hooks : ∀ fn, hookFor fn call = none) : Effect setup [call] s s where
  ready := ready
  hooksReady := rfl
  vars := by simp [vars]
  secrets := by simp [secrets]
  tests := by simp [tests, registerTests]
  hooks := fun fn => by simp [hooks fn]

variable (setup)

theorem vars_answer (arg : Option VarsTable) (ready : Ready s.runner) :
    Answers setup (.registerVars arg) s (registerVars setup arg s) := by
  rw [LtfTest.registerVars, varsRead_eq]
  cases found : varsRead setup arg with
  | none => exact .ended (by simp [answer, found])
  | some result =>
    cases result with
    | error raised =>
      refine .came (by simp [answer, found, Except.isOk, Except.toBool]) (.quiet ready ?_ rfl rfl fun _ => rfl)
      simp [newVars, found]
    | ok new =>
      refine .came (by simp [answer, found, Except.isOk, Except.toBool]) ⟨ready, rfl, ?_, by simp [newSecrets], rfl, ?_⟩
      · simp [newVars, found, ltfRegisterVars]
      · simp [hookFor]

theorem secrets_answer (arg : Option (List LuaValue)) (ready : Ready s.runner) :
    Answers setup (.registerSecrets arg) s (registerSecrets setup arg s) := by
  cases arg with
  | none => exact .came rfl (.quiet ready rfl rfl rfl fun _ => rfl)
  | some names =>
    simp only [registerSecrets]
    cases found : secretNames setup names with
    | ok new =>
      refine .came (by simp [answer, secretsRead, found]) ⟨ready, rfl, by simp [newVars], ?_, rfl, by simp [hookFor]⟩
      simp [newSecrets, secretsRead, found, ltfRegisterSecrets]
    | error stop =>
      cases stop with
      | raised message =>
        refine .came (by simp [answer, secretsRead, found]) (.quiet ready rfl ?_ rfl fun _ => rfl)
        simp [newSecrets, secretsRead, found]
      | overflow => exact .ended (by simp [answer, secretsRead, found])
      | endless => exact .ended (by simp [answer, secretsRead, found])

theorem test_answer (arg : Option TestTable) (ready : Ready s.runner) :
    Answers setup (.registerTest arg) s (registerTest setup arg s) := by
  have reads := registerTest_reads setup.lua.toLuaChoices setup.opts arg s.tests
  have tests : (registerTests setup.lua.toLuaChoices setup.opts [arg] s.tests).2 =
      (lModuleLtfRegisterTest setup.lua.toLuaChoices setup.opts arg s.tests).2 := rfl
  have effect : Effect setup [.registerTest arg] s
      { s with tests := (lModuleLtfRegisterTest setup.lua.toLuaChoices setup.opts arg s.tests).2 } :=
    ⟨ready, rfl, by simp [newVars], by simp [newSecrets], tests.symm, by simp [hookFor]⟩
  rw [LtfTest.registerTest]
  cases registered : lModuleLtfRegisterTest setup.lua.toLuaChoices setup.opts arg s.tests with
  | mk result after =>
    rw [registered] at reads effect
    cases result with
    | error raised =>
      have undescribed : arg.bind (describedTest setup.lua.toLuaChoices) = none := reads
      exact .came (by simp [answer, undescribed]) effect
    | ok read =>
      have described : arg.bind (describedTest setup.lua.toLuaChoices) = some read.1.testCase := reads
      exact .came (by simp [answer, described]) effect

theorem hook_answer (fn : HookFn) (hook : Option LtfHook) (ready : Ready s.runner) :
    Answers setup (.registerHook fn hook) s (registerHook fn hook s) := by
  cases hook with
  | none => exact .came rfl (.quiet ready rfl rfl rfl fun _ => rfl)
  | some hook =>
    rw [registerHook]
    cases given : s.hooksReady with
    | false => exact .ended (by rw [given]; rfl)
    | true =>
      refine .came (by rw [given]; rfl) ⟨?_, given.symm, by simp [newVars], by simp [newSecrets], rfl, ?_⟩
      · cases fn <;> exact ⟨ready.stage, ready.tests, ready.passed, ready.failed, ready.finished⟩
      · intro other
        cases fn <;> cases other <;> simp [hookFor, ltfHooksAddToQueue, ltfGetHooks]

/-- No log finds a record, and a deferred function waits for the first test. -/
theorem action_answer (action : LuaAction) (ready : Ready s.runner) :
    Answers setup (.action action) s (loadCall setup (.action action) s) := by
  cases action with
  | log call =>
    have aborts : luaAction setup.env s.runner (.log call) = .error .abort := by
      simp only [luaAction, ltfStateLog, Runner.tick, ready.stage, ltfStateGetCurrentTest, Runner.tests, ready.tests]
      rfl
    rw [loadCall, aborts]
    exact .ended rfl
  | defer code args =>
    refine .came rfl ⟨⟨ready.stage, ready.tests, ready.passed, ready.failed, ready.finished⟩, rfl, ?_, ?_, rfl, fun fn => ?_⟩
    · simp [newVars]
    · simp [newSecrets]
    · exact (List.append_nil _).symm

theorem call_answers (call : LoadCall) (ready : Ready s.runner) : Answers setup call s (loadCall setup call s) := by
  cases call with
  | registerVars arg => exact vars_answer setup arg ready
  | registerSecrets arg => exact secrets_answer setup arg ready
  | registerTest arg => exact test_answer setup arg ready
  | registerHook fn hook => exact hook_answer setup fn hook ready
  | action action => exact action_answer setup action ready

end Calls

section Files
variable {s : Loaded}

theorem call_through (call : LoadCall × Bool) (ready : Ready s.runner) :
    Through setup (Goes setup s.hooksReady call) [call.1] s fun after =>
      ∃ err, loadCall setup call.1 s = .ok (err, after) ∧ (err.isSome → call.2 = true) := by
  have answers := call_answers setup call.1 ready
  constructor
  · rintro (fine | ⟨guarded, raises⟩)
    · obtain ⟨err, after, ran⟩ := answers.back true fine
      have none_there : err.isNone = true := by simpa [fine] using ((answers.only err after ran).1).symm
      exact ⟨after, err, ran, fun some_there => by simp [Option.isNone_iff_eq_none.mp none_there] at some_there⟩
    · obtain ⟨err, after, ran⟩ := answers.back false raises
      exact ⟨after, err, ran, fun _ => guarded⟩
  · rintro after ⟨err, ran, caught⟩
    obtain ⟨same, effect⟩ := answers.only err after ran
    refine ⟨?_, effect⟩
    cases err with
    | none => exact .inl same
    | some raised => exact .inr ⟨caught rfl, same⟩

theorem calls_cons (call : LoadCall × Bool) (calls : List (LoadCall × Bool)) (after : Loaded) :
    loadCalls setup (call :: calls) s = .ok (none, after) ↔ ∃ middle,
      (∃ err, loadCall setup call.1 s = .ok (err, middle) ∧ (err.isSome → call.2 = true)) ∧
        loadCalls setup calls middle = .ok (none, after) := by
  obtain ⟨call, guarded⟩ := call
  rw [loadCalls, Steps.bind_ok]
  constructor
  · rintro ⟨⟨err, middle⟩, ran, rest⟩
    refine ⟨middle, ⟨err, ran, fun raised => ?_⟩, ?_⟩
    · cases guarded with
      | true => rfl
      | false => cases err <;> cases raised; cases rest
    · cases err with
      | none => exact rest
      | some raised => cases guarded <;> [cases rest; exact rest]
  · rintro ⟨middle, ⟨err, ran, caught⟩, rest⟩
    refine ⟨(err, middle), ran, ?_⟩
    cases err with
    | none => exact rest
    | some raised =>
      obtain rfl : guarded = true := caught rfl
      exact rest

/-- By induction on the calls. One that raises an error in a protected call changes nothing. -/
theorem calls_through (calls : List (LoadCall × Bool)) (ready : Ready s.runner) :
    Through setup (∀ call ∈ calls, Goes setup s.hooksReady call) (calls.map Prod.fst) s fun after =>
      loadCalls setup calls s = .ok (none, after) := by
  induction calls generalizing s with
  | nil => exact (Through.stay ready).congr (by simp) fun after => by simp [loadCalls, eq_comm]
  | cons call calls ih =>
    have later : ∀ middle, Effect setup [call.1] s middle →
        Through setup (∀ call ∈ calls, Goes setup s.hooksReady call) (calls.map Prod.fst) middle fun after =>
          loadCalls setup calls middle = .ok (none, after) := by
      intro middle effect
      have rest := ih effect.ready
      rwa [effect.hooksReady] at rest
    have both := (call_through setup call ready).seq later (calls_cons setup call calls)
    exact both.congr List.forall_mem_cons.symm fun _ => .rfl

theorem file_through (file : LuaFile) (ready : Ready s.runner) :
    Through setup (Loads setup s.hooksReady file) (file.calls.map Prod.fst) s fun after =>
      luaLDofile setup file s = .ok (none, after) := by
  have calls := calls_through setup file.calls ready
  have split : ∀ after, luaLDofile setup file s = .ok (none, after) ↔
      file.outcome = .returned ∧ loadCalls setup file.calls s = .ok (none, after) := by
    intro after
    rw [luaLDofile, Steps.bind_ok]
    constructor
    · rintro ⟨⟨err, middle⟩, ran, rest⟩
      cases err with
      | some raised => cases rest
      | none =>
        cases ends : file.outcome with
        | failed value => simp [ends] at rest; cases rest
        | returned =>
          simp only [ends] at rest
          cases rest
          exact ⟨rfl, ran⟩
    · rintro ⟨ends, ran⟩
      exact ⟨_, ran, by simp only [ends]; rfl⟩
  constructor
  · intro loads
    obtain ⟨after, ran⟩ := calls.goes loads.calls
    exact ⟨after, (split after).mpr ⟨loads.outcome, ran⟩⟩
  · intro after ran
    obtain ⟨ends, ran⟩ := (split after).mp ran
    obtain ⟨goes, effect⟩ := calls.only after ran
    exact ⟨⟨goes, ends⟩, effect⟩

/-- The calls that files make, in the order in which the files are loaded. -/
def fileCalls (files : List LuaFile) : List LoadCall := files.flatMap fun file => file.calls.map Prod.fst

theorem files_cons (file : LuaFile) (files : List LuaFile) (after : Loaded) :
    loadLuaFiles setup (file :: files) s = .ok (0, after) ↔ ∃ middle,
      luaLDofile setup file s = .ok (none, middle) ∧ loadLuaFiles setup files middle = .ok (0, after) := by
  rw [loadLuaFiles, Steps.bind_ok]
  constructor
  · rintro ⟨⟨err, middle⟩, ran, rest⟩
    cases err with
    | none => exact ⟨middle, ran, rest⟩
    | some raised => cases rest
  · rintro ⟨middle, ran, rest⟩
    exact ⟨_, ran, rest⟩

theorem files_through (files : List LuaFile) (ready : Ready s.runner) :
    Through setup (∀ file ∈ files, Loads setup s.hooksReady file) (fileCalls files) s fun after =>
      loadLuaFiles setup files s = .ok (0, after) := by
  induction files generalizing s with
  | nil => exact (Through.stay ready).congr (by simp) fun after => by simp [loadLuaFiles, eq_comm]
  | cons file files ih =>
    have later : ∀ middle, Effect setup (file.calls.map Prod.fst) s middle →
        Through setup (∀ file ∈ files, Loads setup s.hooksReady file) (fileCalls files) middle fun after =>
          loadLuaFiles setup files middle = .ok (0, after) := by
      intro middle effect
      have rest := ih effect.ready
      rwa [effect.hooksReady] at rest
    have both := (file_through setup file ready).seq later (files_cons setup file files)
    exact both.congr List.forall_mem_cons.symm fun _ => .rfl

/-- The files of a directory, none if it is missing. -/
def dirFiles (path : CStr) : List LuaFile := (setup.dir path).getD []

theorem files_result {files : List LuaFile} {res : Int} {after : Loaded}
    (ran : loadLuaFiles setup files s = .ok (res, after)) : res = 0 ∨ res = -1 := by
  induction files generalizing s with
  | nil =>
    cases ran
    exact .inl rfl
  | cons file files ih =>
    rw [loadLuaFiles, Steps.bind_ok] at ran
    obtain ⟨⟨err, middle⟩, _, rest⟩ := ran
    cases err with
    | none => exact ih rest
    | some raised =>
      cases rest
      exact .inr rfl

theorem dir_through (path : CStr) (ready : Ready s.runner) :
    Through setup (∀ file ∈ dirFiles setup path, Loads setup s.hooksReady file) (fileCalls (dirFiles setup path)) s fun after =>
      loadProjectDir setup path s = .ok after := by
  refine (files_through setup (dirFiles setup path) ready).congr .rfl fun after => ?_
  rw [loadProjectDir, loadLuaDir, dirFiles]
  cases setup.dir path with
  | none => simp [loadLuaFiles, bind, Except.bind]
  | some files =>
    cases files with
    | nil => simp [loadLuaFiles, bind, Except.bind]
    | cons file files =>
      simp only [Option.getD_some, Steps.bind_ok]
      constructor
      · rintro ⟨⟨res, middle⟩, ⟨⟨code, left⟩, ran, last⟩, rest⟩
        cases last
        rcases files_result setup ran with rfl | rfl
        · cases rest
          exact ran
        · cases rest
      · intro ran
        exact ⟨(0, after), ⟨(0, after), ran, rfl⟩, rfl⟩

theorem dirs_through (dirs : List CStr) (ready : Ready s.runner) :
    Through setup (∀ dir ∈ dirs, ∀ file ∈ dirFiles setup dir, Loads setup s.hooksReady file)
      (fileCalls (dirs.flatMap (dirFiles setup))) s fun after =>
        dirs.foldlM (fun s dir => loadProjectDir setup dir s) s = .ok after := by
  induction dirs generalizing s with
  | nil => exact (Through.stay ready).congr (by simp) fun after => by simp [pure, Except.pure, eq_comm]
  | cons dir dirs ih =>
    have later : ∀ middle, Effect setup (fileCalls (dirFiles setup dir)) s middle →
        Through setup (∀ dir ∈ dirs, ∀ file ∈ dirFiles setup dir, Loads setup s.hooksReady file)
          (fileCalls (dirs.flatMap (dirFiles setup))) middle fun after =>
            dirs.foldlM (fun s dir => loadProjectDir setup dir s) middle = .ok after := by
      intro middle effect
      have rest := ih effect.ready
      rwa [effect.hooksReady] at rest
    have split : ∀ after, (dir :: dirs).foldlM (fun s dir => loadProjectDir setup dir s) s = .ok after ↔
        ∃ middle, loadProjectDir setup dir s = .ok middle ∧
          dirs.foldlM (fun s dir => loadProjectDir setup dir s) middle = .ok after := by
      intro after
      rw [List.foldlM_cons, Steps.bind_ok]
    have both := (dir_through setup dir ready).seq later split
    rw [List.flatMap_cons, fileCalls, List.flatMap_append]
    exact both.congr (by rw [List.forall_mem_cons]) fun _ => .rfl

end Files
end Ltf.Proofs.FilesLoaded
