import Ltf.Proofs.FilesLoaded
import Ltf.Proofs.SecretsParsed
import Ltf.Proofs.TargetRuns
import Ltf.Proofs.TestOrder
import Ltf.Proofs.VarsParsed

/-! `ltf test` as a whole: when a command gets its tests run, which tests these are, and what its
exit code says about them. -/

namespace Ltf.Proofs.WholeCommand
open CString CmdParser Vars Secrets TestCases LtfTest HookedRun FilesLoaded TargetRuns TestRun RunnerSteps

variable (setup : Setup)

section Plan
variable (path : CStr) (dirs : List CStr)

def libFiles : List LuaFile := dirFiles setup (.concat [path, .lit "/lib"])

def testFiles : List LuaFile := dirs.flatMap (dirFiles setup)

def hookFiles : List LuaFile := if setup.opts.skipHooks then [] else dirFiles setup (.concat [path, .lit "/hooks"])

/-- The calls of all files, in the order of the directories. -/
def allCalls : List LoadCall :=
  fileCalls (libFiles setup path) ++ fileCalls (testFiles setup dirs) ++ fileCalls (hookFiles setup path)

def hooksOf (fn : HookFn) : List LtfHook := (fileCalls (hookFiles setup path)).filterMap (hookFor fn)

/-- The tests that are left of what the files register, in the order of the scenario. -/
def selected : List OwnedTest :=
  (testCaseOrderTests setup.opts
    (registerTests setup.lua.toLuaChoices setup.opts ((allCalls setup path dirs).filterMap testArg) {}).2).registry

/-- What the hooks of an event, but for the first, do when there are so many records. -/
def laterHooks (fn : HookFn) (number : Nat) : List LuaCode := (callsAt (hooksOf setup path fn) number).tail

/-- The body of a test passes, and no hook but the first logs an error when the test starts. -/
def testPasses (test : OwnedTest × Nat) : Bool :=
  bodyPasses test.1.testCase && !(laterHooks setup path .testStarted test.2).any (·.logsError)

end Plan

/-- The directories of tests, for a target that the project has or for a project without targets. -/
inductive TestDirs (path : CStr) (multitarget : Bool) (targets : List CStr) : List CStr → Prop where
  | single : setup.opts.target = none → multitarget = false → TestDirs path multitarget targets [.concat [path, .lit "/tests"]]
  | target (target : CStr) : setup.opts.target = some target → multitarget = true → target ∈ targets →
    TestDirs path multitarget targets [.concat [path, .lit "/tests/common"], .concat [path, .lit "/tests/", target]]

/-- The command is in a project and has a target there is. -/
structure Opens (path : CStr) (dirs : List CStr) : Prop where
  logging : setup.opts.internalLogging = true → setup.internalLogOpens = true
  project : ∃ file header, setup.project = .tree path file ∧ Parses setup.lib path file header ∧
    (∃ warning, Version.ltfTestVersion (loaded header path (isMultitarget file) (targetNames setup.lib file)) setup.program =
      .ok warning) ∧
    TestDirs setup path (isMultitarget file) (targetNames setup.lib file) dirs

/-- The host has a home directory, and a place for the library of LTF. -/
structure Hosted : Prop where
  home : (getHomeDir setup).isSome = true
  library : setup.opts.customLtfLibPath.isSome = true ∨ (∃ path, setup.host.ltfLibPath = some path ∧ path.bytes ≠ []) ∨
    setup.host.ltfDirPath.bytes ≠ [] ∨ ∃ path, setup.host.home = some path ∧ path.bytes ≠ []

/-- The secrets that are registered have entries in the file, each one of them. -/
def SecretsGiven (names : List CStr) : Prop :=
  setup.secretsFile ≠ .unreadable ∧ names.Nodup ∧
    (((ltfSecretsParseFile setup.secretsFile []).2).map Prod.fst).Nodup ∧
      ∀ name ∈ names, name ∈ ((ltfSecretsParseFile setup.secretsFile []).2).map Prod.fst

/-- What is checked of the library, and of what it registers. Other files register variables
and secrets too late. -/
structure LibraryFits (path : CStr) : Prop where
  lib : ∀ file ∈ libFiles setup path, Loads setup false file
  vars : Valid ((fileCalls (libFiles setup path)).flatMap (newVars setup)) setup.opts.vars
  secrets : SecretsGiven setup ((fileCalls (libFiles setup path)).flatMap (newSecrets setup))

/-- The files of a project load. -/
structure LoadsAll (path : CStr) (dirs : List CStr) : Prop where
  library : LibraryFits setup path
  tests : ∀ file ∈ testFiles setup dirs, Loads setup false file
  hooks : ∀ file ∈ hookFiles setup path, Loads setup true file

section Parsing
variable {setup} {s after : Loaded}

theorem new_declared (call : LoadCall) : ∀ e ∈ newVars setup call, Declared e := by
  intro e inside
  cases call with
  | registerVars arg =>
    cases arg with
    | none => cases inside
    | some table =>
      simp only [newVars, varsRead] at inside
      split at inside
      next new read => exact readVars_ok (by simp) read e inside
      next => cases inside
  | registerSecrets _ => cases inside
  | registerTest _ => cases inside
  | registerHook _ _ => cases inside
  | action _ => cases inside

/-- The state that the next directory is loaded into. -/
structure Carried (s after : Loaded) : Prop where
  ready : Ready after.runner
  hooksReady : after.hooksReady = s.hooksReady
  tests : after.tests = s.tests
  hooks : ∀ fn, ltfGetHooks after.runner.state fn = ltfGetHooks s.runner.state fn

variable (setup) in
theorem vars_quiet (declared : ∀ e ∈ s.vars.getD [], Declared e) :
    (ltfParseVars setup.opts s.vars).res = 0 ↔ Valid (s.vars.getD []) setup.opts.vars := by
  have each : ((s.vars.getD []).flatMap fun e => (parseVar setup.opts.vars e).2) = [] ↔
      ∀ e ∈ s.vars.getD [], Vars.Parses setup.opts.vars e := by
    rw [List.flatMap_eq_nil_iff]
    refine forall₂_congr fun e inside => ?_
    rcases @parseVar_cases setup.opts.vars e (declared e inside).fresh with ⟨parses, done⟩ | ⟨fails, reported⟩
    · exact iff_of_true (by rw [done]) parses
    · exact iff_of_false reported fails
  have passes (errors : List CStr) : (if errors.isEmpty then (0 : Int) else -1) = 0 ↔ errors = [] := by
    cases errors <;> simp
  rw [valid_iff declared, ltfParseVars, passes, List.append_eq_nil_iff, List.append_eq_nil_iff,
    Duplicates.searchDuplicates_nil, Duplicates.searchDuplicates_nil, each, and_assoc]

variable (setup) in
theorem vars_valued (declared : ∀ e ∈ s.vars.getD [], Declared e) (valid : Valid (s.vars.getD []) setup.opts.vars) :
    ∀ e ∈ (ltfParseVars setup.opts s.vars).vars.getD [], e.finalValue.isSome = true := by
  have parses := ((valid_iff declared).mp valid).2.2
  have whole : (ltfParseVars setup.opts s.vars).vars.getD [] =
      (s.vars.getD []).map fun e => (parseVar setup.opts.vars e).1 := by
    rw [ltfParseVars]
    cases s.vars <;> rfl
  rw [whole]
  intro after inside
  obtain ⟨e, member, rfl⟩ := List.mem_map.mp inside
  rcases @parseVar_cases setup.opts.vars e (declared e member).fresh with ⟨fine, done⟩ | ⟨fails, _⟩
  · rw [done]
    exact (fine.settled (declared e member)).1
  · exact absurd (parses e member) fails

theorem vars_copied {vars : DaPtr VarEntry} (valued : ∀ e ∈ vars.getD [], e.finalValue.isSome = true) (state : LtfState) :
    ∃ copies, ltfStateRegisterVars vars state = .ok { state with vars := copies } := by
  cases vars with
  | none => exact ⟨state.vars, rfl⟩
  | some vars =>
    have each : ∀ e ∈ vars, copyVar e = .ok { e with values := some (e.values.getD []) } := by
      intro e inside
      obtain ⟨value, final⟩ := Option.isSome_iff_exists.mp (valued e inside)
      simp only [copyVar, final]
    exact ⟨_, by rw [ltfStateRegisterVars, Steps.bind_of_ok (TargetRuns.mapM_ok each)]; rfl⟩

variable (setup) in
/-- The variables get through exactly when the rules hold. -/
theorem vars_parsed (ready : Ready s.runner) (declared : ∀ e ∈ s.vars.getD [], Declared e) :
    ((∃ after, parseVars setup s = .ok after) ↔ Valid (s.vars.getD []) setup.opts.vars) ∧
      ∀ after, parseVars setup s = .ok after → Carried s after ∧ after.secrets = s.secrets := by
  have quiet := vars_quiet setup declared
  by_cases valid : Valid (s.vars.getD []) setup.opts.vars
  · obtain ⟨copies, copied⟩ := vars_copied (vars_valued setup declared valid) s.runner.state
    have ran : parseVars setup s = .ok { s with
        runner.state := { s.runner.state with vars := copies }
        vars := (ltfParseVars setup.opts s.vars).vars
        out := s.out ++ (ltfParseVars setup.opts s.vars).warnings
        err := s.err ++ (ltfParseVars setup.opts s.vars).errors } := by
      simp only [parseVars, quiet.mpr valid, ne_eq, not_true_eq_false, if_false]
      rw [Steps.bind_of_ok copied]
      rfl
    refine ⟨iff_of_true ⟨_, ran⟩ valid, fun after same => ?_⟩
    rw [ran] at same
    cases same
    exact ⟨⟨⟨ready.stage, ready.tests, ready.passed, ready.failed, ready.finished⟩, rfl, rfl, fun fn => by cases fn <;> rfl⟩, rfl⟩
  · have stops : ∀ after, parseVars setup s ≠ .ok after := by
      intro after ran
      simp only [parseVars, ne_eq, mt quiet.mp valid, not_false_eq_true, if_true] at ran
      cases ran
    exact ⟨iff_of_false (fun ⟨after, ran⟩ => stops after ran) valid, fun after ran => absurd ran (stops after)⟩

variable (setup) in
theorem secrets_quiet {names : List CStr} (registered : s.secrets.getD [] = names.map fun name => (name, none)) :
    (ltfParseSecrets setup.secretsFile s.secrets).res = 0 ↔ SecretsGiven setup names := by
  have names_eq : (s.secrets.getD []).map Prod.fst = names := by
    simp [registered, Function.comp_def]
  have each (specified : List KvPair) : ((s.secrets.getD []).flatMap fun reg => (parseSecret specified reg).2) = [] ↔
      ∀ name ∈ names, name ∈ specified.map Prod.fst := by
    simp only [registered, List.flatMap_map, List.flatMap_eq_nil_iff, SecretsParsed.parseSecret_eq]
  have passes (errors : List CStr) : (if errors.isEmpty then (0 : Int) else -1) = 0 ↔ errors = [] := by
    cases errors <;> simp
  have parsed (file : SecretsFile) (readable : (ltfSecretsParseFile file []).1 = 0) :
      (ltfParseSecrets file s.secrets).res = 0 ↔
        names.Nodup ∧ ((ltfSecretsParseFile file []).2.map Prod.fst).Nodup ∧
          ∀ name ∈ names, name ∈ (ltfSecretsParseFile file []).2.map Prod.fst := by
    cases found : ltfSecretsParseFile file [] with
    | mk res specified =>
      obtain rfl : res = 0 := by simpa [found] using readable
      simp only [ltfParseSecrets, found, ne_eq, not_true_eq_false, if_false]
      rw [passes, List.append_eq_nil_iff, List.append_eq_nil_iff, Duplicates.searchDuplicates_nil,
        Duplicates.searchDuplicates_nil, names_eq, each, and_assoc]
  rw [SecretsGiven]
  cases setup.secretsFile with
  | missing => exact (parsed .missing rfl).trans (by simp)
  | unreadable =>
    have refused : (ltfParseSecrets .unreadable s.secrets).res = -1 := rfl
    simp [refused]
  | content bytes => exact (parsed (.content bytes) rfl).trans (by simp)

variable (setup) in
theorem secrets_parsed {names : List CStr} (ready : Ready s.runner)
    (registered : s.secrets.getD [] = names.map fun name => (name, none)) :
    ((∃ after, parseSecrets setup s = .ok after) ↔ SecretsGiven setup names) ∧
      ∀ after, parseSecrets setup s = .ok after → Carried s after := by
  rw [← secrets_quiet setup registered]
  constructor
  · by_cases quiet : (ltfParseSecrets setup.secretsFile s.secrets).res = 0 <;> simp [parseSecrets, quiet]
  · intro after ran
    simp only [parseSecrets] at ran
    split at ran
    · cases ran
    · cases ran
      exact ⟨ready, rfl, rfl, fun _ => rfl⟩

end Parsing

section Loading
variable (path : CStr) (dirs : List CStr)

/-- A project whose files have been loaded. -/
structure Prepared (s : Loaded) : Prop where
  ready : Ready s.runner
  tests : s.tests =
    (registerTests setup.lua.toLuaChoices setup.opts ((allCalls setup path dirs).filterMap testArg) {}).2
  hooks : ∀ fn, ltfGetHooks s.runner.state fn = hooksOf setup path fn

theorem newLoaded_ready (name : CStr) (out : List CStr) : Ready (newLoaded setup name out).runner :=
  ⟨rfl, rfl, rfl, rfl, rfl⟩

variable {setup} {s : Loaded}

theorem hooks_inited (ready : Ready s.runner) :
    Ready (ltfHooksInit s).runner ∧ ∀ fn, ltfGetHooks (ltfHooksInit s).runner.state fn = [] :=
  ⟨⟨ready.stage, ready.tests, ready.passed, ready.failed, ready.finished⟩, fun fn => by cases fn <;> rfl⟩

theorem hooks_through (ready : Ready s.runner) (given : s.hooksReady = true) :
    Through setup (∀ file ∈ hookFiles setup path, Loads setup true file) (fileCalls (hookFiles setup path)) s fun after =>
      (if setup.opts.skipHooks then .ok s else loadProjectDir setup (.concat [path, .lit "/hooks"]) s) = .ok after := by
  rw [hookFiles]
  cases setup.opts.skipHooks with
  | true => exact (Through.stay ready).congr (by simp) fun after => by simp [eq_comm]
  | false =>
    have dir := dir_through setup (.concat [path, .lit "/hooks"]) ready
    rwa [given] at dir

section Library
variable {name : CStr} {out : List CStr} {first second third : Loaded}

theorem lib_through (name : CStr) (out : List CStr) :
    Through setup (∀ file ∈ libFiles setup path, Loads setup false file) (fileCalls (libFiles setup path))
      (newLoaded setup name out) fun after =>
        loadProjectDir setup (.concat [path, .lit "/lib"]) (newLoaded setup name out) = .ok after :=
  dir_through setup (.concat [path, .lit "/lib"]) (newLoaded_ready setup name out)

/-- The variables that the library has registered are as tables declare them. -/
theorem lib_declared (effect : Effect setup (fileCalls (libFiles setup path)) (newLoaded setup name out) first) :
    first.vars.getD [] = (fileCalls (libFiles setup path)).flatMap (newVars setup) ∧
      ∀ e ∈ first.vars.getD [], Declared e := by
  have registered : first.vars.getD [] = (fileCalls (libFiles setup path)).flatMap (newVars setup) := effect.vars
  refine ⟨registered, fun e inside => ?_⟩
  rw [registered] at inside
  obtain ⟨call, _, inside⟩ := List.mem_flatMap.mp inside
  exact new_declared call e inside

theorem library_only (loads : loadProjectDir setup (.concat [path, .lit "/lib"]) (newLoaded setup name out) = .ok first)
    (parses : parseVars setup first = .ok second) (finds : parseSecrets setup second = .ok third) :
    LibraryFits setup path ∧ Carried first third ∧
      Effect setup (fileCalls (libFiles setup path)) (newLoaded setup name out) first := by
  obtain ⟨lib, effect⟩ := (lib_through path name out).only first loads
  obtain ⟨registered, declared⟩ := lib_declared path effect
  obtain ⟨valid, carries⟩ := vars_parsed setup effect.ready declared
  obtain ⟨one, same⟩ := carries second parses
  have names : second.secrets.getD [] =
      ((fileCalls (libFiles setup path)).flatMap (newSecrets setup)).map fun name => (name, none) := by
    rw [same]
    exact effect.secrets
  obtain ⟨given, carries⟩ := secrets_parsed setup one.ready names
  have two := carries third finds
  refine ⟨⟨lib, ?_, given.mp ⟨third, finds⟩⟩, ⟨two.ready, ?_, ?_, fun fn => ?_⟩, effect⟩
  · rw [← registered]
    exact valid.mp ⟨second, parses⟩
  · exact two.hooksReady.trans one.hooksReady
  · exact two.tests.trans one.tests
  · exact (two.hooks fn).trans (one.hooks fn)

theorem library_goes (name : CStr) (out : List CStr) (fits : LibraryFits setup path) :
    ∃ first second third, loadProjectDir setup (.concat [path, .lit "/lib"]) (newLoaded setup name out) = .ok first ∧
      parseVars setup first = .ok second ∧ parseSecrets setup second = .ok third := by
  obtain ⟨first, loads⟩ := (lib_through path name out).goes fits.lib
  obtain ⟨_, effect⟩ := (lib_through path name out).only first loads
  obtain ⟨registered, declared⟩ := lib_declared path effect
  obtain ⟨valid, carries⟩ := vars_parsed setup effect.ready declared
  obtain ⟨second, parses⟩ := valid.mpr (registered ▸ fits.vars)
  obtain ⟨one, same⟩ := carries second parses
  have names : second.secrets.getD [] =
      ((fileCalls (libFiles setup path)).flatMap (newSecrets setup)).map fun name => (name, none) := by
    rw [same]
    exact effect.secrets
  obtain ⟨third, finds⟩ := (secrets_parsed setup one.ready names).1.mpr fits.secrets
  exact ⟨first, second, third, loads, parses, finds⟩

end Library

theorem loadProject_split (start after : Loaded) : loadProject setup path dirs start = .ok after ↔
    ∃ first second third fourth, (loadProjectDir setup (.concat [path, .lit "/lib"]) start = .ok first ∧
      parseVars setup first = .ok second ∧ parseSecrets setup second = .ok third) ∧
      dirs.foldlM (fun s dir => loadProjectDir setup dir s) third = .ok fourth ∧
      (if setup.opts.skipHooks then .ok (ltfHooksInit fourth)
        else loadProjectDir setup (.concat [path, .lit "/hooks"]) (ltfHooksInit fourth)) = .ok after := by
  simp only [loadProject, Steps.bind_ok]
  constructor
  · rintro ⟨first, loads, second, parses, third, finds, fourth, tests, hooks⟩
    exact ⟨first, second, third, fourth, ⟨loads, parses, finds⟩, tests, hooks⟩
  · rintro ⟨first, second, third, fourth, ⟨loads, parses, finds⟩, tests, hooks⟩
    exact ⟨first, loads, second, parses, third, finds, fourth, tests, hooks⟩

theorem project_only {name : CStr} {out : List CStr} (ran : loadProject setup path dirs (newLoaded setup name out) = .ok s) :
    LoadsAll setup path dirs ∧ Prepared setup path dirs s := by
  obtain ⟨first, second, third, fourth, ⟨loads, parses, finds⟩, tests, hooks⟩ := (loadProject_split path dirs _ _).mp ran
  obtain ⟨fits, carried, lib⟩ := library_only path loads parses finds
  have early : third.hooksReady = false := carried.hooksReady.trans lib.hooksReady
  obtain ⟨load, effect⟩ := (dirs_through setup dirs carried.ready).only fourth tests
  obtain ⟨ready, empty⟩ := hooks_inited effect.ready
  obtain ⟨load', effect'⟩ := (hooks_through path ready rfl).only s hooks
  rw [early] at load
  refine ⟨⟨fits, fun file inside => ?_, load'⟩, effect'.ready, ?_, fun fn => ?_⟩
  · obtain ⟨dir, member, inside⟩ := List.mem_flatMap.mp inside
    exact load dir member file inside
  · have named : (ltfHooksInit fourth).tests = fourth.tests := rfl
    rw [effect'.tests, named, effect.tests, carried.tests, lib.tests, allCalls, List.filterMap_append, List.filterMap_append,
      registerTests_append, registerTests_append]
    rfl
  · rw [effect'.hooks, empty]
    rfl

theorem project_goes (name : CStr) (out : List CStr) (all : LoadsAll setup path dirs) :
    ∃ s, loadProject setup path dirs (newLoaded setup name out) = .ok s := by
  obtain ⟨first, second, third, loads, parses, finds⟩ := library_goes path name out all.library
  obtain ⟨_, carried, lib⟩ := library_only path loads parses finds
  have early : third.hooksReady = false := carried.hooksReady.trans lib.hooksReady
  have through := dirs_through setup dirs carried.ready
  rw [early] at through
  obtain ⟨fourth, tests⟩ := through.goes fun dir member file inside =>
    all.tests file (List.mem_flatMap.mpr ⟨dir, member, inside⟩)
  obtain ⟨ready, _⟩ := hooks_inited (through.only fourth tests).2.ready
  obtain ⟨s, hooks⟩ := (hooks_through path ready rfl).goes all.hooks
  exact ⟨s, (loadProject_split path dirs _ _).mpr ⟨first, second, third, fourth, ⟨loads, parses, finds⟩, tests, hooks⟩⟩

end Loading

section Running
variable (path : CStr) (dirs : List CStr)

/-- What else has to be in place before tests are run: the log, a test, and the user interface. -/
structure Starts : Prop where
  log : setup.opts.noLogs = false → setup.logOpens = true
  tests : selected setup path dirs ≠ []
  ui : setup.opts.headless = false → setup.uiStarts = true

/-- Everything is ready to run the selected tests. -/
structure Started (s : Loaded) : Prop where
  ready : Ready s.runner
  tests : s.tests.registry = selected setup path dirs
  hooks : ∀ fn, ltfGetHooks s.runner.state fn = hooksOf setup path fn

variable {setup} {s after : Loaded}

theorem log_opened (ready : Ready s.runner) :
    ((∃ after, openLog setup s = .ok after) ↔
      (setup.opts.noLogs = false → setup.logOpens = true)) ∧
    ∀ after, openLog setup s = .ok after → Carried s after := by
  have same : Carried s s := ⟨ready, rfl, rfl, fun _ => rfl⟩
  rw [openLog]
  cases setup.opts.noLogs with
  | true => exact ⟨by simp, fun after ran => by cases ran; exact same⟩
  | false =>
    rw [startLog]
    cases setup.logOpens with
    | false => exact ⟨by simp, fun after ran => by cases ran⟩
    | true =>
      refine ⟨by simp, fun after ran => ?_⟩
      cases ran
      exact ⟨⟨ready.stage, ready.tests, ready.passed, ready.failed, ready.finished⟩, rfl, rfl, fun fn => by cases fn <;> rfl⟩

theorem ui_started (ready : Ready s.runner) :
    ((∃ after, startUi setup s = .ok after) ↔ (setup.opts.headless = false → setup.uiStarts = true)) ∧
    ∀ after, startUi setup s = .ok after → Carried s after := by
  have listening : ∀ {state : LtfState}, state = ltfHeadlessInit s.runner.state ∨ state = ltfTuiInit s.runner.state →
      Carried s { s with runner.state := state } := by
    intro state same
    refine ⟨?_, rfl, rfl, fun fn => ?_⟩
    · rcases same with rfl | rfl <;> exact ⟨ready.stage, ready.tests, ready.passed, ready.failed, ready.finished⟩
    · rcases same with rfl | rfl <;> cases fn <;> rfl
  rw [startUi]
  cases setup.opts.headless with
  | true => exact ⟨by simp, fun after ran => by cases ran; exact listening (.inl rfl)⟩
  | false =>
    cases setup.uiStarts with
    | false => exact ⟨by simp, fun after ran => by cases ran⟩
    | true => exact ⟨by simp, fun after ran => by cases ran; exact listening (.inr rfl)⟩

theorem tests_ordered (ready : Ready s.runner) :
    ((∃ after, orderTests setup s = .ok after) ↔ (testCaseOrderTests setup.opts s.tests).registry ≠ []) ∧
    ∀ after, orderTests setup s = .ok after → Ready after.runner ∧
      after.tests.registry = (testCaseOrderTests setup.opts s.tests).registry ∧
      ∀ fn, ltfGetHooks after.runner.state fn = ltfGetHooks s.runner.state fn := by
  rw [orderTests]
  by_cases empty : (testCaseOrderTests setup.opts s.tests).registry = []
  · have zero : (testCaseOrderTests setup.opts s.tests).registry.length = 0 := by rw [empty]; rfl
    rw [Tests.registry] at zero
    simp only [zero, if_true]
    exact ⟨by simp [empty], fun after ran => by cases ran⟩
  · have some_there : (testCaseOrderTests setup.opts s.tests).registry.length ≠ 0 := mt List.length_eq_zero_iff.mp empty
    rw [Tests.registry] at some_there
    simp only [some_there, if_false]
    refine ⟨by simp [empty], fun after ran => ?_⟩
    cases ran
    exact ⟨⟨ready.stage, ready.tests, ready.passed, ready.failed, ready.finished⟩, rfl, fun fn => by cases fn <;> rfl⟩

variable {path dirs} in
theorem starts_only {loaded logged ordered shown : Loaded} (prepared : Prepared setup path dirs loaded)
    (log : openLog setup loaded = .ok logged)
    (order : orderTests setup logged = .ok ordered) (ui : startUi setup ordered = .ok shown) :
    Starts setup path dirs ∧ Started setup path dirs shown := by
  obtain ⟨opens, carries⟩ := log_opened prepared.ready
  have one := carries logged log
  obtain ⟨nonempty, sorts⟩ := tests_ordered one.ready
  obtain ⟨ready, arranged, hooks⟩ := sorts ordered order
  obtain ⟨comes, shows⟩ := ui_started ready
  have two := shows shown ui
  have left : (testCaseOrderTests setup.opts logged.tests).registry = selected setup path dirs := by
    rw [one.tests, prepared.tests]
    rfl
  refine ⟨⟨opens.mp ⟨logged, log⟩, left ▸ nonempty.mp ⟨ordered, order⟩, comes.mp ⟨shown, ui⟩⟩, two.ready, ?_, fun fn => ?_⟩
  · rw [two.tests, arranged, left]
  · rw [two.hooks, hooks, one.hooks, prepared.hooks]

variable {path dirs} in
theorem starts_goes {loaded : Loaded} (prepared : Prepared setup path dirs loaded) (starts : Starts setup path dirs) :
    ∃ logged ordered shown, openLog setup loaded = .ok logged ∧
      orderTests setup logged = .ok ordered ∧ startUi setup ordered = .ok shown := by
  obtain ⟨opens, carries⟩ := log_opened prepared.ready
  obtain ⟨logged, log⟩ := opens.mpr starts.log
  have one := carries logged log
  have left : (testCaseOrderTests setup.opts logged.tests).registry = selected setup path dirs := by
    rw [one.tests, prepared.tests]
    rfl
  obtain ⟨nonempty, sorts⟩ := tests_ordered one.ready
  obtain ⟨ordered, order⟩ := nonempty.mpr (left ▸ starts.tests)
  obtain ⟨shown, ui⟩ := (ui_started (sorts ordered order).1).1.mpr starts.ui
  exact ⟨logged, ordered, shown, log, order, ui⟩

end Running

section Opening
variable {setup} {name path : CStr} {dirs out : List CStr}

theorem dirs_iff (multitarget : Bool) (targets : List CStr) :
    testDirs setup path multitarget targets = .ok dirs ↔ TestDirs setup path multitarget targets dirs := by
  unfold testDirs
  constructor
  · intro ran
    cases given : setup.opts.target with
    | none =>
      rw [given] at ran
      cases multitarget with
      | true => cases ran
      | false =>
        cases ran
        exact .single given rfl
    | some target =>
      rw [given] at ran
      cases multitarget with
      | false => cases ran
      | true =>
        simp only at ran
        split at ran
        next found =>
          cases ran
          exact .target target given rfl (by simpa using found)
        next => cases ran
  · rintro (⟨given, rfl⟩ | ⟨target, given, rfl, member⟩)
    · rw [given]
    · have found : targets.any (target = ·) = true := by simpa using member
      simp only [given, found, if_true]

theorem parseProject_iff {proj : ProjectParsed} : parseProject setup = .ok (path, proj) ↔
    ∃ file header, setup.project = .tree path file ∧ TargetRuns.Parses setup.lib path file header ∧
      proj = loaded header path (isMultitarget file) (targetNames setup.lib file) := by
  rw [parseProject]
  constructor
  · intro ran
    cases project : setup.project with
    | missing => rw [project] at ran; cases ran
    | unreadable err => rw [project] at ran; cases ran
    | tree dir file =>
      rw [project] at ran
      cases parsed : projectParserParse setup.lib dir file with
      | error fault => simp [parsed] at ran
      | ok found =>
        cases found with
        | none => simp [parsed] at ran
        | some found =>
          simp only [parsed, Except.ok.injEq, Prod.mk.injEq] at ran
          obtain ⟨rfl, rfl⟩ := ran
          obtain ⟨header, parses⟩ := TargetRuns.Accepted.parses ⟨found, parsed⟩
          have same : found = loaded header dir (isMultitarget file) (targetNames setup.lib file) := by
            rw [TargetRuns.Parses, parsed] at parses
            simpa using parses
          exact ⟨file, header, rfl, parses, same⟩
  · rintro ⟨file, header, project, parses, rfl⟩
    rw [TargetRuns.Parses] at parses
    simp only [project, parses]

/-- What follows the parsing of the project reads only what was set. -/
theorem opened_eq (header : Header) (path : CStr) (multitarget : Bool) (targets : List CStr) :
    Version.readProject (loaded header path multitarget targets).multitarget = .ok multitarget ∧
      Version.readProject (loaded header path multitarget targets).projectName = .ok header.name ∧
      readTargets (loaded header path multitarget targets) = .ok targets := by
  refine ⟨rfl, rfl, readTargets_eq rfl ?_⟩
  cases targets with
  | nil => exact .inr rfl
  | cons target targets => exact .inl rfl

theorem searched_eq (header : Header) (path : CStr) (multitarget : Bool) (targets : List CStr) :
    ∃ searched, searchedTargets setup (loaded header path multitarget targets) multitarget = .ok searched ∧
      testDirs setup path multitarget searched = testDirs setup path multitarget targets := by
  obtain ⟨_, _, read⟩ := opened_eq header path multitarget targets
  rw [searchedTargets, read]
  cases given : setup.opts.target with
  | none =>
    refine ⟨[], rfl, ?_⟩
    unfold testDirs
    rw [given]
    cases multitarget <;> rfl
  | some target =>
    cases multitarget with
    | true => exact ⟨targets, rfl, rfl⟩
    | false => exact ⟨[], rfl, by unfold testDirs; rw [given]⟩

theorem mapError_ok {ε ε' α : Type} {result : Except ε α} {fault : ε → ε'} {value : α} :
    result.mapError fault = .ok value ↔ result = .ok value := by
  cases result <;> simp [Except.mapError]

theorem read_ok {α : Type} {result : Version.VersionExec α} {value : α} :
    LtfTest.readProject result = .ok value ↔ result = .ok value := mapError_ok

theorem opens_iff : (∃ name out, openProject setup = .ok (name, path, dirs, out)) ↔ Opens setup path dirs := by
  have logging : (setup.opts.internalLogging && !setup.internalLogOpens) = false ↔
      (setup.opts.internalLogging = true → setup.internalLogOpens = true) := by
    cases setup.opts.internalLogging <;> simp
  constructor
  · rintro ⟨name, out, ran⟩
    rw [openProject] at ran
    split at ran
    next => cases ran
    next open_log =>
      obtain ⟨⟨dir, proj⟩, parsed, ran⟩ := Steps.bind_ok.mp ran
      obtain ⟨warning, version, ran⟩ := Steps.bind_ok.mp ran
      obtain ⟨multitarget, flag, ran⟩ := Steps.bind_ok.mp ran
      obtain ⟨searched, found, ran⟩ := Steps.bind_ok.mp ran
      obtain ⟨there, dirs_there, ran⟩ := Steps.bind_ok.mp ran
      obtain ⟨_, _, last⟩ := Steps.bind_ok.mp ran
      cases last
      obtain ⟨file, header, project, parses, rfl⟩ := parseProject_iff.mp parsed
      obtain ⟨flag', _, _⟩ := opened_eq header path (isMultitarget file) (targetNames setup.lib file)
      obtain rfl : isMultitarget file = multitarget := by simpa [flag'] using read_ok.mp flag
      obtain ⟨searched', found', same⟩ :=
        @searched_eq setup header path (isMultitarget file) (targetNames setup.lib file)
      obtain rfl : searched' = searched := by simpa [found'] using found
      refine ⟨logging.mp (by simpa using open_log), file, header, project, parses, ⟨warning, read_ok.mp version⟩, ?_⟩
      exact (dirs_iff _ _).mp (same.symm.trans dirs_there)
  · intro opens
    obtain ⟨file, header, project, parses, ⟨warning, version⟩, there⟩ := opens.project
    obtain ⟨flag, text, _⟩ := opened_eq header path (isMultitarget file) (targetNames setup.lib file)
    obtain ⟨searched, found, same⟩ :=
      @searched_eq setup header path (isMultitarget file) (targetNames setup.lib file)
    have parsed := parseProject_iff.mpr ⟨file, header, project, parses, rfl⟩
    refine ⟨header.name, warning.toList, ?_⟩
    rw [openProject, if_neg (by simpa using logging.mpr opens.logging), Steps.bind_of_ok parsed]
    simp only
    rw [Steps.bind_of_ok (read_ok.mpr version), Steps.bind_of_ok (read_ok.mpr flag), Steps.bind_of_ok found,
      Steps.bind_of_ok (same.trans ((dirs_iff _ _).mpr there)), Steps.bind_of_ok (read_ok.mpr text)]
    rfl

end Opening

section Tests
variable {env : Env} {tests : List TestCase} {r : Runner} {state : LtfState}

/-- A run that comes to its end has not been interrupted. -/
theorem uninterrupted {start after : Loop} (tally : Tally state [] start) (ran : runTests env tests start = .ok after) :
    ¬ Interrupted env tests.length := by
  induction tests using List.reverseRecOn generalizing after with
  | nil =>
    rintro ⟨i, small, _⟩
    exact absurd small (Nat.not_lt_zero i)
  | append_singleton done tc ih =>
    rw [runTests_append, Steps.bind_ok] at ran
    obtain ⟨before, earlier, last⟩ := ran
    have quiet := ih earlier
    obtain ⟨before', same, kept⟩ := run_tallied tally quiet
    obtain rfl : before' = before := by simpa [earlier] using same.symm
    obtain ⟨records, known, _⟩ := kept.records
    obtain ⟨_, _, once, _⟩ := iteration env tc known kept.stage
    rintro ⟨i, small, noticed⟩
    have place : i = before'.index := by
      rw [List.length_append] at small
      by_contra other
      refine quiet ⟨i, ?_, noticed⟩
      have := kept.index
      simp only [List.length_singleton] at small
      omega
    rw [← place, noticed, if_pos rfl] at once
    rw [runTests, List.foldlM_cons, once] at last
    cases last

variable (env) in
theorem tests_run (ready : Ready r) (some_there : tests ≠ []) :
    ((∃ code final, runAllTests env tests r = .ok (code, final)) ↔
      ¬ LaterLogs r.state .testRunStarted ∧ ¬ Interrupted env tests.length) ∧
    ∀ code final, runAllTests env tests r = .ok (code, final) →
      Judged r.state tests final.tests ∧ (code = exitSuccess ↔ ∀ test ∈ numbered tests, passes r.state test = true) := by
  by_cases logs : LaterLogs r.state .testRunStarted
  · have never := never_begins env tests ready logs
    refine ⟨iff_of_false ?_ (fun calm => calm.1 logs), fun code final ran => absurd ran (never code final)⟩
    rintro ⟨code, final, ran⟩
    exact never code final ran
  · by_cases quiet : Interrupted env tests.length
    · have never : ∀ code final, runAllTests env tests r ≠ .ok (code, final) := by
        intro code final ran
        obtain ⟨loop, begun, tally⟩ := begins env ready logs
        rw [runAllTests, Steps.bind_of_ok begun, Steps.bind_ok] at ran
        obtain ⟨after, looped, _⟩ := ran
        exact uninterrupted tally looped quiet
      refine ⟨iff_of_false ?_ (fun calm => calm.2 quiet), fun code final ran => absurd ran (never code final)⟩
      rintro ⟨code, final, ran⟩
      exact never code final ran
    · obtain ⟨done, tallied, whole⟩ := reaches_finish env tests ready quiet logs
      obtain ⟨ends, final_tally⟩ := finish env tallied
      obtain ⟨last, closing⟩ := ends.mpr fun none_there => some_there none_there.1
      refine ⟨iff_of_true ⟨_, last, (whole _ last).mpr ⟨closing, rfl⟩⟩ ⟨logs, quiet⟩, fun code final ran => ?_⟩
      obtain ⟨closing, rfl⟩ := (whole code final).mp ran
      exact ⟨(final_tally final closing).1, tallied.exit_code⟩

end Tests

section Hosting
variable {setup}

theorem libDir_iff : (∃ lib, getLtfLibDir setup = .ok lib) ↔
    (setup.opts.customLtfLibPath.isSome = true ∨ (∃ path, setup.host.ltfLibPath = some path ∧ path.bytes ≠ []) ∨
      setup.host.ltfDirPath.bytes ≠ [] ∨ ∃ path, setup.host.home = some path ∧ path.bytes ≠ []) := by
  have filled (text : Option CStr) :
      (∃ path, text = some path ∧ path.bytes ≠ []) ↔ (text.filter (·.bytes ≠ [])).isSome = true := by
    cases text <;> simp [Option.filter]
  rw [filled, filled, getLtfLibDir]
  cases setup.opts.customLtfLibPath with
  | some path => simp
  | none =>
    cases setup.host.ltfLibPath.filter (·.bytes ≠ []) with
    | some path => simp
    | none =>
      by_cases installed : setup.host.ltfDirPath.bytes = []
      · cases setup.host.home.filter (·.bytes ≠ []) <;> simp [installed]
      · simp [installed]

theorem hosted_iff : (∃ lib, registerLtfLibs setup = .ok lib) ↔ Hosted setup := by
  have both : (∃ lib, registerLtfLibs setup = .ok lib) ↔
      (∃ lib, getLtfLibDir setup = .ok lib) ∧ (getHomeDir setup).isSome = true := by
    simp only [registerLtfLibs, Steps.bind_ok]
    cases getHomeDir setup with
    | none => simp
    | some home => simp [pure, Except.pure]
  rw [both, libDir_iff]
  exact ⟨fun known => ⟨known.2, known.1⟩, fun hosted => ⟨hosted.library, hosted.home⟩⟩

end Hosting

section Command
variable {setup} {path : CStr} {dirs : List CStr}

theorem command_split (code : Nat) (final : Runner) : ltfTest setup = .ok (code, final) ↔
    ∃ name path dirs out lib loaded logged ordered shown, openProject setup = .ok (name, path, dirs, out) ∧
      registerLtfLibs setup = .ok lib ∧ loadProject setup path dirs (newLoaded setup name (out ++ lib.2)) = .ok loaded ∧
      openLog setup loaded = .ok logged ∧ orderTests setup logged = .ok ordered ∧ startUi setup ordered = .ok shown ∧
      runAllTests (runEnv setup) (shown.tests.registry.map (·.testCase)) shown.runner = .ok (code, final) := by
  simp only [ltfTest, Steps.bind_ok, mapError_ok]
  constructor
  · rintro ⟨⟨name, path, dirs, out⟩, opened, lib, hosted, loaded, loads, logged, log, ordered, order, shown, ui, ran⟩
    exact ⟨name, path, dirs, out, lib, loaded, logged, ordered, shown, opened, hosted, loads, log, order, ui, ran⟩
  · rintro ⟨name, path, dirs, out, lib, loaded, logged, ordered, shown, opened, hosted, loads, log, order, ui, ran⟩
    exact ⟨⟨name, path, dirs, out⟩, opened, lib, hosted, loaded, loads, logged, log, ordered, order, shown, ui, ran⟩

variable (setup) in
/-- A command that is in a project gets through all its tests. -/
structure Runs (path : CStr) (dirs : List CStr) : Prop where
  loads : LoadsAll setup path dirs
  starts : Starts setup path dirs
  calm : ∀ call ∈ laterHooks setup path .testRunStarted 0, call.logs = []
  quiet : ¬ Interrupted (runEnv setup) (selected setup path dirs).length

variable (setup) in
/-- The records are those of the selected tests, and the exit code is about their verdicts. -/
structure Tells (path : CStr) (dirs : List CStr) (code : Nat) (final : Runner) : Prop where
  records : List.Forall₂ (fun test record => Verdict (some test.1.name.value) (testPasses setup path test) record)
    (numbered (selected setup path dirs)) final.tests
  code : code = exitSuccess ↔ ∀ test ∈ numbered (selected setup path dirs), testPasses setup path test = true

theorem started_run {s : Loaded} (starts : Starts setup path dirs) (started : Started setup path dirs s) :
    ((∃ code final, runAllTests (runEnv setup) (s.tests.registry.map (·.testCase)) s.runner = .ok (code, final)) ↔
      (∀ call ∈ laterHooks setup path .testRunStarted 0, call.logs = []) ∧
        ¬ Interrupted (runEnv setup) (selected setup path dirs).length) ∧
    ∀ code final, runAllTests (runEnv setup) (s.tests.registry.map (·.testCase)) s.runner = .ok (code, final) →
      Tells setup path dirs code final := by
  have some_there : (selected setup path dirs).map (·.testCase) ≠ [] := by simpa using starts.tests
  have runs := tests_run (runEnv setup) started.ready some_there
  have calm : LaterLogs s.runner.state .testRunStarted ↔
      ¬ ∀ call ∈ laterHooks setup path .testRunStarted 0, call.logs = [] := by
    rw [LaterLogs, laterCalls, started.hooks]
    push Not
    rfl
  have verdicts : ∀ test : OwnedTest × Nat, passes s.runner.state (Prod.map (·.testCase) id test) = testPasses setup path test := by
    intro test
    rw [passes, hooksFail, laterCalls, started.hooks]
    rfl
  have placed : numbered ((selected setup path dirs).map (·.testCase)) =
      (numbered (selected setup path dirs)).map (Prod.map (·.testCase) id) := List.zipIdx_map
  rw [started.tests]
  rw [List.length_map] at runs
  refine ⟨runs.1.trans (by rw [calm, not_not]), fun code final ran => ?_⟩
  obtain ⟨each, success⟩ := runs.2 code final ran
  rw [Judged, placed, List.forall₂_map_left_iff] at each
  rw [placed, List.forall_mem_map] at success
  simp only [verdicts] at each success
  exact ⟨each, success⟩

/-- `ltf test` runs tests exactly when it is in a project on a host with a home directory, everything loads and
fits, and there is a test left. These are then the tests that are run, and the exit code that goes into the
clean-up is 0 exactly when all of them pass. -/
theorem ltf_test_runs (setup : Setup) :
    ((∃ code final, ltfTest setup = .ok (code, final)) ↔
      Hosted setup ∧ ∃ path dirs, Opens setup path dirs ∧ Runs setup path dirs) ∧
    ∀ code final, ltfTest setup = .ok (code, final) → ∃ path dirs, Opens setup path dirs ∧ Tells setup path dirs code final := by
  have each : ∀ code final, ltfTest setup = .ok (code, final) → Hosted setup ∧ ∃ path dirs, Opens setup path dirs ∧
      Runs setup path dirs ∧ Tells setup path dirs code final := by
    intro code final ran
    obtain ⟨name, path, dirs, out, lib, loaded, logged, ordered, shown, opened, hosted, loads, log, order, ui, ran⟩ :=
      (command_split code final).mp ran
    obtain ⟨all, prepared⟩ := project_only path dirs loads
    obtain ⟨starts, started⟩ := starts_only prepared log order ui
    obtain ⟨ends, tells⟩ := started_run starts started
    obtain ⟨calm, quiet⟩ := ends.mp ⟨code, final, ran⟩
    exact ⟨hosted_iff.mp ⟨lib, hosted⟩, path, dirs, opens_iff.mp ⟨name, out, opened⟩, ⟨all, starts, calm, quiet⟩,
      tells code final ran⟩
  refine ⟨⟨?_, ?_⟩, fun code final ran => ?_⟩
  · rintro ⟨code, final, ran⟩
    obtain ⟨hosted, path, dirs, opens, runs, _⟩ := each code final ran
    exact ⟨hosted, path, dirs, opens, runs⟩
  · rintro ⟨hosted, path, dirs, opens, runs⟩
    obtain ⟨name, out, opened⟩ := opens_iff.mpr opens
    obtain ⟨lib, registered⟩ := hosted_iff.mpr hosted
    obtain ⟨loaded, loads⟩ := project_goes path dirs name (out ++ lib.2) runs.loads
    obtain ⟨_, prepared⟩ := project_only path dirs loads
    obtain ⟨logged, ordered, shown, log, order, ui⟩ := starts_goes prepared runs.starts
    obtain ⟨starts, started⟩ := starts_only prepared log order ui
    obtain ⟨code, final, ran⟩ := (started_run starts started).1.mpr ⟨runs.calm, runs.quiet⟩
    exact ⟨code, final, (command_split code final).mpr
      ⟨name, path, dirs, out, lib, loaded, logged, ordered, shown, opened, registered, loads, log, order, ui, ran⟩⟩
  · obtain ⟨_, path, dirs, opens, _, tells⟩ := each code final ran
    exact ⟨path, dirs, opens, tells⟩

end Command

def fastTest : TestTable where
  name := .string [98]
  body := some (.mk [] .returned)
  tags := .table [.string (CStr.lit "fast").bytes]

/-- A project with a variable that its library declares, and two tests of which the second one has the
tag that is asked for. -/
def tagged : Setup where
  env := plainEnv
  lua := .first
  lib := default
  program := ⟨2, 0, 0, .lit "2.0.0"⟩
  opts := { tags := [.lit "fast"], headless := true, noLogs := true }
  project := .tree (.lit "/p") (exampleFile false [])
  dir := fun path =>
    if path = .lit "/p/lib" then some [⟨.lit "/p/lib/vars.lua", [(.registerVars (some envTable), false)], .returned⟩]
    else if path = .lit "/p/tests" then some [⟨.lit "/p/tests/tests.lua", [
      (.registerTest (some { name := .string [97], body := some (.mk [] (.failed none)) }), false),
      (.registerTest none, true),
      (.registerTest (some fastTest), false)], .returned⟩]
    else none
  secretsFile := .missing
  host := { ltfLibPath := none, home := some (.lit "/root"), pwDir := none, ltfDirPath := .lit "" }
  errorText := fun _ _ => []
  os := .lit "linux"
  osVersion := .lit "6"
  internalLogOpens := false
  logOpens := false
  uiStarts := false
  fuel := 3

example : (ltfTest tagged).toOption.map (fun ended => (ended.1, ended.2.tests.map (·.name))) =
    some (exitSuccess, [some (.lit "b")]) := by decide +kernel

end Ltf.Proofs.WholeCommand
