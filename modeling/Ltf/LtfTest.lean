import Ltf.LogsInfo
import Ltf.LuaJson
import Ltf.Secrets
import Ltf.Test
import Ltf.TestCase
import Ltf.Vars
import Ltf.Version

/-! `ltf_test` of `ltf_test.c` up to its label `deinit`: the files of a project are loaded, what
they register is checked and put in order, and the tests are run. -/

namespace Ltf.LtfTest
open CString JsonC CmdParser Vars Secrets TestCases Version

/-- A call that a file makes of the modules of LTF while it is loaded. A hook that is no
function has no code. -/
inductive LoadCall where
  | registerVars (arg : Option VarsTable)
  | registerSecrets (arg : Option (List LuaValue))
  | registerTest (arg : Option TestTable)
  | registerHook (fn : HookFn) (hook : Option LtfHook)
  | action (action : LuaAction)

/-- A file of Lua code: the calls it makes, each with whether it is a protected one, and how
the file ends when no other call fails. -/
structure LuaFile where
  path : CStr
  calls : List (LoadCall × Bool)
  outcome : LuaOutcome

/-- What `project_parser_parse` finds: no file, a file without a tree, or the tree of a file
and the directory it is in. -/
inductive ProjectFile where
  | missing
  | unreadable (err : CStr)
  | tree (path : CStr) (file : Json)

/-- `LTF_LIB_PATH` and `HOME` in the environment, the directory of the user in the password file,
and `LTF_DIR_PATH`, which is set when LTF is built. -/
structure Host where
  ltfLibPath : Option CStr
  home : Option CStr
  pwDir : Option CStr
  ltfDirPath : CStr

/-- What the command is run with. A directory has its files in the order in which
`list_lua_recursive` finds them. -/
structure Setup where
  env : Env
  lua : LuaTexts
  lib : Coercions
  program : Program
  opts : CmdTestOptions
  project : ProjectFile
  dir : CStr → Option (List LuaFile)
  secretsFile : SecretsFile
  host : Host
  /-- The text of an error that a call raises in a file, with its place in front. -/
  errorText : CStr → LuaError → List UInt8
  os : CStr
  osVersion : CStr
  internalLogOpens : Bool
  logOpens : Bool
  uiStarts : Bool
  fuel : Nat

/-- How the command ends when it does not run its tests: it returns `EXIT_FAILURE`, or calls
`exit` with it, and has printed these errors, the process stops, a number of a version or a field of the project is
no good, a `NULL` pointer or a stack without a free slot is used, or a loop goes on for ever. -/
inductive Ended where
  | refused (errors : List CStr)
  | exits (errors : List CStr)
  | stopped (stop : Stop)
  | version (fault : VersionFault)
  | crash
  | endless

abbrev Command := Except Ended

/-- The globals that files act on, and what has been printed. -/
structure Loaded where
  runner : Runner
  vars : DaPtr VarEntry := none
  secrets : DaPtr Secret := none
  tests : Tests := {}
  /-- The static `ltf_state` of `ltf_hooks.c` is set. -/
  hooksReady : Bool := false
  out : List CStr := []
  err : List CStr := []

/-- `ltf_hooks_add_to_queue` -/
def ltfHooksAddToQueue (fn : HookFn) (hook : LtfHook) (state : LtfState) : LtfState :=
  match fn with
  | .testRunStarted => { state with hooksTestRunStarted := state.hooksTestRunStarted ++ [hook] }
  | .testStarted => { state with hooksTestStarted := state.hooksTestStarted ++ [hook] }
  | .testFinished => { state with hooksTestFinished := state.hooksTestFinished ++ [hook] }
  | .testRunFinished => { state with hooksTestRunFinished := state.hooksTestRunFinished ++ [hook] }

/-- `register_hook`. Before `ltf_hooks_init` the list is looked up through a `NULL` pointer. -/
def registerHook (fn : HookFn) (hook : Option LtfHook) (s : Loaded) : Command (Option LuaError × Loaded) :=
  match hook with
  | none => .ok (some (.typeError 2 (.lit "function")), s)
  | some hook =>
    if s.hooksReady then .ok (none, { s with runner.state := ltfHooksAddToQueue fn hook s.runner.state })
    else .error .crash

variable (setup : Setup)

/-- The names in the argument of `register_secrets`. Beside it the stack of the call has
`LUA_MINSTACK` slots, which is 20. -/
def secretNames (names : List LuaValue) : LuaRun (List CStr) :=
  (lModuleLtfRegisterSecrets setup.lua names ⟨[.table none []], some (1 + 20)⟩).map Prod.fst

def registerSecrets (arg : Option (List LuaValue)) (s : Loaded) : Command (Option LuaError × Loaded) :=
  match arg with
  | none => .ok (some (.typeError 1 (.lit "table")), s)
  | some names =>
    match secretNames setup names with
    | .ok secrets => .ok (none, { s with secrets := ltfRegisterSecrets secrets s.secrets })
    | .error (.raised message) => .ok (some (.error message), s)
    | .error .overflow => .error .crash
    | .error .endless => .error .endless

def registerVars (arg : Option VarsTable) (s : Loaded) : Command (Option LuaError × Loaded) :=
  match lModuleLtfRegisterVars setup.lua.toLuaChoices setup.fuel arg s.vars with
  | none => .error .endless
  | some (.error err) => .ok (some err, s)
  | some (.ok vars) => .ok (none, { s with vars })

def registerTest (arg : Option TestTable) (s : Loaded) : Command (Option LuaError × Loaded) :=
  match lModuleLtfRegisterTest setup.lua.toLuaChoices setup.opts arg s.tests with
  | (.error err, tests) => .ok (some err, { s with tests })
  | (.ok _, tests) => .ok (none, { s with tests })

/-- A call and the error it raises, if it does. -/
def loadCall (call : LoadCall) (s : Loaded) : Command (Option LuaError × Loaded) :=
  match call with
  | .registerVars arg => registerVars setup arg s
  | .registerSecrets arg => registerSecrets setup arg s
  | .registerTest arg => registerTest setup arg s
  | .registerHook fn hook => registerHook fn hook s
  | .action action =>
    match luaAction setup.env s.runner action with
    | .ok runner => .ok (none, { s with runner })
    | .error stop => .error (.stopped stop)

/-- The calls of a file up to one that fails and is not a protected one. -/
def loadCalls : List (LoadCall × Bool) → Loaded → Command (Option LuaError × Loaded)
  | [], s => .ok (none, s)
  | (call, guarded) :: calls, s => do
    match ← loadCall setup call s with
    | (some err, s) => if guarded then loadCalls calls s else return (some err, s)
    | (none, s) => loadCalls calls s

/-- `luaL_dofile` and the text of the error it leaves, which may be none. -/
def luaLDofile (file : LuaFile) (s : Loaded) : Command (Option (Option CStr) × Loaded) := do
  match ← loadCalls setup file.calls s with
  | (some err, s) => return (some (some (.ofBytes (setup.errorText file.path err))), s)
  | (none, s) =>
    match file.outcome with
    | .returned => return (none, s)
    | .failed value => return (some (value.map .ofBytes), s)

def loadLuaFiles : List LuaFile → Loaded → Command (Int × Loaded)
  | [], s => .ok (0, s)
  | file :: files, s => do
    match ← luaLDofile setup file s with
    | (some err, s) =>
      return (-1, { s with err := s.err ++ [.concat [.lit "Lua error loading ", file.path, .lit ": ", orNull err, .lit "\n"]] })
    | (none, s) => loadLuaFiles files s

def loadLuaDir (path : CStr) (s : Loaded) : Command (Int × Loaded) :=
  match setup.dir path with
  | none => .ok (-1, s)
  | some [] => .ok (-1, s)
  | some files => do
    let (res, s) ← loadLuaFiles setup files s
    return (if res ≠ 0 then -2 else 0, s)

/-- A directory of the project. It may be missing, but its files have to load. -/
def loadProjectDir (path : CStr) (s : Loaded) : Command Loaded := do
  let (res, s) ← loadLuaDir setup path s
  if res = -2 then .error (.refused s.err) else .ok s

/-- `project_parser_parse` -/
def parseProject : Command (CStr × ProjectParsed) :=
  match setup.project with
  | .missing => .error (.refused [.lit "Unable to find project file. Make sure you are in project.\n"])
  | .unreadable err =>
    .error (.refused [.concat [.lit "Unable to get json object from project file: ", err, .lit "\n"]])
  | .tree path file =>
    match projectParserParse setup.lib path file with
    | .error fault => .error (.version (.project fault))
    | .ok none => .error (.refused [projectRefused])
    | .ok (some proj) => .ok (path, proj)

/-- The checks of the target. The result is the directory of its tests, and the one of the
tests that all targets share. -/
def testDirs (path : CStr) (multitarget : Bool) (targets : List CStr) : Command (List CStr) :=
  match setup.opts.target, multitarget with
  | none, true => .error (.refused [.lit "Project is multitarget, but no target specified.\n"])
  | some target, false =>
    .error (.refused [.concat [.lit "Unknown target '", target, .lit "', project is not multitarget.\n"]])
  | some target, true =>
    if targets.any (target = ·) then
      .ok [.concat [path, .lit "/tests/common"], .concat [path, .lit "/tests/", target]]
    else .error (.refused [.concat [.lit "Target '", target, .lit "' was not found.\n"]])
  | none, false => .ok [.concat [path, .lit "/tests"]]

def readProject {α : Type} (result : VersionExec α) : Command α := result.mapError .version

/-- The targets that a given one is searched in. -/
def searchedTargets (proj : ProjectParsed) (multitarget : Bool) : Command (List CStr) :=
  if setup.opts.target.isSome && multitarget then
    (readTargets proj).mapError fun fault => .version (.project fault)
  else .ok []

/-- The project, up to the creation of the Lua state: its name, its path, the directories of
its tests and what is printed about its version. -/
def openProject : Command (CStr × CStr × List CStr × List CStr) := do
  if setup.opts.internalLogging && !setup.internalLogOpens then
    .error (.refused [.lit "Unable to init internal logging.\n"])
  else
    let (path, proj) ← parseProject setup
    let warning ← readProject (ltfTestVersion proj setup.program)
    let multitarget ← readProject (Version.readProject proj.multitarget)
    let targets ← searchedTargets setup proj multitarget
    let dirs ← testDirs setup path multitarget targets
    let name ← readProject (Version.readProject proj.projectName)
    return (name, path, dirs, warning.toList)

/-- The directory of the library, and what is printed about it. -/
def getLtfLibDir : Command (CStr × List CStr) :=
  match setup.opts.customLtfLibPath, setup.host.ltfLibPath.filter (·.bytes ≠ []) with
  | some path, _ => .ok (path, [])
  | none, some path => .ok (path, [.lit "LTF_LIB_PATH is set.\n",
      .concat [.lit "Loading ltf lua library at path '", path, .lit "'\n"]])
  | none, none =>
    if setup.host.ltfDirPath.bytes ≠ [] then .ok (snprintf pathMax [setup.host.ltfDirPath, .lit "/lib"], [])
    else
      match setup.host.home.filter (·.bytes ≠ []) with
      | some home => .ok (snprintf pathMax [home, .lit "/.ltf/lib"], [])
      | none => .error (.exits [.concat [.lit "Unable to load ltf lua library: 'HOME' environment variable is not set.\n",
          .lit "Use --ltf-lib-path path_to_ltf_lib_dir or set 'LTF_LIB_PATH' environment variable.\n"]])

def getHomeDir : Option CStr := (setup.host.home.filter (·.bytes ≠ [])).or setup.host.pwDir

/-- `register_ltf_libs`, as far as it can end the process: modules are looked for in the home directory too. -/
def registerLtfLibs : Command (CStr × List CStr) := do
  let lib ← getLtfLibDir setup
  match getHomeDir setup with
  | none => .error (.exits [.lit "/home not found please set HOME env"])
  | some _ => return lib

/-- `ltf_state_new` and the globals before the first file is loaded. -/
def newLoaded (name : CStr) (out : List CStr) : Loaded where
  runner := { state := ltfStateNew name setup.program.version setup.os setup.osVersion setup.opts.target setup.opts.tags 0 }
  out := out

/-- `ltf_state_register_vars` copies each value, and there has to be one. -/
def copyVar (e : VarEntry) : Command VarEntry :=
  match e.finalValue with
  | none => .error .crash
  | some value => .ok { e with values := some (e.values.getD []), finalValue := some value }

def ltfStateRegisterVars (vars : DaPtr VarEntry) (state : LtfState) : Command LtfState :=
  match vars with
  | none => .ok state
  | some vars => do
    let copies ← vars.mapM copyVar
    return { state with vars := some copies }

/-- The variables that have been registered get their values. -/
def parseVars (s : Loaded) : Command Loaded := do
  let parsed := ltfParseVars setup.opts s.vars
  let s := { s with vars := parsed.vars, out := s.out ++ parsed.warnings, err := s.err ++ parsed.errors }
  if parsed.res ≠ 0 then .error (.refused s.err)
  else
    let state ← ltfStateRegisterVars s.vars s.runner.state
    return { s with runner.state := state }

def parseSecrets (s : Loaded) : Command Loaded :=
  let parsed := ltfParseSecrets setup.secretsFile s.secrets
  let s := { s with secrets := parsed.secrets, out := s.out ++ parsed.warnings, err := s.err ++ parsed.errors }
  if parsed.res ≠ 0 then .error (.refused s.err) else .ok s

/-- `ltf_hooks_init` -/
def ltfHooksInit (s : Loaded) : Loaded := { s with
  runner.state := { s.runner.state with
    hooksTestRunStarted := []
    hooksTestStarted := []
    hooksTestFinished := []
    hooksTestRunFinished := []
    hookStartedCbs := []
    hookFinishedCbs := []
    hookFailedCbs := []
    hookLogCbs := [] }
  hooksReady := true }

/-- The callbacks of `ltf_log_init`, known by this number. -/
def logCallback : Nat := 0

def headlessCallback : Nat := 1

def tuiCallback : Nat := 2

/-- `ltf_log_init` but for the paths of the logs. The process ends when a log cannot be opened. -/
def startLog (s : Loaded) : Command Loaded :=
  let state := s.runner.state
  if setup.logOpens then .ok { s with runner.state := { state with
    testStartedCbs := state.testStartedCbs ++ [logCallback]
    testFinishedCbs := state.testFinishedCbs ++ [logCallback]
    testLogCbs := state.testLogCbs ++ [logCallback]
    testTeardownStartedCbs := state.testTeardownStartedCbs ++ [logCallback]
    testTeardownFinishedCbs := state.testTeardownFinishedCbs ++ [logCallback]
    testDeferFailedCbs := state.testDeferFailedCbs ++ [logCallback]
    testRunFinishedCbs := state.testRunFinishedCbs ++ [logCallback]
    hookLogCbs := state.hookLogCbs ++ [logCallback] } }
  else .error (.exits s.err)

def openLog (s : Loaded) : Command Loaded := if setup.opts.noLogs then .ok s else startLog setup s

/-- What `ltf_tui_init` and `ltf_headless_init` both listen to. -/
def listenAlike (callback : Nat) (state : LtfState) : LtfState := { state with
  testStartedCbs := state.testStartedCbs ++ [callback]
  testFinishedCbs := state.testFinishedCbs ++ [callback]
  testLogCbs := state.testLogCbs ++ [callback]
  testTeardownStartedCbs := state.testTeardownStartedCbs ++ [callback]
  testTeardownFinishedCbs := state.testTeardownFinishedCbs ++ [callback]
  testDeferFailedCbs := state.testDeferFailedCbs ++ [callback]
  testRunFinishedCbs := state.testRunFinishedCbs ++ [callback]
  hookStartedCbs := state.hookStartedCbs ++ [callback]
  hookFinishedCbs := state.hookFinishedCbs ++ [callback]
  hookFailedCbs := state.hookFailedCbs ++ [callback]
  hookLogCbs := state.hookLogCbs ++ [callback] }

def ltfTuiInit (state : LtfState) : LtfState := listenAlike tuiCallback state

def ltfHeadlessInit (state : LtfState) : LtfState :=
  let state := listenAlike headlessCallback state
  { state with testRunStartedCbs := state.testRunStartedCbs ++ [headlessCallback] }

/-- The user interface. It may not come up, and then nothing is run. -/
def startUi (s : Loaded) : Command Loaded :=
  if setup.opts.headless then .ok { s with runner.state := ltfHeadlessInit s.runner.state }
  else if setup.uiStarts then .ok { s with runner.state := ltfTuiInit s.runner.state }
  else .error (.refused s.err)

/-- The handler of `SIGINT` is only installed with the user interface. -/
def runEnv : Env := if setup.opts.headless then { setup.env with sigint := fun _ => false } else setup.env

/-- Everything that is loaded, in this order. Hooks can be registered from the last directory on. -/
def loadProject (path : CStr) (dirs : List CStr) (s : Loaded) : Command Loaded := do
  let s ← loadProjectDir setup (.concat [path, .lit "/lib"]) s
  let s ← parseVars setup s
  let s ← parseSecrets setup s
  let s ← dirs.foldlM (fun s dir => loadProjectDir setup dir s) s
  let s := ltfHooksInit s
  if setup.opts.skipHooks then .ok s else loadProjectDir setup (.concat [path, .lit "/hooks"]) s

/-- The tests in the order of the scenario, if there are any. -/
def orderTests (s : Loaded) : Command Loaded :=
  let s := { s with tests := testCaseOrderTests setup.opts s.tests }
  let amount := (s.tests.tests.getD []).length
  if amount = 0 then .error (.refused (s.err ++ [.lit "No tests to execute.\n"]))
  else .ok { s with runner.state := { s.runner.state with totalAmount := amount } }

/-- The exit code that is kept for the end of the clean-up, and the state when it is known. -/
def ltfTest : Command (Nat × Runner) := do
  let (name, path, dirs, out) ← openProject setup
  let (_, note) ← registerLtfLibs setup
  let s ← loadProject setup path dirs (newLoaded setup name (out ++ note))
  let s ← openLog setup s
  let s ← orderTests setup s
  let s ← startUi setup s
  (runAllTests (runEnv setup) ((s.tests.tests.getD []).map (·.testCase)) s.runner).mapError .stopped

end Ltf.LtfTest
