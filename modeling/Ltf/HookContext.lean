import Ltf.LuaStack
import Ltf.State
import Ltf.TestLogs

/-! `hooks_context_push` of `ltf_hooks.c`: the table every hook is called with, built from the
state of the run, the variables and secrets, and the names of the log files. -/

namespace Ltf.HookContext
open CString

/-- `ltf_get_vars`, `ltf_get_secrets` and the names of `test_logs.c`, which are `NULL`
when nothing is logged to files. -/
structure Globals where
  vars : List VarEntry := []
  secrets : List (CStr × CStr) := []
  logs : Option LogPaths := none

def newTable (L : LuaStack) : LuaRun LuaStack := L.push (.table none [])

/-- What is pushed is set in the table below: `lua_setfield(L, -2, key)`. -/
def pushField (key : CStr) (push : LuaStack → LuaRun LuaStack) (L : LuaStack) : LuaRun LuaStack := do
  let L ← push L
  return L.set (.string key.bytes)

/-- `lua_pushstring`, which pushes `nil` for `NULL`. -/
def luaPushString (value : Option CStr) (L : LuaStack) : LuaRun LuaStack :=
  L.push (.value ((value.map fun text => LuaValue.string text.bytes).getD .nil))

def pushString (key : CStr) (value : Option CStr) (L : LuaStack) : LuaRun LuaStack :=
  match value with
  | none => return L
  | some value => pushField key (luaPushString (some value)) L

def pushInteger (key : CStr) (value : Int) : LuaStack → LuaRun LuaStack := pushField key (·.push (.value (.integer value)))

/-- A loop that pushes each item and sets it at `i + 1` in the table below. -/
def pushItems {α : Type} (pushItem : α → LuaStack → LuaRun LuaStack) : Nat → List α → LuaStack → LuaRun LuaStack
  | _, [], L => return L
  | i, item :: items, L => do
    let L ← pushItem item L
    pushItems pushItem (i + 1) items (L.set (.integer (i + 1)))

/-- A new table that such a loop fills. -/
def pushList {α : Type} (pushItem : α → LuaStack → LuaRun LuaStack) (items : List α) (L : LuaStack) : LuaRun LuaStack := do
  let L ← newTable L
  pushItems pushItem 0 items L

def pushOutput (o : TestOutput) (L : LuaStack) : LuaRun LuaStack := do
  let L ← newTable L
  let L ← pushString (.lit "msg") o.msg L
  let L ← pushString (.lit "level") (ltfLogLevelToStr o.level) L
  let L ← pushString (.lit "date_time") o.dateTime L
  let L ← pushString (.lit "file") o.file L
  pushInteger (.lit "line") o.line L

mutual
def pushKeyword : KeywordStatus → LuaStack → LuaRun LuaStack
  | .mk children name started finished _ file line, L => do
    let L ← newTable L
    let L ← pushString (.lit "name") name L
    let L ← pushString (.lit "started") started L
    let L ← pushString (.lit "finished") finished L
    let L ← pushString (.lit "file") file L
    let L ← pushInteger (.lit "line") line L
    pushField (.lit "children") (fun L => do
      let L ← newTable L
      match children with
      | none => return L
      | some children => pushChildren 0 children L) L

def pushChildren : Nat → List KeywordStatus → LuaStack → LuaRun LuaStack
  | _, [], L => return L
  | i, child :: children, L => do
    let L ← pushKeyword child L
    pushChildren (i + 1) children (L.set (.integer (i + 1)))
end

/-- The children of a keyword are pushed like any list. -/
theorem pushChildren_eq (i : Nat) (children : List KeywordStatus) (L : LuaStack) :
    pushChildren i children L = pushItems pushKeyword i children L := by
  induction children generalizing i L with
  | nil => rw [pushChildren, pushItems]
  | cons child children ih =>
    rw [pushChildren, pushItems]
    exact congrArg _ (funext fun L => ih (i + 1) _)

/-- The loop over the variables or the secrets. -/
def pushStrings : List (CStr × Option CStr) → LuaStack → LuaRun LuaStack
  | [], L => return L
  | (key, value) :: pairs, L => do
    let L ← pushString key value L
    pushStrings pairs L

def pushPairs (pairs : List (CStr × Option CStr)) (L : LuaStack) : LuaRun LuaStack := do
  let L ← newTable L
  pushStrings pairs L

def pushTestRun (globals : Globals) (state : LtfState) (L : LuaStack) : LuaRun LuaStack := do
  let L ← newTable L
  let L ← pushString (.lit "project_name") state.projectName L
  let L ← pushString (.lit "ltf_version") state.ltfVersion L
  let L ← pushString (.lit "os") state.os L
  let L ← pushString (.lit "os_version") state.osVersion L
  let L ← pushString (.lit "target") state.target L
  let L ← pushString (.lit "started") state.started L
  let L ← pushString (.lit "finished") state.finished L
  let L ← pushField (.lit "tags") (pushList luaPushString (state.tags.getD [])) L
  let L ← pushField (.lit "vars") (pushPairs (globals.vars.map fun var => (var.name, var.finalValue))) L
  pushField (.lit "secrets") (pushPairs (globals.secrets.map fun secret => (secret.1, some secret.2))) L

def pushTest (t : StateTest) (L : LuaStack) : LuaRun LuaStack := do
  let L ← newTable L
  let L ← pushString (.lit "name") t.name L
  let L ← pushString (.lit "started") t.started L
  let L ← pushString (.lit "description") t.description L
  let L ← pushString (.lit "finished") t.finished L
  let L ← pushString (.lit "status") t.statusStr L
  let L ← pushString (.lit "teardown_start") t.teardownStart L
  let L ← pushString (.lit "teardown_end") t.teardownEnd L
  let L ← pushField (.lit "tags") (pushList luaPushString (t.tags.getD [])) L
  let L ← pushField (.lit "outputs") (pushList pushOutput (t.outputs.getD [])) L
  let L ← pushField (.lit "failure_reasons") (pushList pushOutput (t.failureReasons.getD [])) L
  let L ← pushField (.lit "teardown_outputs") (pushList pushOutput (t.teardownOutputs.getD [])) L
  let L ← pushField (.lit "teardown_errors") (pushList pushOutput (t.teardownErrors.getD [])) L
  pushField (.lit "keywords") (pushList pushKeyword (t.keywordStatuses.getD [])) L

def pushLogs (logs : Option LogPaths) (L : LuaStack) : LuaRun LuaStack := do
  let L ← newTable L
  let L ← pushString (.lit "dir") (logs.map (·.logsDir)) L
  let L ← pushString (.lit "raw_log") (logs.map (·.rawLogFilePath)) L
  pushString (.lit "output_log") (logs.map (·.outputLogFilePath)) L

def hooksContextPush (globals : Globals) (state : LtfState) (L : LuaStack) : LuaRun LuaStack := do
  let L ← newTable L
  let L ← pushField (.lit "test_run") (pushTestRun globals state) L
  let L ← match (state.tests.getD []).getLast? with
    | none => pure L
    | some t => pushField (.lit "test") (pushTest t) L
  pushField (.lit "logs") (pushLogs globals.logs) L

end Ltf.HookContext
