import Ltf.Secrets
import Ltf.Vars

/-! What `modules/ltf/ltf.c` gives to Lua code of the variables and secrets that are registered. -/

namespace Ltf.VarAccess
open CString Secrets

/-- `lua_pushstring`, which pushes `nil` for a `NULL` pointer -/
def luaPushstring (text : Option CStr) : LuaValue :=
  match text with
  | some text => .string text.bytes
  | none => .nil

/-- `lua_setfield` on a new table, where `nil` takes a field away. -/
def luaSetfield (table : List (CStr × LuaValue)) (key : CStr) (value : LuaValue) : List (CStr × LuaValue) :=
  if value = .nil then table.filter (·.1 ≠ key) else Assoc.put table (key, value)

/-- `luaL_checkstring` on the argument behind the module. -/
def checkName (lua : LuaChoices) (arg : LuaValue) : Except LuaError CStr :=
  match lua.toString arg with
  | none => .error (.typeError 2 (.lit "string"))
  | some bytes => .ok (.ofBytes bytes)

def findVar (name : CStr) (vars : DaPtr VarEntry) : Option VarEntry := (vars.getD []).find? (name = ·.name)

def lModuleLtfGetVar (lua : LuaChoices) (vars : DaPtr VarEntry) (arg : LuaValue) : Except LuaError LuaValue := do
  let varName ← checkName lua arg
  match findVar varName vars with
  | none => throw (.error (.concat [.lit "No variable '", varName, .lit "'"]))
  | some e => return luaPushstring e.finalValue

/-- Without a value the text is empty. -/
def lModuleLtfGetVars (vars : DaPtr VarEntry) : List (CStr × LuaValue) :=
  (vars.getD []).foldl (fun table e => luaSetfield table e.name (.string ((e.finalValue.map (·.bytes)).getD []))) []

def lModuleLtfGetSecret (lua : LuaChoices) (secrets : DaPtr Secret) (arg : LuaValue) : Except LuaError LuaValue := do
  let secretName ← checkName lua arg
  match (secrets.getD []).find? (secretName = ·.1) with
  | none => throw (.error (.concat [.lit "Unable to find secret '", secretName, .lit "'"]))
  | some secret => return luaPushstring secret.2

def lModuleLtfGetSecrets (secrets : DaPtr Secret) : List (CStr × LuaValue) :=
  (secrets.getD []).foldl (fun table secret => luaSetfield table secret.1 (luaPushstring secret.2)) []

end Ltf.VarAccess
