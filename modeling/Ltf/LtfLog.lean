import Ltf.LuaHooks
import Ltf.State

/-! `print` and `log` of `modules/ltf/ltf.c`, which hand one message to `ltf_state_log`. -/

namespace Ltf.LtfLog
open CString

/-- What is left open about values: how a float is written, which objects are tables, and the
text of an object, which comes from a function that may raise an error. -/
structure ValueTexts where
  numberText : UInt64 → List UInt8
  isTable : Nat → Bool
  objectText : Nat → Except (Option (List UInt8)) (List UInt8)

variable (lua : ValueTexts)

def luaIstable : LuaValue → Bool
  | .object reference => lua.isTable reference
  | _ => false

def luaLTolstring : LuaValue → Except (Option (List UInt8)) (List UInt8)
  | .nil => .ok (CStr.lit "nil").bytes
  | .boolean true => .ok (CStr.lit "true").bytes
  | .boolean false => .ok (CStr.lit "false").bytes
  | .integer value => .ok (CStr.lit (toString value)).bytes
  | .number bits => .ok (lua.numberText bits)
  | .string bytes => .ok bytes
  | .object reference => lua.objectText reference

/-- Where the arguments begin: 1 for a call with a dot, 2 for one with a colon. -/
def selfshift (args : List LuaValue) : Nat := if (args.head?.map (luaIstable lua)).getD false then 2 else 1

/-- A level of the call stack, as `lua_getinfo` tells about it. -/
structure CallLevel where
  source : CStr
  currentline : Int

/-- The caller of the caller, else the caller, if there is a line. Level 0 is the function in C. -/
def callerPlace (levels : List CallLevel) : CStr × Int :=
  match (levels[2]?.filter (·.currentline > 0)).or (levels[1]?.filter (·.currentline > 0)) with
  | some ar => (LuaHooks.hookSource ar.source, ar.currentline)
  | none => (.lit "(?)", 0)

/-- The texts of all arguments, with a tab behind each but the last one. -/
def messageOf : List LuaValue → Except (Option (List UInt8)) (List UInt8)
  | [] => return []
  | [arg] => luaLTolstring lua arg
  | arg :: next :: rest => do
    let text ← luaLTolstring lua arg
    let more ← messageOf (next :: rest)
    return text ++ 9 :: more

/-- `log_helper` on the arguments from `s` to `n`. A call in C ends by a return or an error. -/
def logHelper (env : Env) (levels : List CallLevel) (level : LogLevel) (args : List LuaValue) (r : Runner) :
    Process (LuaOutcome × Runner) :=
  match messageOf lua args with
  | .error value => return (.failed value, r)
  | .ok msg => do
    let (file, line) := callerPlace levels
    let r ← ltfStateLog env { level, file := some file, line, msg } r
    return (if level = .critical then .failed (some (CStr.ofBytes msg).bytes) else .returned, r)

/-- `luaL_checkstring` -/
def checkLevelName : Option LuaValue → Option CStr
  | some (.string bytes) => some (.ofBytes bytes)
  | some (.integer value) => some (.lit (toString value))
  | some (.number bits) => some (.ofBytes (lua.numberText bits))
  | _ => none

def lModuleLtfLog (env : Env) (levels : List CallLevel) (args : List LuaValue) (r : Runner) :
    Process (LuaOutcome × Runner) :=
  let s := selfshift lua args
  match checkLevelName lua args[s - 1]? with
  | none => return (.failed (some (CStr.lit "string expected").bytes), r)
  | some name =>
    match ltfLogLevelFromStr name with
    | none => return (.failed (some (CStr.concat [.lit "Unknown log level '", name, .lit "'"]).bytes), r)
    | some level => logHelper lua env levels level (args.drop s) r

/-- `M.log` of the library `ltf`: `tm:log(log_level, ...)`, with the table of `ltf-main` for `tm`. -/
def log (tm : LuaValue) (env : Env) (levels : List CallLevel) (logLevel : LuaValue) (args : List LuaValue) (r : Runner) :
    Process (LuaOutcome × Runner) :=
  lModuleLtfLog lua env levels (tm :: logLevel :: args) r

/-- The global `print` of a test. -/
def lModuleLtfPrint (env : Env) (levels : List CallLevel) (args : List LuaValue) (r : Runner) :
    Process (LuaOutcome × Runner) :=
  let s := selfshift lua args
  logHelper lua env levels .info (args.drop (s - 1)) r

end Ltf.LtfLog
