import Ltf.Base.Json
import Ltf.LuaStack

/-! `util/lua.c`: tables to JSON and back, on the stack of the caller. -/

namespace Ltf
open CString JsonC

/-- One turn of the loop of `lua_table_is_array`, with `max` and `array_like`. -/
def isArrayStep (state : Int × Bool) (L : LuaStack) : LuaRun ((Int × Bool) × LuaStack) :=
  match L.second with
  | .value (.integer k) => .ok ((if k > state.1 then k else state.1, state.2), L.pop 1)
  | _ => .ok ((state.1, false), L.pop 1)

def luaTableIsArray (fuel index : Nat) (L : LuaStack) : LuaRun (Bool × LuaStack) := do
  let L ← L.push (.value .nil)
  let ((max, arrayLike), L) ← whileNext index isArrayStep fuel (0, true) L
  return (arrayLike && decide (max > 0), L)

/-- `strcmp(s, "array") == 0` on a string. -/
def isArrayName : LuaValue → Bool
  | .string bytes => CStr.ofBytes bytes = .lit "array"
  | _ => false

def luaTableForcedArray (index : Nat) (L : LuaStack) : LuaRun (Bool × LuaStack) :=
  match L.slot index with
  | some (.table (some jsonType) _) => do
    let L ← L.push (.table none [(.string (CStr.lit "__json_type").bytes, .value jsonType)])
    let L ← L.push (.value jsonType)
    return (isArrayName jsonType, L.pop 2)
  | _ => return (false, L)

/-- `forced_array || lua_table_is_array(L, index, &max)` -/
def isArrayTable (fuel index : Nat) (L : LuaStack) : LuaRun (Bool × LuaStack) := do
  let (forcedArray, L) ← luaTableForcedArray index L
  if forcedArray then return (true, L) else luaTableIsArray fuel index L

/-- The cases of `lua_to_json` that are no table. -/
def scalarToJson : LuaValue → Json
  | .nil => .null
  | .boolean value => .boolean value
  | .integer vi => .int vi
  | .number vd => .double vd
  | .string bytes => newString (.ofBytes bytes)
  | .object _ => .null

variable (lua : LuaTexts)

/-- The text of the key below the value: its own, or one that is pushed. -/
def keyString (L : LuaStack) : LuaRun (List UInt8 × LuaStack) :=
  match lua.tostring L with
  | (some kstr, L) => .ok (kstr, L)
  | (none, L) => do
    let kstr := lua.tolstring L.second
    let L ← L.push (.value (.string kstr))
    return (kstr, L)

/-- What follows the conversion of a value, with the key below it on the stack. -/
def addEntry (isArray : Bool) (j child : Json) (L : LuaStack) : LuaRun (Json × LuaStack) := do
  if isArray then
    return (arrayPutIdx j (toInt32 (lua.tointeger L.second - 1)) child, L.pop 1)
  else
    let (kstr, L) ← keyString lua L
    let j := objectAdd j (.ofBytes kstr) child
    -- the slot looked at is the value, not the key, once a text has been pushed
    let L := if L.second.isString then L else L.pop 1
    return (j, L.pop 1)

def luaToJson : Nat → Nat → LuaStack → LuaRun (Json × LuaStack)
  | 0, _, _ => .error .endless
  | fuel + 1, index, L =>
    match L.slot index with
    | some (.table ..) => do
      let (isArray, L) ← isArrayTable fuel index L
      let L ← L.push (.value .nil)
      whileNext index (fun j L => do
        let (child, L) ← luaToJson fuel L.top L
        addEntry lua isArray j child L) fuel (if isArray then .array [] else .object []) L
    | some (.value value) => return (scalarToJson value, L)
    | none => return (.null, L)

/-- `json_object_get_int64` -/
def getInt64 (value : Int) : Int := max (-9223372036854775808) (min 9223372036854775807 value)

mutual
def jsonToLua : Json → LuaStack → LuaRun LuaStack
  | .null, L => L.push (.value .nil)
  | .boolean value, L => L.push (.value (.boolean value))
  | .double bits, L => L.push (.value (.number bits))
  | .int value, L => L.push (.value (.number (Binary64.ofInt (getInt64 value))))
  | .string bytes, L => L.push (.value (.string (CStr.ofBytes bytes).bytes))
  | .array items, L => do
    let L ← L.push (.table none [])
    itemsToLua 0 items L
  | .object fields, L => do
    let L ← L.push (.table none [])
    fieldsToLua fields L

def itemsToLua : Nat → List Json → LuaStack → LuaRun LuaStack
  | _, [], L => return L
  | i, child :: items, L => do
    let L ← jsonToLua child L
    itemsToLua (i + 1) items (L.set (.integer (i + 1)))

def fieldsToLua : List (CStr × Json) → LuaStack → LuaRun LuaStack
  | [], L => return L
  | (key, val) :: fields, L => do
    let L ← jsonToLua val L
    fieldsToLua fields (L.set (.string key.bytes))
end

/-- One turn of the loop of `l_module_ltf_register_secrets`. The name stays on the stack. -/
def registerSecret (state : List CStr × LuaStack) (name : LuaValue) : LuaRun (List CStr × LuaStack) := do
  let L ← state.2.push (.value name)
  match lua.toString name with
  | none => throw (.raised (.lit "Secret name must be string."))
  | some secretName => return (state.1 ++ [.ofBytes secretName], L)

/-- What `l_module_ltf_register_secrets` makes of the values at `1, 2, ...` of its argument. -/
def lModuleLtfRegisterSecrets (names : List LuaValue) (L : LuaStack) : LuaRun (List CStr × LuaStack) :=
  ((List.range (lua.length.length names)).map fun i => names.getD i .nil).foldlM (registerSecret lua) ([], L)

end Ltf
