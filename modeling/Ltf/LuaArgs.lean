import Ltf.Base.Ledger
import Ltf.Lua

/-! What functions of `modules/ltf/ltf.c` read of their arguments, and the errors they raise. -/

namespace Ltf
open CString Ledger

/-- What is left open about values: the length of a table with holes, and how a float is
written. -/
structure LuaChoices where
  length : LuaLength
  numberText : UInt64 → List UInt8

/-- `lua_tostring`, which converts numbers and gives `NULL` on other values. -/
def LuaChoices.toString (lua : LuaChoices) : LuaValue → Option (List UInt8)
  | .string bytes => some bytes
  | .integer value => some (CStr.lit (ToString.toString value)).bytes
  | .number bits => some (lua.numberText bits)
  | _ => none

def LuaChoices.first : LuaChoices where
  length := .first
  numberText := fun _ => []

/-- An error raised by a check of an argument, with the type or the text it names, or with
a message of its own. -/
inductive LuaError where
  | typeError (arg : Int) (expected : CStr)
  | argError (arg : Int) (extramsg : CStr)
  | error (message : CStr)

/-- A field that may hold an array. -/
inductive ArrayField where
  | nil
  | table (items : List LuaValue)
  | other

variable (lua : LuaChoices)

def luaLCheckstring (arg : Int) (value : LuaValue) : Acquiring LuaError CStr :=
  match lua.toString value with
  | none => throw (.typeError arg (.lit "string"))
  | some bytes => return .ofBytes bytes

def readStringArray (items : List LuaValue) : Acquiring LuaError (Owned (List (Owned CStr))) := do
  let out ← acquire ()
  let strings ← (List.range (lua.length.length items)).mapM fun i => do
    let s ← luaLCheckstring lua (-1) (items.getD i .nil)
    acquire s
  return { value := strings, serial := out.serial }

end Ltf
