import Ltf.Base.Assoc
import Ltf.Base.Binary64
import Ltf.Base.Steps
import Ltf.LuaArgs

/-! The stack of a C function that Lua calls, with the tables on it spelled out. The entries
of a table are in the order in which `lua_next` visits them, which Lua leaves open. -/

namespace Ltf
open CString

/-- A table has at hand what `lua_getfield` finds under `__json_type` if it has a metatable. -/
inductive LuaData where
  | value (value : LuaValue)
  | table (jsonType : Option LuaValue) (entries : List (LuaValue × LuaData))

abbrev LuaEntries := List (LuaValue × LuaData)

namespace LuaData

def isString : LuaData → Bool
  | .value (.string _) => true
  | _ => false

end LuaData

/-- Why a function does not return. The limit is the one of the C API on the slots in use. -/
inductive LuaStop where
  | raised (message : CStr)
  | overflow
  | endless
deriving DecidableEq

abbrev LuaRun := Except LuaStop

/-- What is left open about texts: how a string is read as an integer, and how
`luaL_tolstring` writes what is no string, number or boolean. -/
structure LuaTexts extends LuaChoices where
  stringInteger : List UInt8 → Option Int
  objectText : LuaData → List UInt8

def LuaTexts.first : LuaTexts where
  toLuaChoices := .first
  stringInteger := fun _ => none
  objectText := fun _ => []

/-- The slots from the top down, and how many the function may use. -/
structure LuaStack where
  slots : List LuaData
  limit : Option Nat

/-- What `lua_next` has still to visit after a key, if the table has it. -/
def after (key : LuaValue) : LuaEntries → Option LuaEntries
  | [] => none
  | (other, _) :: rest => if key = other then some rest else after key rest

def remaining (key : LuaValue) (entries : LuaEntries) : Option LuaEntries :=
  if key = .nil then some entries else after key entries

namespace LuaStack

/-- `lua_gettop` -/
def top (L : LuaStack) : Nat := L.slots.length

def slot (L : LuaStack) (index : Nat) : Option LuaData := L.slots.reverse[index - 1]?

/-- The slot at `-2`. -/
def second (L : LuaStack) : LuaData := L.slots.getD 1 (.value .nil)

def push (L : LuaStack) (data : LuaData) : LuaRun LuaStack :=
  match L.limit with
  | none => .ok { L with slots := data :: L.slots }
  | some limit => if L.top < limit then .ok { L with slots := data :: L.slots } else .error .overflow

def pop (L : LuaStack) (count : Nat) : LuaStack := { L with slots := L.slots.drop count }

/-- `lua_next`. A table in the place of the key is taken to be none of the keys. -/
def next (L : LuaStack) (index : Nat) : LuaRun (Bool × LuaStack) :=
  match L.slot index, L.slots with
  | some (.table _ entries), .value key :: below =>
    match remaining key entries with
    | none => .error (.raised (.lit "invalid key to 'next'"))
    | some [] => .ok (false, { L with slots := below })
    | some ((key, data) :: _) => do
      let L ← push { L with slots := .value key :: below } data
      return (true, L)
  | _, _ => .error (.raised (.lit "invalid key to 'next'"))

/-- The value on top goes into the table below it, where `nil` is no entry. -/
def set (L : LuaStack) (key : LuaValue) : LuaStack :=
  match L.slots with
  | .value .nil :: .table jsonType entries :: below =>
    { L with slots := .table jsonType (entries.filter (·.1 ≠ key)) :: below }
  | data :: .table jsonType entries :: below =>
    { L with slots := .table jsonType (Assoc.put entries (key, data)) :: below }
  | _ => L

end LuaStack

namespace LuaTexts
variable (lua : LuaTexts)

/-- `lua_tostring` on the slot at `-2`, where a number becomes its text. -/
def tostring (L : LuaStack) : Option (List UInt8) × LuaStack :=
  match L.slots with
  | data :: .value key :: below =>
    match key, lua.toString key with
    | .integer _, some text | .number _, some text =>
      (some text, { L with slots := data :: .value (.string text) :: below })
    | _, text => (text, L)
  | _ => (none, L)

/-- The text `luaL_tolstring` pushes for a slot on which `lua_tostring` gives `NULL`. -/
def tolstring : LuaData → List UInt8
  | .value .nil => (CStr.lit "nil").bytes
  | .value (.boolean value) => (CStr.lit (if value then "true" else "false")).bytes
  | data => lua.objectText data

/-- `lua_tointeger`, which gives `0` on what is no integer. -/
def tointeger : LuaData → Int
  | .value (.integer value) => value
  | .value (.number bits) => (Binary64.toInt64 bits).getD 0
  | .value (.string bytes) => (lua.stringInteger bytes).getD 0
  | _ => 0

end LuaTexts

/-- `while (lua_next(L, index))` -/
def whileNext {σ : Type} (index : Nat) (body : σ → LuaStack → LuaRun (σ × LuaStack)) :
    Nat → σ → LuaStack → LuaRun (σ × LuaStack)
  | 0, _, _ => .error .endless
  | fuel + 1, state, L => do
    let (more, L) ← L.next index
    if more then
      let (state, L) ← body state L
      whileNext index body fuel state L
    else
      return (state, L)

end Ltf
