import Ltf.Base.CString
import Ltf.LogLevel
import Mathlib.Data.List.GetD

/-! What the test runner sees of Lua. A function call is the sequence of things it
asks of LTF (logs and defers) and how it ends; it may depend on its arguments.
Every choice Lua leaves open is a parameter of the environment. -/

namespace Ltf
open CString

inductive LuaValue where
  | nil
  | boolean (value : Bool)
  | integer (value : Int)
  | number (bits : UInt64)
  | string (bytes : List UInt8)
  | object (reference : Nat)
deriving DecidableEq

/-- How a protected call ends. An error value has no text when `lua_tostring` gives `NULL`. -/
inductive LuaOutcome where
  | returned
  | failed (value : Option (List UInt8))
deriving DecidableEq

structure LogCall where
  level : LogLevel
  file : Option CStr
  line : Int
  msg : List UInt8
deriving DecidableEq

mutual
/-- A call into LTF made by running Lua code. -/
inductive LuaAction where
  | log (call : LogCall)
  | defer (fn : List LuaValue → LuaCode) (args : List LuaValue)

inductive LuaCode where
  | mk (actions : List LuaAction) (outcome : LuaOutcome)
end

def logCalls (actions : List LuaAction) : List LogCall :=
  actions.filterMap fun | .log call => some call | .defer _ _ => none

def registrations (actions : List LuaAction) : List ((List LuaValue → LuaCode) × List LuaValue) :=
  actions.filterMap fun | .log _ => none | .defer fn args => some (fn, args)

@[simp] theorem registrations_nil : registrations [] = [] := rfl

@[simp] theorem logCalls_log (call : LogCall) (rest : List LuaAction) :
    logCalls (.log call :: rest) = call :: logCalls rest := rfl

@[simp] theorem logCalls_defer (fn : List LuaValue → LuaCode) (args : List LuaValue) (rest : List LuaAction) :
    logCalls (.defer fn args :: rest) = logCalls rest := rfl

@[simp] theorem registrations_log (call : LogCall) (rest : List LuaAction) :
    registrations (.log call :: rest) = registrations rest := rfl

@[simp] theorem registrations_defer (fn : List LuaValue → LuaCode) (args : List LuaValue) (rest : List LuaAction) :
    registrations (.defer fn args :: rest) = (fn, args) :: registrations rest := rfl

namespace LuaCode

def actions : LuaCode → List LuaAction
  | .mk actions _ => actions

def outcome : LuaCode → LuaOutcome
  | .mk _ outcome => outcome

def logs (code : LuaCode) : List LogCall := logCalls code.actions

def defers (code : LuaCode) : List ((List LuaValue → LuaCode) × List LuaValue) := registrations code.actions

def logsError (code : LuaCode) : Bool := code.logs.any (·.level == .error)

def fails (code : LuaCode) : Bool :=
  match code.outcome with
  | .returned => false
  | .failed _ => true

theorem fails_returned {code : LuaCode} (outcome : code.outcome = .returned) : code.fails = false := by
  rw [fails, outcome]

theorem fails_failed {code : LuaCode} {value : Option (List UInt8)} (outcome : code.outcome = .failed value) :
    code.fails = true := by
  rw [fails, outcome]

theorem fails_false {code : LuaCode} (kept : code.fails = false) : code.outcome = .returned := by
  cases outcome : code.outcome with
  | returned => rfl
  | failed value => simp [fails_failed outcome] at kept

end LuaCode

/-- A border of a table with the given values at `1, 2, ...`: what the length
operator of Lua returns, any one of them when there are holes. -/
def IsBorder (table : List LuaValue) (border : Nat) : Prop :=
  (border = 0 ∨ table.getD (border - 1) .nil ≠ .nil) ∧ table.getD border .nil = .nil

/-- `luaL_len` on tables. -/
structure LuaLength where
  length : List LuaValue → Nat
  border : ∀ table, IsBorder table (length table)

theorem IsBorder.unique {table : List LuaValue} {border : Nat} (is : IsBorder table border)
    (full : LuaValue.nil ∉ table) : border = table.length := by
  obtain ⟨last, beyond⟩ := is
  have upper : border ≤ table.length := by
    rcases last with rfl | last
    · exact Nat.zero_le _
    · by_contra long
      rw [List.getD_eq_default _ _ (by omega)] at last
      exact last rfl
  by_contra short
  have inside : border < table.length := by omega
  rw [List.getD_eq_getElem _ _ inside] at beyond
  exact full (beyond ▸ List.getElem_mem inside)

def firstBorder (table : List LuaValue) : Nat := (table.takeWhile (· ≠ .nil)).length

theorem firstBorder_isBorder (table : List LuaValue) : IsBorder table (firstBorder table) := by
  induction table with
  | nil => exact ⟨.inl rfl, rfl⟩
  | cons value table ih =>
    by_cases hole : value = .nil
    · subst hole; exact ⟨.inl rfl, rfl⟩
    · have longer : firstBorder (value :: table) = firstBorder table + 1 := by simp [firstBorder, hole]
      rw [longer]
      refine ⟨.inr ?_, by simpa using ih.2⟩
      rcases ih.1 with empty | last
      · simpa [empty] using hole
      · cases border : firstBorder table with
        | zero => simpa using hole
        | succ border => simpa [border] using last

theorem firstBorder_lt {table : List LuaValue} (hole : .nil ∈ table) : firstBorder table < table.length := by
  by_contra whole
  have all := (List.takeWhile_prefix (· ≠ LuaValue.nil)).eq_of_length_le (Nat.le_of_not_lt whole)
  rw [List.takeWhile_eq_self_iff] at all
  simpa using all .nil hole

def LuaLength.first : LuaLength := ⟨firstBorder, firstBorder_isBorder⟩

end Ltf
