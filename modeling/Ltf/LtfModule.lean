import Ltf.State

/-! The part of `modules/ltf/ltf.c` that Lua code reaches while it runs: its logs end
in `ltf_state_log`, its defers in the defer list of the Lua registry. -/

namespace Ltf

/-- The defer list has no holes, so its length is the number of its entries. -/
def lModuleLtfDefer (fn : List LuaValue → LuaCode) (args : List LuaValue) (r : Runner) : Runner :=
  let list := r.deferList.getD []
  let entry : DeferEntry := { id := r.nextDefer, fn, args }
  let r := { r with deferList := some (list ++ [entry]), nextDefer := r.nextDefer + 1 }
  r.emit [.deferRegistered entry]

def luaAction (env : Env) (r : Runner) : LuaAction → Process Runner
  | .log call => ltfStateLog env call r
  | .defer fn args => return lModuleLtfDefer fn args r

/-- The effects of a `lua_pcall`. Its result is the outcome of the code. -/
def runLua (env : Env) (code : LuaCode) (r : Runner) : Process Runner := code.actions.foldlM (luaAction env) r

end Ltf
