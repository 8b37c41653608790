import Ltf.Proc

/-! `M.spawn` and `M.run` of `lib/ltf/proc.lua` and `M.spawn_webdriver` of
`lib/ltf/webdriver.lua`, over the tables that Lua code hands from call to call. -/

namespace Ltf.ProcLua
open CString

abbrev LuaString := List UInt8

/-- `run_opts`. A table in a field is a reference. -/
structure RunOpts where
  exe : LuaString
  args : Option Nat

/-- `wd_spawn_opts` -/
structure WdSpawnOpts where
  webdriver : Option LuaString
  port : Option Int
  extraflags : Option Nat

/-- All tables there are, by their references. -/
structure Tables where
  lists : List (List LuaString)
  runOpts : List RunOpts
  wdSpawnOpts : List WdSpawnOpts

/-- With the argument vectors that `proc:spawn` has got so far. -/
structure Lua where
  tables : Tables
  world : Proc.World := {}
  spawned : List (List CStr) := []

def Lua.list (lua : Lua) (ref : Nat) : List LuaString := lua.tables.lists.getD ref []

def Lua.setList (lua : Lua) (ref : Nat) (items : List LuaString) : Lua :=
  { lua with tables := { lua.tables with lists := lua.tables.lists.set ref items } }

/-- `field or {}` -/
def orNew (field : Option Nat) (lua : Lua) : Nat × Lua :=
  match field with
  | some ref => (ref, lua)
  | none => (lua.tables.lists.length, { lua with tables := { lua.tables with lists := lua.tables.lists ++ [[]] } })

/-- `table.insert(list, 1, item)` -/
def insertFirst (ref : Nat) (item : LuaString) (lua : Lua) : Lua := lua.setList ref (item :: lua.list ref)

/-- `table.insert(list, item)` -/
def insertLast (ref : Nat) (item : LuaString) (lua : Lua) : Lua := lua.setList ref (lua.list ref ++ [item])

/-- `proc:spawn(argv)`, which takes a C string of each argument. -/
def lowSpawn (choice : Proc.SpawnChoice) (argv : Nat) (lua : Lua) : Lua × Proc.Reply :=
  let argv := (lua.list argv).map CStr.ofBytes
  let (world, reply) := Proc.lModuleProcSpawn argv choice lua.world
  ({ lua with world, spawned := lua.spawned ++ [argv] }, reply)

def spawn (choice : Proc.SpawnChoice) (opts : RunOpts) (lua : Lua) : Lua × Proc.Reply :=
  let (argv, lua) := orNew opts.args lua
  lowSpawn choice argv (insertFirst argv opts.exe lua)

/-- Until it has a handle. Then it waits, reads and kills, and needs no table any more. -/
def run (choice : Proc.SpawnChoice) (opts : RunOpts) (lua : Lua) : Lua × Proc.Reply := spawn choice opts lua

/-- `"--port=" .. port` -/
def portFlag (port : Int) : LuaString :=
  (CStr.lit "--port=").bytes ++ (CStr.lit (ToString.toString port)).bytes

def spawnWebdriver (choice : Proc.SpawnChoice) (opts : WdSpawnOpts) (lua : Lua) : Lua × Proc.Reply :=
  let (args, lua) := orNew opts.extraflags lua
  let webdriver := opts.webdriver.getD (CStr.lit "chromedriver").bytes
  match opts.port with
  | none => (lua, .error (.lit "opts.port is required"))
  | some port => spawn choice { exe := webdriver, args := some args } (insertLast args (portFlag port) lua)

/-- A call, with the reference of its option table. -/
inductive Call where
  | spawn (opts : Nat)
  | run (opts : Nat)
  | spawnWebdriver (opts : Nat)

/-- What a caller does with its tables; none of the references leads nowhere. -/
structure Script where
  tables : Tables
  calls : List (Call × Proc.SpawnChoice)
  runClosed : ∀ opts ∈ tables.runOpts, ∀ ref ∈ opts.args, ref < tables.lists.length
  wdClosed : ∀ opts ∈ tables.wdSpawnOpts, ∀ ref ∈ opts.extraflags, ref < tables.lists.length

/-- An error of a call is the caller's to catch; without a table there is no call. -/
def step (lua : Lua) (action : Call × Proc.SpawnChoice) : Lua :=
  match action.1 with
  | .spawn ref => ((lua.tables.runOpts[ref]?).map fun opts => (spawn action.2 opts lua).1).getD lua
  | .run ref => ((lua.tables.runOpts[ref]?).map fun opts => (run action.2 opts lua).1).getD lua
  | .spawnWebdriver ref => ((lua.tables.wdSpawnOpts[ref]?).map fun opts => (spawnWebdriver action.2 opts lua).1).getD lua

def runScript (tables : Tables) (calls : List (Call × Proc.SpawnChoice)) : Lua := calls.foldl step { tables }

end Ltf.ProcLua
