import Ltf.Base.Ledger
import Ltf.Lua

/-! `modules/http/ltf-http.c`: the userdata around curl handles, with the header list and
the references to callbacks they own. What libcurl answers is chosen by the caller of
each function: the text of an error, or nothing. -/

namespace Ltf.Http
open CString Ledger

/-- Memory that is used although it must not be. -/
inductive Fault where
  /-- a curl call on an easy handle after `curl_easy_cleanup` -/
  | cleanedHandle
  /-- `curl_slist_free_all` on a list that a handle still points to -/
  | installedList
deriving DecidableEq

abbrev Exec := Except Fault

/-- A `struct curl_slist *` that is not `NULL`. Lists are told apart by their numbers. -/
structure SList where
  serial : Nat
  lines : List CStr

/-- What libcurl keeps for an easy handle: how often it was cleaned up, and the lists
that two of its options point to. -/
structure Easy where
  cleanups : Nat := 0
  httpHeader : Option Nat := none
  quote : Option Nat := none

/-- `l_module_http_t`, whose references are `0` at first. Once it is collected nothing can
reach it any more. -/
structure LModuleHttp where
  h : Option Easy
  headers : Option SList := none
  writeRef : Option Nat := none
  readRef : Option Nat := none
  collected : Bool := false

/-- The references in the Lua registry, and the number of lists there have been. -/
structure Host where
  refs : Book := {}
  lists : Nat := 0

/-- The third argument of `setopt` by its type. A table holds what `luaL_checkstring`
makes of its values at `1, 2, ...`. -/
inductive HttpValue where
  | scalar
  | table (items : List (Option CStr))
  | function
  | other

def optHttpHeader : Int := 10023

def optQuote : Int := 10028

def optWriteFunction : Int := 20011

def optReadFunction : Int := 20012

/-- What a function leaves and how it ends. -/
abbrev Ended := LModuleHttp × Host × LuaOutcome

def raised (message : String) : LuaOutcome := .failed (some (CStr.lit message).bytes)

/-- A call that needs an easy handle. `NULL` is refused by libcurl. -/
def easyCall : Option Easy → Exec Unit
  | some easy => if easy.cleanups = 0 then .ok () else .error .cleanedHandle
  | none => .ok ()

/-- The pointer an option holds after it was set: the list, or something else that is none. -/
def install (h : Option Easy) (option : Int) (list : Option Nat) : Option Easy :=
  h.map fun easy =>
    if option = optHttpHeader then { easy with httpHeader := list }
    else if option = optQuote then { easy with quote := list }
    else easy

def curlEasySetopt (h : Option Easy) (option : Int) (list : Option Nat) (rc : Option (List UInt8)) :
    Exec (Option Easy) := do
  easyCall h
  return if rc.isNone then install h option list else h

/-- A handle that was not cleaned up points to the list. -/
def installed (h : Option Easy) (list : Nat) : Bool :=
  match h with
  | some easy => easy.cleanups = 0 && (easy.httpHeader = some list || easy.quote = some list)
  | none => false

def udClearSlist (ud : LModuleHttp) : Exec LModuleHttp :=
  match ud.headers with
  | none => .ok ud
  | some list => if installed ud.h list.serial then .error .installedList else .ok { ud with headers := none }

/-- The loop stops in front of the last value. A value that is no string raises an error. -/
def luaToSlist (items : List (Option CStr)) : Option (List CStr) := items.dropLast.mapM id

def lModuleHttpNew (made : Bool) : LModuleHttp where
  h := if made then some {} else none

/-- The end of `setopt`, with the answer of the last curl call. -/
def afterSetopt (rc : Option (List UInt8)) : LuaOutcome :=
  match rc with
  | none => .returned
  | some text => .failed (some ((CStr.lit "curl_easy_setopt: ").bytes ++ text))

/-- A reference to the function is taken before the option is looked at. -/
def setoptFunction (ud : LModuleHttp) (host : Host) (option : Int) (rc : Option (List UInt8)) : Exec Ended :=
  let ref := host.refs.next
  let refs : Book := { host.refs with next := host.refs.next + 1 }
  if option = optWriteFunction then do
    let refs := refs.release ud.writeRef.toList
    easyCall ud.h
    return ({ ud with writeRef := some ref }, { host with refs }, afterSetopt rc)
  else if option = optReadFunction then do
    let refs := refs.release ud.readRef.toList
    easyCall ud.h
    return ({ ud with readRef := some ref }, { host with refs }, afterSetopt rc)
  else return (ud, { host with refs }, raised "function only allowed for READ/WRITE cb")

/-- The old list is freed before the new one is made and installed. -/
def setoptTable (ud : LModuleHttp) (host : Host) (option : Int) (items : List (Option CStr))
    (rc : Option (List UInt8)) : Exec Ended :=
  if option ≠ optHttpHeader ∧ option ≠ optQuote then
    return (ud, host, raised "table only allowed for HTTPHEADER/QUOTE")
  else do
    let ud ← udClearSlist ud
    match luaToSlist items with
    | none => return (ud, { host with lists := host.lists + 1 }, raised "string expected")
    | some lines => do
      let list := if lines.length = 0 then none else some { serial := host.lists, lines : SList }
      let h ← curlEasySetopt ud.h option (list.map (·.serial)) rc
      return ({ ud with h, headers := list }, { host with lists := host.lists + 1 }, afterSetopt rc)

def lModuleHttpSetopt (ud : LModuleHttp) (host : Host) (option : Int) (value : HttpValue)
    (rc : Option (List UInt8)) : Exec Ended :=
  match value with
  | .scalar => do
    let h ← curlEasySetopt ud.h option none rc
    return ({ ud with h }, host, afterSetopt rc)
  | .table items => setoptTable ud host option items rc
  | .function => setoptFunction ud host option rc
  | .other => return (ud, host, raised "unsupported Lua type for setopt()")

def lModuleHttpPerform (ud : LModuleHttp) (host : Host) (rc : Option (List UInt8)) : Exec Ended := do
  easyCall ud.h
  match rc with
  | none => return (ud, host, .returned)
  | some text => return (ud, host, .failed (some ((CStr.lit "curl_easy_perform: ").bytes ++ text)))

/-- `curl_easy_cleanup`, unless the handle is `NULL`. -/
def easyCleanup (h : Option Easy) : Exec (Option Easy) := do
  easyCall h
  return h.map fun easy => { easy with cleanups := easy.cleanups + 1 }

/-- The pointer to the easy handle stays as it is. -/
def lModuleHttpCleanup (ud : LModuleHttp) (host : Host) : Exec Ended := do
  let h ← easyCleanup ud.h
  return ({ ud with h }, host, .returned)

/-- `luaL_checkudata` succeeds with the name of the metatable that `new` sets. The other
functions check for this name and are only ever given such userdata. -/
def luaLCheckudata (tname : String) : Bool := tname == "ltf-http"

/-- `__gc`, which checks for another name than `new` uses. -/
def lModuleHttpGc (ud : LModuleHttp) (host : Host) : Exec Ended :=
  if luaLCheckudata "ltf.curl.easy" then do
    let ud ← udClearSlist ud
    let refs := (host.refs.release ud.writeRef.toList).release ud.readRef.toList
    let h ← easyCleanup ud.h
    return ({ ud with h }, { host with refs }, .returned)
  else return (ud, host, raised "ltf.curl.easy expected, got userdata")

structure World where
  objects : List LModuleHttp := []
  host : Host := {}

/-- The calls of a test, and the collector that finds an object nothing refers to. -/
inductive HttpCall where
  | new (made : Bool)
  | setopt (object : Nat) (option : Int) (value : HttpValue) (rc : Option (List UInt8))
  | perform (object : Nat) (rc : Option (List UInt8))
  | cleanup (object : Nat)
  | collect (object : Nat)

/-- A function on an object, if there is one that Lua can still reach. -/
def onObject (world : World) (i : Nat) (call : LModuleHttp → Host → Exec Ended) : Exec World :=
  match world.objects[i]? with
  | none => return world
  | some ud =>
    if ud.collected then return world
    else do
      let ended ← call ud world.host
      return { objects := world.objects.set i ended.1, host := ended.2.1 }

/-- The finaliser runs once, whatever its outcome, and the object is gone. -/
def finalise (ud : LModuleHttp) (host : Host) : Exec Ended := do
  let ended ← lModuleHttpGc ud host
  return ({ ended.1 with collected := true }, ended.2)

def httpStep (world : World) : HttpCall → Exec World
  | .new made => return { world with objects := world.objects ++ [lModuleHttpNew made] }
  | .setopt i option value rc => onObject world i fun ud host => lModuleHttpSetopt ud host option value rc
  | .perform i rc => onObject world i fun ud host => lModuleHttpPerform ud host rc
  | .cleanup i => onObject world i lModuleHttpCleanup
  | .collect i => onObject world i finalise

end Ltf.Http
