import Ltf.KeywordStatus

/-! `util/lua_hooks.c` and the part of Lua that drives it: a stack of frames whose
calls, tail calls and returns raise hook events and whose unwinding by an error does not. -/

namespace Ltf.LuaHooks
open CString Ltf.Keywords

/-- `ar->event` -/
inductive HookKind where
  | call
  | ret
  | tailCall
  | line
  | count

/-- `string_has_prefix` -/
def hasPrefix (str start : Option CStr) : Bool :=
  match str, start with
  | some str, some start => startsIgnoringCase str start
  | _, _ => false

/-- The source without the mark Lua puts before a file name. -/
def hookSource (source : CStr) : CStr := if source.bytes.head? = some 64 then .ofBytes (source.bytes.drop 1) else source

def whitelisted (whitelist : List (Option CStr)) (source : CStr) : Bool :=
  whitelist.any fun file => hasPrefix (some (hookSource source)) file

/-- `master_hook` with the hooks that `keyword_status_init` registers. Those of other
modules, for lines only, do not touch the recorder. -/
def masterHook (whitelist : List (Option CStr)) (kind : HookKind) (now : CStr) (ar : LuaDebug) (r : Recorder) :
    Memory Recorder :=
  if !whitelisted whitelist ar.source then some r
  else
    match kind with
    | .call => callHook now ar (hookSource ar.source) r
    | .ret => retHook now ar r
    | .tailCall => callHook now ar (hookSource ar.source) r
    | .line => some r
    | .count => some r

/-- An activation on the call stack of Lua. Its number stands for its address. -/
structure LuaFrame where
  id : Nat
  what : What
  name : Option CStr
  source : CStr
  linedefined : Int

def LuaFrame.debug (f : LuaFrame) : LuaDebug where
  what := f.what
  name := f.name
  source := f.source
  linedefined := f.linedefined
  frame := f.id

structure Machine where
  frames : List LuaFrame := []
  nextFrame : Nat := 0
  recorder : Recorder

/-- What Lua does next. A tail call puts a frame without a name in the place of the one
it leaves; an error caught further down takes frames off without any event. -/
inductive LuaOp where
  | call (what : What) (name : Option CStr) (source : CStr) (linedefined : Int) (now : CStr)
  | tailCall (what : What) (source : CStr) (linedefined : Int) (now : CStr)
  | ret (now : CStr)
  | unwind (frames : Nat)

def LuaOp.isHook : LuaOp → Bool
  | .unwind _ => false
  | _ => true

def luaStep (whitelist : List (Option CStr)) (m : Machine) : LuaOp → Memory Machine
  | .call what name source linedefined now => do
    let frame : LuaFrame := { id := m.nextFrame, what, name, source, linedefined }
    let recorder ← masterHook whitelist .call now frame.debug m.recorder
    return { frames := frame :: m.frames, nextFrame := m.nextFrame + 1, recorder }
  | .tailCall what source linedefined now =>
    match m.frames with
    | [] => some m
    | _ :: frames => do
      let frame : LuaFrame := { id := m.nextFrame, what, name := none, source, linedefined }
      let recorder ← masterHook whitelist .tailCall now frame.debug m.recorder
      return { frames := frame :: frames, nextFrame := m.nextFrame + 1, recorder }
  | .ret now =>
    match m.frames with
    | [] => some m
    | frame :: frames => do
      let recorder ← masterHook whitelist .ret now frame.debug m.recorder
      return { m with frames, recorder }
  | .unwind count => some { m with frames := m.frames.drop count }

def luaRun (whitelist : List (Option CStr)) (m : Machine) (ops : List LuaOp) : Memory Machine :=
  ops.foldlM (luaStep whitelist) m

end Ltf.LuaHooks
