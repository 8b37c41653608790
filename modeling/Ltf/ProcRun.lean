import Ltf.Proc

/-! `M.run` of `lib/ltf/proc.lua` without a timeout, from the spawn on, beside the child it
waits for. The two pipes between them hold a bounded number of bytes. Either side goes on
whenever the scheduler lets it, and a write moves as many bytes at once as the kernel likes. -/

namespace Ltf.Proc
open CString Descriptors

/-- A child that writes, and then exits. -/
inductive Child where
  | running (writes : List (Stream × List UInt8))
  | exited

/-- `run_result` -/
structure RunResult where
  stdout : LuaValue
  stderr : LuaValue
  exitcode : LuaValue

/-- Where `M.run` is. A read keeps in a buffer what it has got. -/
inductive Phase where
  | waiting
  | readingStdout (status : LuaValue) (buffer : List UInt8)
  | readingStderr (status : LuaValue) (stdout : LuaValue) (buffer : List UInt8)
  | returned (result : RunResult)
  | failed (err : CStr)

structure System where
  child : Child
  pipes : Stream → List UInt8 := fun _ => []
  proc : LModuleProc
  table : Table Owner
  phase : Phase := .waiting

def System.pipe (s : System) (stream : Stream) (bytes : List UInt8) : System :=
  { s with pipes := fun other => if other = stream then bytes else s.pipes other }

/-- The next write moves the first bytes, at most `count`, for which there is room. When it
has moved all of them it is over. -/
def childStep (capacity : Stream → Nat) (count : Nat) (s : System) : System :=
  match s.child with
  | .running [] => { s with child := .exited }
  | .running ((_, []) :: writes) => { s with child := .running writes }
  | .running ((stream, bytes) :: writes) =>
    let moved := min count (capacity stream - (s.pipes stream).length)
    { s.pipe stream (s.pipes stream ++ bytes.take moved) with
      child := .running ((stream, bytes.drop moved) :: writes) }
  | .exited => s

/-- What `waitpid` finds. -/
def Child.found (status : Nat) : Child → WaitResult
  | .running _ => .running
  | .exited => .exited status

/-- One `fread` of the loop that drains a stream, or its end. While the child could still
write, `fread` would block. -/
def drainStep (which : Stream) (s : System) (more : List UInt8 → Phase) (done : System → System) (buffer : List UInt8) :
    System :=
  match s.child, s.pipes which with
  | .running _, _ => s
  | .exited, [] => done s
  | .exited, bytes => { s.pipe which (bytes.drop 4096) with phase := more (buffer ++ bytes.take 4096) }

/-- The value a call gives, or its error, which `M.run` lets through. -/
def System.reply (s : System) (reply : Reply) (next : LuaValue → Phase) : System :=
  match reply with
  | .error err => { s with phase := .failed err }
  | .ok value => { s with phase := next value }

def endOfStdout (owner : Owner) (status : LuaValue) (buffer : List UInt8) (s : System) : System :=
  let (proc, table, reply) := lModuleProcRead owner (some (.lit "stdout")) buffer s.proc s.table
  { s with proc, table }.reply reply fun stdout => .readingStderr status stdout []

/-- The process is killed before the result is returned. -/
def endOfStderr (owner : Owner) (code : Nat) (status stdout : LuaValue) (buffer : List UInt8) (s : System) : System :=
  let (proc, table, reply) := lModuleProcRead owner (some (.lit "stderr")) buffer s.proc s.table
  match reply with
  | .error err => { s with proc, table, phase := .failed err }
  | .ok stderr =>
    let (proc, table, reply) := lModuleProcKill owner (s.child.found code) proc table
    { s with proc, table }.reply reply fun _ => .returned { stdout, stderr, exitcode := status }

/-- One call of `M.run`, or one turn of a loop in it. -/
def parentStep (owner : Owner) (code : Nat) (s : System) : System :=
  match s.phase with
  | .waiting =>
    let (proc, reply) := lModuleProcWait (s.child.found code) s.proc
    { s with proc }.reply reply fun status => if status = LuaValue.nil then .waiting else .readingStdout status []
  | .readingStdout status buffer =>
    drainStep .out s (.readingStdout status) (endOfStdout owner status buffer) buffer
  | .readingStderr status stdout buffer =>
    drainStep .err s (.readingStderr status stdout) (endOfStderr owner code status stdout buffer) buffer
  | .returned _ | .failed _ => s

/-- Who goes on. -/
inductive Turn where
  | child (count : Nat)
  | parent

/-- What a run of the two depends on. -/
structure Setting where
  capacity : Stream → Nat
  owner : Owner
  code : Nat

def turn (setting : Setting) (s : System) : Turn → System
  | .child count => childStep setting.capacity count s
  | .parent => parentStep setting.owner setting.code s

def turns (setting : Setting) (s : System) (schedule : List Turn) : System := schedule.foldl (turn setting) s

end Ltf.Proc
