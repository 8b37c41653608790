import Ltf.Base.CString
import Ltf.Base.Descriptors
import Ltf.Lua

/-! The process module, `modules/proc/ltf-proc.c`, over the descriptor table of the
process that runs it. What the kernel, the children and the libraries answer is chosen
by the caller of each operation. -/

namespace Ltf.Proc
open CString Descriptors

/-- Who opened a descriptor: a spawn, known by its number, or any other code. -/
inductive Owner where
  | handle (index : Nat)
  | other
deriving DecidableEq

/-- `l_module_proc_t`. A `FILE *` is known by the descriptor under it; descriptors are
never negative here, so the guard of `close_fd` always lets them through. -/
structure LModuleProc where
  pid : Nat := 0
  inFile : Option Nat := none
  outFile : Option Nat := none
  errFile : Option Nat := none
  pin : Nat × Nat := (0, 0)
  pout : Nat × Nat := (0, 0)
  perr : Nat × Nat := (0, 0)

/-- The userdata of a spawn, whether Lua got it, and whether it has been killed. -/
structure Handle where
  proc : LModuleProc
  returned : Bool
  killed : Bool := false

structure World where
  table : Table Owner := {}
  handles : List Handle := []

/-- What an operation returns to Lua, or the message of its error. -/
abbrev Reply := Except CStr LuaValue

def message (text : CStr) (rest : CStr) : CStr := .ofBytes (text.bytes ++ rest.bytes)

def closeFile (owner : Owner) (file : Option Nat) (t : Table Owner) : Table Owner :=
  match file with
  | none => t
  | some number => t.close owner number

def procCloseStreams (owner : Owner) (p : LModuleProc) (t : Table Owner) : LModuleProc × Table Owner :=
  let t := closeFile owner p.inFile t
  let t := closeFile owner p.outFile t
  let t := closeFile owner p.errFile t
  let t := t.close owner p.pin.1
  let t := t.close owner p.pout.1
  let t := t.close owner p.perr.1
  let t := t.close owner p.pin.2
  let t := t.close owner p.pout.2
  let t := t.close owner p.perr.2
  ({ p with inFile := none, outFile := none, errFile := none }, t)

/-- How the system calls of a spawn end. An error carries the text of `strerror`. -/
structure SpawnChoice where
  pin : Bool
  pout : Bool
  perr : Bool
  spawned : Except CStr Nat
  fdopenIn : Bool
  fdopenOut : Bool
  fdopenErr : Bool
  pipeError : CStr

/-- `pipe` opens two descriptors or leaves its array alone. -/
def pipe (works : Bool) (owner : Owner) (ends : Nat × Nat) (t : Table Owner) : (Nat × Nat) × Table Owner :=
  if works then
    let (first, t) := t.openLowest owner
    let (second, t) := t.openLowest owner
    ((first, second), t)
  else (ends, t)

def fdopen (works : Bool) (number : Nat) : Option Nat := if works then some number else none

/-- `pipe(proc->pin) || pipe(proc->pout) || pipe(proc->perr)`, and whether all worked. -/
def openPipes (choice : SpawnChoice) (owner : Owner) (p : LModuleProc) (t : Table Owner) :
    Bool × LModuleProc × Table Owner :=
  let (pin, t) := pipe choice.pin owner p.pin t
  let p := { p with pin }
  if !choice.pin then (false, p, t)
  else
    let (pout, t) := pipe choice.pout owner p.pout t
    let p := { p with pout }
    if !choice.pout then (false, p, t)
    else
      let (perr, t) := pipe choice.perr owner p.perr t
      let p := { p with perr }
      (choice.perr, p, t)

/-- The body of a spawn after its arguments. It ends with the userdata, the table, and the
error if there is one; then the userdata never reaches Lua. -/
def spawnStreams (choice : SpawnChoice) (owner : Owner) (t : Table Owner) : LModuleProc × Table Owner × Option CStr :=
  let (piped, p, t) := openPipes choice owner {} t
  if !piped then
    let (p, t) := procCloseStreams owner p t
    (p, t, some (message (.lit "pipe(): ") choice.pipeError))
  else
    match choice.spawned with
    | .error err =>
      let (p, t) := procCloseStreams owner p t
      (p, t, some (message (.lit "posix_spawnp(): ") err))
    | .ok pid =>
      let p := { p with pid }
      let t := t.close owner p.pin.1
      let t := t.close owner p.pout.2
      let t := t.close owner p.perr.2
      let p := { p with
        inFile := fdopen choice.fdopenIn p.pin.2
        outFile := fdopen choice.fdopenOut p.pout.1
        errFile := fdopen choice.fdopenErr p.perr.1 }
      if p.inFile.isNone || p.outFile.isNone || p.errFile.isNone then
        let (p, t) := procCloseStreams owner p t
        (p, t, some (.lit "fdopen() failed"))
      else (p, t, none)

def lModuleProcSpawn (argv : List CStr) (choice : SpawnChoice) (w : World) : World × Reply :=
  if argv.length = 0 then (w, .error (.lit "argv table is empty"))
  else
    let (proc, table, failed) := spawnStreams choice (.handle w.handles.length) w.table
    let w : World := { table, handles := w.handles ++ [{ proc, returned := failed.isNone }] }
    match failed with
    | some err => (w, .error err)
    | none => (w, .ok (.object (w.handles.length - 1)))

/-- The handle behind a value Lua holds: only a returned one can be. -/
def World.handle (w : World) (index : Nat) : Option Handle := (w.handles[index]?).filter (·.returned)

def World.put (w : World) (index : Nat) (handle : Handle) (table : Table Owner) : World :=
  { table, handles := w.handles.set index handle }

/-- `written` is what `fwrite` returns. -/
def lModuleProcWrite (handle : Handle) (written : Nat) : Reply :=
  match handle.proc.inFile with
  | none => .error (.lit "stdin closed")
  | some _ => .ok (.integer written)

inductive Stream where
  | out
  | err
deriving DecidableEq

def streamOf (which : Option CStr) : Except CStr Stream :=
  let which := which.getD (.lit "stdout")
  if equalsIgnoringCase which (.lit "stdout") then .ok .out
  else if equalsIgnoringCase which (.lit "stderr") then .ok .err
  else .error (.ofBytes ((CStr.lit "unknown stream '").bytes ++ which.bytes ++ (CStr.lit "'").bytes))

def LModuleProc.file (p : LModuleProc) : Stream → Option Nat
  | .out => p.outFile
  | .err => p.errFile

def LModuleProc.dropFile (p : LModuleProc) : Stream → LModuleProc
  | .out => { p with outFile := none }
  | .err => { p with errFile := none }

/-- `got` is what is read: up to the end of the stream once the process has been waited for. -/
def lModuleProcRead (owner : Owner) (which : Option CStr) (got : List UInt8) (p : LModuleProc) (t : Table Owner) :
    LModuleProc × Table Owner × Reply :=
  match streamOf which with
  | .error err => (p, t, .error err)
  | .ok stream =>
    match p.file stream with
    | none => (p, t, .ok (.string []))
    | some number =>
      if p.pid = 0 then (p.dropFile stream, t.close owner number, .ok (.string got)) else (p, t, .ok (.string got))

/-- What `waitpid` finds. -/
inductive WaitResult where
  | running
  | failed (err : CStr)
  | exited (status : Nat)
  | signaled (signal : Nat)
  | unknown

def lModuleProcWait (found : WaitResult) (p : LModuleProc) : LModuleProc × Reply :=
  if p.pid = 0 then (p, .ok .nil)
  else
    match found with
    | .running => (p, .ok .nil)
    | .failed err => (p, .error (message (.lit "waitpid: ") err))
    | .exited status => ({ p with pid := 0 }, .ok (.integer status))
    | .signaled signal => ({ p with pid := 0 }, .ok (.integer signal))
    | .unknown => ({ p with pid := 0 }, .ok (.integer (-1)))

/-- An error of the wait it ends with is an error of the kill. -/
def lModuleProcKill (owner : Owner) (found : WaitResult) (p : LModuleProc) (t : Table Owner) :
    LModuleProc × Table Owner × Reply :=
  let (p, t) := procCloseStreams owner p t
  match lModuleProcWait found p with
  | (p, .error err) => (p, t, .error err)
  | (p, .ok _) => (p, t, .ok .nil)

/-- One event in the life of the process. Code outside the module closes only what it opened. -/
inductive Op where
  | spawn (argv : List CStr) (choice : SpawnChoice)
  | write (index : Nat) (written : Nat)
  | read (index : Nat) (which : Option CStr) (got : List UInt8)
  | wait (index : Nat) (found : WaitResult)
  | kill (index : Nat) (found : WaitResult)
  | openOther
  | closeOther (number : Nat)

def step (w : World) : Op → World
  | .spawn argv choice => (lModuleProcSpawn argv choice w).1
  | .write _ _ => w
  | .read index which got =>
    match w.handle index with
    | none => w
    | some handle =>
      let (proc, table, _) := lModuleProcRead (.handle index) which got handle.proc w.table
      w.put index { handle with proc } table
  | .wait index found =>
    match w.handle index with
    | none => w
    | some handle => w.put index { handle with proc := (lModuleProcWait found handle.proc).1 } w.table
  | .kill index found =>
    match w.handle index with
    | none => w
    | some handle =>
      let (proc, table, _) := lModuleProcKill (.handle index) found handle.proc w.table
      w.put index { handle with proc, killed := true } table
  | .openOther => { w with table := (w.table.openLowest .other).2 }
  | .closeOther number =>
    if (w.table.get number).any (·.owner == .other) then { w with table := w.table.close .other number } else w

def run (w : World) (ops : List Op) : World := ops.foldl step w

end Ltf.Proc
