import Ltf.ProcRun

/-! `M.run` of `lib/ltf/proc.lua` with a timeout, beside the child it waits for and a clock
that goes on as it likes. Only the loop that waits differs from the one without a timeout. -/

namespace Ltf.Proc
open CString

/-- Where the loop is: before `tm:millis() >= deadline`, in `tm:sleep(interval)`, or before `handle:wait()`. -/
inductive Waiting where
  | checking
  | sleeping (wake : Int)
  | polling

structure TimedSystem where
  system : System
  /-- What `tm:millis()` gives. -/
  now : Nat
  deadline : Int
  waiting : Waiting := .checking

/-- `error("timeout")`, without the place that Lua puts before the text. -/
def timeoutError : CStr := .lit "timeout"

/-- What `usleep` waits for: a number of microseconds in 32 bits, a part of a millisecond taken for a whole one. -/
def sleepTime (ms : Int) : Int := (ms * 1000 % 4294967296 + 999) / 1000

/-- `tm:sleep` takes an `int`, and comes back at once unless it is positive. -/
def sleep (interval : Int) (now : Nat) : Waiting :=
  if toInt32 interval ≤ 0 then .polling else .sleeping (now + sleepTime (toInt32 interval))

/-- One call of the loop that waits. -/
def timedWait (setting : Setting) (interval : Int) (s : TimedSystem) : TimedSystem :=
  match s.waiting with
  | .checking =>
    if s.deadline ≤ s.now then { s with system := { s.system with phase := .failed timeoutError } }
    else { s with waiting := sleep interval s.now }
  | .sleeping wake => if wake ≤ s.now then { s with waiting := .polling } else s
  | .polling => { s with system := parentStep setting.owner setting.code s.system, waiting := .checking }

def timedParent (setting : Setting) (interval : Int) (s : TimedSystem) : TimedSystem :=
  match s.system.phase with
  | .waiting => timedWait setting interval s
  | _ => { s with system := parentStep setting.owner setting.code s.system }

/-- Who goes on; time may pass at any moment. -/
inductive TimedTurn where
  | child (count : Nat)
  | pass (ms : Nat)
  | parent

def timedTurn (setting : Setting) (interval : Int) (s : TimedSystem) : TimedTurn → TimedSystem
  | .child count => { s with system := childStep setting.capacity count s.system }
  | .pass ms => { s with now := s.now + ms }
  | .parent => timedParent setting interval s

def timedTurns (setting : Setting) (interval : Int) (s : TimedSystem) (schedule : List TimedTurn) : TimedSystem :=
  schedule.foldl (timedTurn setting interval) s

/-- The numbers a caller of `M.run` gives. -/
structure TimedCall where
  timeout : Int
  sleepinterval : Option Int

def TimedCall.interval (call : TimedCall) : Int := call.sleepinterval.getD 20

/-- Once the process has been spawned. -/
def TimedCall.start (call : TimedCall) (system : System) (now : Nat) : TimedSystem :=
  { system, now, deadline := now + call.timeout }

end Ltf.Proc
