import Ltf.Test

/-! What a test run is to those who listen to it, in terms of its own. The news of a run
come in an order that does not depend on who has registered for what; each piece of
news is passed on to the callbacks registered for it, in the order they came. -/

namespace Ltf

/-- A call of every callback in one of the twelve lists. -/
inductive News where
  | testRunStarted
  | testRunFinished
  | testStarted (record : Nat)
  | testFinished (record : Nat)
  | teardownStarted (record : Nat)
  | teardownFinished (record : Nat)
  | deferFailed (record : Nat) (output : TestOutput)
  | testLog (record : Nat) (output : TestOutput)
  | hookStarted (fn : HookFn)
  | hookFinished (fn : HookFn)
  | hookFailed (fn : HookFn) (err : Option (List UInt8))
  | hookLog (output : TestOutput)

namespace News

/-- The callbacks that are registered for the news. -/
def listeners (state : LtfState) : News → List Nat
  | testRunStarted => state.testRunStartedCbs
  | testRunFinished => state.testRunFinishedCbs
  | testStarted _ => state.testStartedCbs
  | testFinished _ => state.testFinishedCbs
  | teardownStarted _ => state.testTeardownStartedCbs
  | teardownFinished _ => state.testTeardownFinishedCbs
  | deferFailed .. => state.testDeferFailedCbs
  | testLog .. => state.testLogCbs
  | hookStarted _ => state.hookStartedCbs
  | hookFinished _ => state.hookFinishedCbs
  | hookFailed .. => state.hookFailedCbs
  | hookLog _ => state.hookLogCbs

/-- The call of one callback. -/
def reach (cb : Nat) : News → Event
  | testRunStarted => .testRunStarted cb
  | testRunFinished => .testRunFinished cb
  | testStarted record => .testStarted cb record
  | testFinished record => .testFinished cb record
  | teardownStarted record => .teardownStarted cb record
  | teardownFinished record => .teardownFinished cb record
  | deferFailed record output => .deferFailed cb record output
  | testLog record output => .testLog cb record output
  | hookStarted fn => .hookStarted cb fn
  | hookFinished fn => .hookFinished cb fn
  | hookFailed fn err => .hookFailed cb fn err
  | hookLog output => .hookLog cb output

def spread (listeners : News → List Nat) (news : News) : List Event := (listeners news).map news.reach

/-- The record a test is begun with. -/
def begun : News → Option Nat
  | testStarted record => some record
  | _ => none

/-- The record a verdict is for. -/
def judged : News → Option Nat
  | testFinished record => some record
  | _ => none

end News

def Event.isCall : Event → Bool
  | .currentTest | .deferRegistered _ | .deferInvoked .. => false
  | _ => true

/-- The calls of callbacks in a trace. -/
def calls (trace : List Event) : List Event := trace.filter Event.isCall

/-- How far a run is. A test that has begun is running from its first log on, and after
its verdict it may be torn down once, before the hooks that follow it. -/
inductive Phase where
  | new
  | opened
  | begun
  | running
  | judged
  | tearing
  | closed
  | over
deriving DecidableEq

/-- The place of a run in its protocol: the phase, the number of records, and the hook that is being run. -/
@[ext]
structure Place where
  phase : Phase
  records : Nat
  hook : Option HookFn := none
deriving DecidableEq

/-- Where the hooks of an event are run. -/
def hookPhase : Phase → HookFn → Option Phase
  | .opened, .testRunStarted => some .opened
  | .begun, .testStarted => some .begun
  | .judged, .testFinished | .closed, .testFinished => some .closed
  | .over, .testRunFinished => some .over
  | _, _ => none

namespace Place

/-- News about the current record. -/
def onRecord (place : Place) (record : Nat) (phase : Phase) : Option Place :=
  if record + 1 = place.records then some { place with phase } else none

/-- A hook may log, to the hook log or to the current record, until it is over. -/
def nextInHook (place : Place) (fn : HookFn) : News → Option Place
  | .hookLog _ => some place
  | .testLog record _ => place.onRecord record place.phase
  | .hookFinished other | .hookFailed other _ => if other = fn then some { place with hook := none } else none
  | _ => none

/-- Between two hooks. -/
def nextOutside (place : Place) : News → Option Place
  | .testRunStarted => if place.phase = .new then some { place with phase := .opened } else none
  | .testRunFinished =>
    match place.phase with
    | .opened | .judged | .closed => some { place with phase := .over }
    | _ => none
  | .testStarted record =>
    match place.phase with
    | .opened | .judged | .closed =>
      if record = place.records then some { place with phase := .begun, records := place.records + 1 } else none
    | _ => none
  | .testFinished record =>
    match place.phase with
    | .begun | .running => place.onRecord record .judged
    | _ => none
  | .teardownStarted record => if place.phase = .judged then place.onRecord record .tearing else none
  | .teardownFinished record => if place.phase = .tearing then place.onRecord record .closed else none
  | .deferFailed record _ => if place.phase = .tearing then place.onRecord record .tearing else none
  | .testLog record _ =>
    match place.phase with
    | .begun | .running => place.onRecord record .running
    | .tearing => place.onRecord record .tearing
    | _ => none
  | .hookStarted fn => (hookPhase place.phase fn).map fun phase => { place with phase, hook := some fn }
  | .hookLog _ | .hookFinished _ | .hookFailed .. => none

def next (place : Place) (news : News) : Option Place :=
  match place.hook with
  | some fn => place.nextInHook fn news
  | none => place.nextOutside news

/-- The number of tests that have a verdict. -/
def verdicts (place : Place) : Nat :=
  match place.phase with
  | .begun | .running => place.records - 1
  | _ => place.records

end Place

end Ltf
