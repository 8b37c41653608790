import Ltf.Files

/-! `test_logs.c`: how a test run finds the names of its two log files, and what it
leaves on the disk. Runs of one project share the disk and nothing else. -/

namespace Ltf
open CString JsonC

/-- The fields of `struct tm` that `get_date_time_now` prints. -/
structure Tm where
  mon : Fin 12
  mday : Fin 32
  year : Nat
  hour : Fin 24
  min : Fin 60
  sec : Fin 61

def twoDigits (value : Nat) : List UInt8 := [48 + UInt8.ofNat (value / 10 % 10), 48 + UInt8.ofNat (value % 10)]

/-- `strftime` with `"%m.%d.%y-%H:%M:%S"` -/
def strftime (now : Tm) : List UInt8 :=
  twoDigits (now.mon + 1) ++ 46 :: twoDigits now.mday ++ 46 :: twoDigits now.year ++ 45 :: twoDigits now.hour ++
    58 :: twoDigits now.min ++ 58 :: twoDigits now.sec

def getDateTimeNow (now : Tm) : CStr := .ofBytes (strftime now)

/-- `%zu` -/
def decimal (value : Nat) : CStr := .ofBytes ((Nat.toDigits 10 value).map fun digit => UInt8.ofNat digit.toNat)

/-- The loops that look for a free name: the plain one, then numbered ones. A name that
is not taken comes up before there are more names than entries on the disk. -/
def freeNumbered (disk : Disk) (numbered : Nat → CStr) : Nat → Nat → Option CStr
  | 0, _ => none
  | fuel + 1, i =>
    if disk.fileExists (numbered i) then freeNumbered disk numbered fuel (i + 1) else some (numbered i)

def freePath (disk : Disk) (plain : CStr) (numbered : Nat → CStr) (start : Nat) : Option CStr :=
  if disk.fileExists plain then freeNumbered disk numbered (disk.length + 1) start else some plain

section Paths
variable (logsDir time : CStr)

def rawLogPath : CStr := .concat [logsDir, .lit "/test_run_", time, .lit "_raw.json"]

def rawLogPathNumbered (i : Nat) : CStr :=
  .concat [logsDir, .lit "/test_run_", time, .lit "_raw(", decimal i, .lit ").json"]

def outputLogPath : CStr := .concat [logsDir, .lit "/test_run_", time, .lit "_output.log"]

def outputLogPathNumbered (i : Nat) : CStr :=
  .concat [logsDir, .lit "/test_run_", time, .lit "_output(", decimal i, .lit ").log"]

end Paths

/-- The statics of `test_logs.c` that name files. -/
structure LogPaths where
  logsDir : CStr
  rawLogFilePath : CStr
  outputLogFilePath : CStr

/-- A run gets this far with a target exactly when the project is multi-target. -/
def logsDirectory (projectPath : CStr) : Option CStr → CStr
  | some target => .concat [projectPath, .lit "/logs/", target]
  | none => .concat [projectPath, .lit "/logs"]

/-- The output log is created at once, the raw log is only given a name. -/
def ltfLogInit (projectPath : CStr) (target : Option CStr) (now : Tm) (disk : Disk) : Option (LogPaths × Disk) := do
  let logsDir := logsDirectory projectPath target
  let time := getDateTimeNow now
  let raw ← freePath disk (rawLogPath logsDir time) (rawLogPathNumbered logsDir time) 2
  let output ← freePath disk (outputLogPath logsDir time) (outputLogPathNumbered logsDir time) 0
  return ({ logsDir, rawLogFilePath := raw, outputLogFilePath := output }, disk.write output (.text []))

/-- The links with the names of the latest logs in a directory. -/
def linkLatest (paths : LogPaths) (logsDir : CStr) (disk : Disk) : Disk :=
  let disk := disk.replaceSymlink paths.outputLogFilePath (.concat [logsDir, .lit "/test_run_latest_output.log"])
  disk.replaceSymlink paths.rawLogFilePath (.concat [logsDir, .lit "/test_run_latest_raw.json"])

/-- `root` is the tree `ltf_state_to_json` has made of the state of the run. -/
def ltfLogTestRunFinished (projectPath : CStr) (multitarget : Bool) (paths : LogPaths) (root : Json) (disk : Disk) :
    Disk :=
  let disk := linkLatest paths paths.logsDir (disk.write paths.rawLogFilePath (.json root))
  if multitarget then linkLatest paths (.concat [projectPath, .lit "/logs"]) disk else disk

/-- A process that runs the tests of the project: how it was started, the names it has
found, and what it has saved when it is through. -/
structure LogRun where
  target : Option CStr
  now : Tm
  paths : LogPaths
  finished : Option Json := none

/-- The runs of a project, in the order in which they began to log. -/
structure LogWorld where
  disk : Disk
  runs : List LogRun

inductive LogEvent where
  | init (target : Option CStr) (now : Tm)
  | finish (run : Nat) (root : Json)

def logStep (projectPath : CStr) (world : LogWorld) : LogEvent → Option LogWorld
  | .init target now => do
    let (paths, disk) ← ltfLogInit projectPath target now world.disk
    return { disk, runs := world.runs ++ [{ target, now, paths }] }
  | .finish i root =>
    match world.runs[i]? with
    | none => none
    | some run =>
      match run.finished with
      | some _ => none
      | none => some {
          disk := ltfLogTestRunFinished projectPath run.target.isSome run.paths root world.disk
          runs := world.runs.set i { run with finished := some root } }

def logEvents (projectPath : CStr) (events : List LogEvent) (world : LogWorld) : Option LogWorld :=
  events.foldlM (logStep projectPath) world

/-- A project in which nothing has run yet, with any regular files around. -/
def newLogWorld (files : List (CStr × Content)) : LogWorld where
  disk := files.map fun file => (file.1, .file file.2)
  runs := []

end Ltf
