import Ltf.Proofs.ProcRun
import Ltf.ProcTimed

/-! A call of `M.run` with a timeout comes to an end once it has had the time and the turns
it needs, whatever the child does. Without a timeout it may wait forever for a child that
waits for room in a pipe. What it pays for this is the process, which nobody stops then. -/

namespace Ltf.Proofs.ProcTimed
open CString Descriptors Proc ProcRun

/-- Nothing has happened to the userdata and the descriptors since the spawn. -/
def AsSpawned (spawned : Spawned) (s : System) : Prop := s.proc = spawned.proc ∧ s.table = spawned.table

def Fits (setting : Setting) (writes : List (Stream × List UInt8)) : Prop :=
  ∀ stream, (written writes stream).length ≤ setting.capacity stream

/-- The status has been found, and it is the exit code. -/
def Reports (code : Nat) : Phase → Prop
  | .readingStdout status _ | .readingStderr status _ _ => status = .integer code
  | .returned result => result.exitcode = .integer code
  | .waiting => False
  | .failed _ => True

/-- A call, the process it has spawned, and what that writes. -/
structure Scene where
  setting : Setting
  spawned : Spawned
  writes : List (Stream × List UInt8)
  call : TimedCall
  began : Nat

namespace Scene

def deadline (scene : Scene) : Int := scene.began + scene.call.timeout

/-- The last sleep that begins before the deadline is over then. -/
def lastWake (scene : Scene) : Int := scene.deadline + sleepTime (toInt32 scene.call.interval)

def start (scene : Scene) : TimedSystem := scene.call.start (scene.spawned.start scene.writes) scene.began

def run (scene : Scene) (schedule : List TimedTurn) : TimedSystem :=
  timedTurns scene.setting scene.call.interval scene.start schedule

def size (scene : Scene) : Nat := (written scene.writes .out).length + (written scene.writes .err).length

/-- A result is whole, and there is one only if the child never had to wait for room. The
only error is that of the timeout; it leaves a process that runs on, and its streams open. -/
def Answered (scene : Scene) (s : TimedSystem) : Prop :=
  (∀ result, s.system.phase = .returned result →
    Complete scene.writes result ∧ result.exitcode = .integer scene.setting.code ∧ Fits scene.setting scene.writes) ∧
  ∀ err, s.system.phase = .failed err →
    err = timeoutError ∧ scene.deadline ≤ s.now ∧ AsSpawned scene.spawned s.system

/-- The three ways a call can be on. -/
inductive Progress (scene : Scene) (s : TimedSystem) : Prop
  | waiting (phase : s.system.phase = .waiting) (kept : Kept scene.writes s.system)
      (left : AsSpawned scene.spawned s.system)
      (wakes : ∀ wake, s.waiting = .sleeping wake → wake ≤ scene.lastWake)
  | found (kept : Kept scene.writes s.system) (fits : Fits scene.setting scene.writes)
      (reports : Reports scene.setting.code s.system.phase)
  | timedOut (phase : s.system.phase = .failed timeoutError) (late : scene.deadline ≤ s.now)
      (left : AsSpawned scene.spawned s.system)

structure Valid (scene : Scene) (s : TimedSystem) : Prop where
  deadline : s.deadline = scene.deadline
  bounded : Bounded scene.setting s.system
  progress : Progress scene s

end Scene

variable {scene : Scene} {s : TimedSystem}

theorem start_valid (scene : Scene) : scene.Valid scene.start where
  deadline := rfl
  bounded := fun _ => Nat.zero_le _
  progress := .waiting rfl (start_kept scene.spawned scene.writes) ⟨rfl, rfl⟩ nofun

theorem childStep_left (capacity : Stream → Nat) (count : Nat) (s : System) :
    (childStep capacity count s).proc = s.proc ∧ (childStep capacity count s).table = s.table := by
  unfold childStep
  split <;> exact ⟨rfl, rfl⟩

/-- To ask about a child that runs changes nothing. -/
theorem asks_running {owner : Owner} {code : Nat} {s : System} {writes : List (Stream × List UInt8)}
    (phase : s.phase = .waiting) (child : s.child = .running writes) : parentStep owner code s = s := by
  have same : lModuleProcWait .running s.proc = (s.proc, .ok .nil) := by
    unfold lModuleProcWait
    split <;> rfl
  simp only [parentStep, phase, child, Child.found, same, System.reply, if_true]
  rw [← phase, ← child]

theorem asks_exited {owner : Owner} {code : Nat} {s : System} (phase : s.phase = .waiting) (child : s.child = .exited)
    (alive : 0 < s.proc.pid) :
    parentStep owner code s = { s with proc := { s.proc with pid := 0 }, phase := .readingStdout (.integer code) [] } := by
  have busy : s.proc.pid ≠ 0 := by omega
  simp only [parentStep, phase, child, Child.found, lModuleProcWait, busy, if_false, System.reply, reduceCtorEq]

theorem reply_reports {code : Nat} {s : System} {reply : Reply} {next : LuaValue → Phase}
    (later : ∀ value, Reports code (next value)) : Reports code (s.reply reply next).phase := by
  cases reply with
  | error err => exact trivial
  | ok value => exact later value

theorem drain_reports {code : Nat} {which : Stream} {s : System} {more : List UInt8 → Phase} {done : System → System}
    {buffer : List UInt8} (before : Reports code s.phase) (later : ∀ buffer, Reports code (more buffer))
    (ends : Reports code (done s).phase) : Reports code (drainStep which s more done buffer).phase := by
  unfold drainStep
  split
  next => exact before
  next => exact ends
  next => exact later _

theorem reads_reports {owner : Owner} {code : Nat} {s : System} (reports : Reports code s.phase) :
    Reports code (parentStep owner code s).phase := by
  unfold parentStep
  cases phase : s.phase with
  | waiting =>
    rw [phase] at reports
    exact reports.elim
  | readingStdout status buffer =>
    rw [phase] at reports
    refine drain_reports (by rwa [phase]) (fun _ => reports) ?_
    exact reply_reports fun _ => reports
  | readingStderr status stdout buffer =>
    rw [phase] at reports
    refine drain_reports (by rwa [phase]) (fun _ => reports) ?_
    unfold endOfStderr
    dsimp only
    split
    · exact trivial
    · exact reply_reports fun _ => reports
  | returned result | failed err =>
    rw [phase] at reports
    simpa only [phase] using reports

theorem found_past {code : Nat} {phase : Phase} (reports : Reports code phase) : phase ≠ .waiting := by
  rintro rfl
  exact reports

/-- Asking about a process finds it running, or finds its status and all of its output in the pipes. -/
theorem polls_progress (valid : scene.Valid s) (phase : s.system.phase = .waiting) :
    scene.Progress { s with system := parentStep scene.setting.owner scene.setting.code s.system, waiting := .checking } := by
  obtain ⟨_, kept, left, _⟩ | ⟨_, _, reports⟩ | ⟨failed, _, _⟩ := valid.progress
  · have later : Kept scene.writes (parentStep scene.setting.owner scene.setting.code s.system) := waits_kept kept phase
    rw [Kept, phase] at kept
    cases child : s.system.child with
    | running writes =>
      have still := @asks_running scene.setting.owner scene.setting.code _ _ phase child
      rw [still] at later ⊢
      refine .waiting phase later left ?_
      intro wake asleep
      cases asleep
    | exited =>
      have asked := @asks_exited scene.setting.owner scene.setting.code _ phase child kept.1
      have whole : ∀ stream, s.system.pipes stream = written scene.writes stream := by
        simpa [child, pending] using kept.2.2.2
      rw [asked] at later ⊢
      refine .found later (fun stream => ?_) rfl
      rw [← whole stream]
      exact valid.bounded stream
  · exact absurd phase (found_past reports)
  · rw [failed] at phase
    cases phase

theorem waits_progress (valid : scene.Valid s) (phase : s.system.phase = .waiting) :
    scene.Progress (timedWait scene.setting scene.call.interval s) := by
  obtain ⟨_, kept, left, wakes⟩ | ⟨_, _, reports⟩ | ⟨failed, _, _⟩ := valid.progress
  · cases waiting : s.waiting with
    | checking =>
      simp only [timedWait, waiting]
      split
      next late => exact .timedOut rfl (by rwa [← valid.deadline]) left
      next early =>
        rw [valid.deadline] at early
        refine .waiting phase kept left ?_
        intro wake asleep
        simp only [sleep] at asleep
        split at asleep
        · cases asleep
        · cases asleep
          simp only [Scene.lastWake]
          omega
    | sleeping wake =>
      simp only [timedWait, waiting]
      split
      · exact .waiting phase kept left nofun
      · exact valid.progress
    | polling =>
      simp only [timedWait, waiting]
      exact polls_progress valid phase
  · exact absurd phase (found_past reports)
  · rw [failed] at phase
    cases phase

theorem parent_progress (valid : scene.Valid s) : scene.Progress (timedParent scene.setting scene.call.interval s) := by
  unfold timedParent
  split
  next phase => exact waits_progress valid phase
  next past =>
    obtain ⟨phase, _, _, _⟩ | ⟨kept, fits, reports⟩ | ⟨failed, _, _⟩ := valid.progress
    · exact absurd phase past
    · exact .found (@turn_kept scene.setting _ _ kept .parent) fits (reads_reports reports)
    · have still : parentStep scene.setting.owner scene.setting.code s.system = s.system := by
        simp only [parentStep, failed]
      rw [still]
      exact valid.progress

theorem turn_valid (s : TimedSystem) (next : TimedTurn) (valid : scene.Valid s) :
    scene.Valid (timedTurn scene.setting scene.call.interval s next) := by
  obtain ⟨deadline, bounded, progress⟩ := valid
  cases next with
  | child count =>
    refine ⟨deadline, childStep_bounded count bounded, ?_⟩
    have phase := childStep_phase scene.setting.capacity count s.system
    have quiet := childStep_left scene.setting.capacity count s.system
    obtain ⟨waiting, kept, left, wakes⟩ | ⟨kept, fits, reports⟩ | ⟨failed, late, left⟩ := progress
    · exact .waiting (phase.trans waiting) (childStep_kept _ count kept) ⟨quiet.1.trans left.1, quiet.2.trans left.2⟩ wakes
    · exact .found (childStep_kept _ count kept) fits (phase ▸ reports)
    · exact .timedOut (phase.trans failed) late ⟨quiet.1.trans left.1, quiet.2.trans left.2⟩
  | pass ms =>
    refine ⟨deadline, bounded, ?_⟩
    obtain ⟨waiting, kept, left, wakes⟩ | ⟨kept, fits, reports⟩ | ⟨failed, late, left⟩ := progress
    · exact .waiting waiting kept left wakes
    · exact .found kept fits reports
    · refine .timedOut failed ?_ left
      simp only [timedTurn]
      omega
  | parent =>
    refine ⟨?_, ?_, parent_progress ⟨deadline, bounded, progress⟩⟩
    · simp only [timedTurn, timedParent, timedWait]
      split
      · split <;> first | exact deadline | (split <;> exact deadline)
      · exact deadline
    · simp only [timedTurn, timedParent, timedWait]
      split
      · split
        · split <;> exact bounded
        · split <;> exact bounded
        · exact parentStep_bounded bounded
      · exact parentStep_bounded bounded

theorem run_valid (scene : Scene) (schedule : List TimedTurn) : scene.Valid (scene.run schedule) :=
  Steps.run_always scene.Valid turn_valid (start_valid scene) schedule

/-- How many turns of the call are left at most, once no sleep can begin any more. -/
def remaining (scene : Scene) (s : TimedSystem) : Nat :=
  match s.system.phase, s.waiting with
  | .waiting, .checking => 1
  | .waiting, .polling => scene.size + 3
  | .waiting, .sleeping _ => scene.size + 4
  | .readingStdout _ _, _ => (s.system.pipes .out).length + (s.system.pipes .err).length + 2
  | .readingStderr _ _ _, _ => (s.system.pipes .err).length + 1
  | .returned _, _ | .failed _, _ => 0

/-- The last wake has come. -/
def Late (scene : Scene) (s : TimedSystem) : Prop := scene.Valid s ∧ scene.lastWake ≤ s.now

/-- A child that writes more than its pipe holds, and a call that waits for it for 30 ms. -/
def overfullScene : Scene where
  setting := twoBytes
  spawned := someProcess
  writes := overfull
  call := { timeout := 30, sleepinterval := none }
  began := 0

example : (overfullScene.run [.child 1, .child 0, .parent, .child 3, .pass 25, .parent, .parent, .parent, .pass 25, .parent,
    .parent, .parent]).system.phase matches .failed _ := by
  decide +kernel

end Ltf.Proofs.ProcTimed
