import Ltf.Base.Steps
import Ltf.ProcRun

/-! `M.run` asks whether the child has exited until it has, and reads only then. What is
in the pipes and what is still to be written is all the child ever writes. -/

namespace Ltf.Proofs.ProcRun
open CString Descriptors Proc

/-- What some writes hold for a stream. -/
def written (writes : List (Stream × List UInt8)) (stream : Stream) : List UInt8 :=
  writes.flatMap fun (other, bytes) => if other = stream then bytes else []

def pending : Child → Stream → List UInt8
  | .running writes, stream => written writes stream
  | .exited, _ => []

/-- The userdata of a process that was spawned, with its streams. -/
structure Spawned where
  proc : LModuleProc
  table : Table Owner
  alive : 0 < proc.pid
  out : proc.outFile.isSome
  err : proc.errFile.isSome

/-- A spawn without an error gives one, for the process it has started. -/
theorem spawn_spawned {choice : SpawnChoice} {owner : Owner} {before table : Table Owner} {proc : LModuleProc}
    (ran : spawnStreams choice owner before = (proc, table, none)) (alive : 0 < proc.pid) :
    ∃ spawned : Spawned, spawned.proc = proc ∧ spawned.table = table := by
  unfold spawnStreams at ran
  generalize openPipes choice owner {} before = opened at ran
  obtain ⟨piped, p, t⟩ := opened
  cases piped with
  | false => simp at ran
  | true =>
    cases started : choice.spawned with
    | error err => simp [started] at ran
    | ok pid =>
      simp only [started, Bool.not_true, Bool.false_eq_true, if_false] at ran
      split at ran
      next => simp at ran
      next opened =>
        simp only [Bool.or_eq_true, not_or, Option.isNone_iff_eq_none] at opened
        cases ran
        exact ⟨⟨_, _, alive, Option.isSome_iff_ne_none.mpr opened.1.2, Option.isSome_iff_ne_none.mpr opened.2⟩, rfl, rfl⟩

def Spawned.start (spawned : Spawned) (writes : List (Stream × List UInt8)) : System :=
  { child := .running writes, proc := spawned.proc, table := spawned.table }

/-- The child waits for room in a pipe that is full, and `M.run` for the child to exit. -/
def Deadlocked (setting : Setting) (s : System) : Prop :=
  s.phase = .waiting ∧ ∃ stream byte bytes writes, s.child = .running ((stream, byte :: bytes) :: writes) ∧
    setting.capacity stream ≤ (s.pipes stream).length

/-- The result has what was written to each stream. -/
def Complete (writes : List (Stream × List UInt8)) (result : RunResult) : Prop :=
  result.stdout = .string (written writes .out) ∧ result.stderr = .string (written writes .err)

/-- No schedule leads to a deadlock, and what is returned is complete. -/
def Faithful (setting : Setting) (spawned : Spawned) (writes : List (Stream × List UInt8)) : Prop :=
  ∀ schedule, ¬ Deadlocked setting (turns setting (spawned.start writes) schedule) ∧
    ∀ result, (turns setting (spawned.start writes) schedule).phase = .returned result → Complete writes result

/-- Nothing is lost on the way from the child to the result. -/
def Kept (writes : List (Stream × List UInt8)) (s : System) : Prop :=
  match s.phase with
  | .waiting => 0 < s.proc.pid ∧ s.proc.outFile.isSome ∧ s.proc.errFile.isSome ∧
      ∀ stream, s.pipes stream ++ pending s.child stream = written writes stream
  | .readingStdout _ buffer => s.child = .exited ∧ s.proc.pid = 0 ∧ s.proc.outFile.isSome ∧ s.proc.errFile.isSome ∧
      buffer ++ s.pipes .out = written writes .out ∧ s.pipes .err = written writes .err
  | .readingStderr _ stdout buffer => s.child = .exited ∧ s.proc.pid = 0 ∧ s.proc.errFile.isSome ∧
      stdout = .string (written writes .out) ∧ buffer ++ s.pipes .err = written writes .err
  | .returned result => Complete writes result
  | .failed _ => False

variable {setting : Setting} {writes : List (Stream × List UInt8)} {s : System}

theorem start_kept (spawned : Spawned) (writes : List (Stream × List UInt8)) : Kept writes (spawned.start writes) :=
  ⟨spawned.alive, spawned.out, spawned.err, fun _ => rfl⟩

theorem childStep_phase (capacity : Stream → Nat) (count : Nat) (s : System) :
    (childStep capacity count s).phase = s.phase := by
  unfold childStep
  split <;> rfl

/-- A step of the child moves bytes from what is pending to the end of a pipe. -/
theorem childStep_moves (capacity : Stream → Nat) (count : Nat) (s : System) (stream : Stream) :
    (childStep capacity count s).pipes stream ++ pending (childStep capacity count s).child stream =
      s.pipes stream ++ pending s.child stream := by
  unfold childStep
  split
  next idle => rw [idle]; rfl
  next idle => rw [idle]; simp [pending, written]
  next other bytes rest nonempty busy =>
    rw [busy]
    by_cases same : stream = other
    · subst same
      simp only [System.pipe, pending, written, List.flatMap_cons, if_true, List.append_assoc]
      rw [← List.append_assoc (List.take _ _), List.take_append_drop]
    · simp [System.pipe, pending, written, same, Ne.symm same]
  next => rfl

theorem childStep_kept (capacity : Stream → Nat) (count : Nat) (kept : Kept writes s) :
    Kept writes (childStep capacity count s) := by
  have phase := childStep_phase capacity count s
  have moves := childStep_moves capacity count s
  unfold Kept at kept ⊢
  rw [phase]
  split at kept
  next =>
    obtain ⟨alive, out, err, whole⟩ := kept
    have same : (childStep capacity count s).proc = s.proc := by unfold childStep; split <;> rfl
    rw [same]
    exact ⟨alive, out, err, fun stream => (moves stream).trans (whole stream)⟩
  next =>
    have settled : childStep capacity count s = s := by rw [childStep, kept.1]
    rwa [settled]
  next =>
    have settled : childStep capacity count s = s := by rw [childStep, kept.1]
    rwa [settled]
  next => exact kept
  next => exact kept

theorem waits_kept (kept : Kept writes s) (phase : s.phase = .waiting) :
    Kept writes (parentStep setting.owner setting.code s) := by
  unfold Kept at kept
  rw [phase] at kept
  obtain ⟨alive, out, err, whole⟩ := kept
  have busy : s.proc.pid ≠ 0 := by omega
  cases child : s.child with
  | running writes =>
    simp only [parentStep, phase, child, Child.found, lModuleProcWait, busy, if_false, System.reply, if_true]
    exact ⟨alive, out, err, by simpa [child] using whole⟩
  | exited =>
    have all : ∀ stream, s.pipes stream = written writes stream := by simpa [child, pending] using whole
    simp only [parentStep, phase, child, Child.found, lModuleProcWait, busy, if_false, System.reply, reduceCtorEq]
    exact ⟨rfl, rfl, out, err, all .out, all .err⟩

theorem stdout_kept (kept : Kept writes s) {status : LuaValue} {buffer : List UInt8}
    (phase : s.phase = .readingStdout status buffer) : Kept writes (parentStep setting.owner setting.code s) := by
  unfold Kept at kept
  rw [phase] at kept
  obtain ⟨child, pid, out, err, whole, rest⟩ := kept
  simp only [parentStep, phase, drainStep, child]
  cases left : s.pipes .out with
  | nil =>
    obtain ⟨number, file⟩ := Option.isSome_iff_exists.mp out
    rw [left, List.append_nil] at whole
    have which : streamOf (some (.lit "stdout")) = .ok .out := rfl
    simp only [endOfStdout, lModuleProcRead, which, LModuleProc.file, file, pid, if_true, System.reply]
    exact ⟨child, pid, err, by rw [whole], rest⟩
  | cons byte bytes =>
    refine ⟨child, pid, out, err, ?_, rest⟩
    rw [left] at whole
    simpa [System.pipe] using whole

theorem stderr_kept (kept : Kept writes s) {status stdout : LuaValue} {buffer : List UInt8}
    (phase : s.phase = .readingStderr status stdout buffer) :
    Kept writes (parentStep setting.owner setting.code s) := by
  unfold Kept at kept
  rw [phase] at kept
  obtain ⟨child, pid, err, first, whole⟩ := kept
  simp only [parentStep, phase, drainStep, child]
  cases left : s.pipes .err with
  | nil =>
    obtain ⟨number, file⟩ := Option.isSome_iff_exists.mp err
    rw [left, List.append_nil] at whole
    have which : streamOf (some (.lit "stderr")) = .ok .err := rfl
    simp only [endOfStderr, lModuleProcRead, which, LModuleProc.file, file, pid, if_true, lModuleProcKill,
      lModuleProcWait, procCloseStreams, LModuleProc.dropFile, System.reply]
    exact ⟨first, by rw [whole]⟩
  | cons byte bytes =>
    refine ⟨child, pid, err, first, ?_⟩
    rw [left] at whole
    simpa [System.pipe] using whole

theorem turn_kept (kept : Kept writes s) (next : Turn) : Kept writes (turn setting s next) := by
  cases next with
  | child count => exact childStep_kept setting.capacity count kept
  | parent =>
    cases phase : s.phase with
    | waiting => exact waits_kept kept phase
    | readingStdout => exact stdout_kept kept phase
    | readingStderr => exact stderr_kept kept phase
    | returned | failed =>
      have settled : turn setting s .parent = s := by simp only [turn, parentStep, phase]
      rwa [settled]

theorem run_kept (setting : Setting) (spawned : Spawned) (writes : List (Stream × List UInt8)) (schedule : List Turn) :
    Kept writes (turns setting (spawned.start writes) schedule) :=
  Steps.run_always (Kept writes) (fun _ next kept => turn_kept kept next) (start_kept spawned writes) schedule

/-- No pipe holds more than it can. -/
def Bounded (setting : Setting) (s : System) : Prop :=
  ∀ stream, (s.pipes stream).length ≤ setting.capacity stream

theorem childStep_bounded (count : Nat) (bounded : Bounded setting s) :
    Bounded setting (childStep setting.capacity count s) := by
  unfold childStep
  split
  next => exact bounded
  next => exact bounded
  next other bytes rest _ _ =>
    intro stream
    have before := bounded stream
    by_cases same : stream = other
    · subst same
      simp only [System.pipe, if_true, List.length_append, List.length_take]
      omega
    · simpa only [System.pipe, same, if_false] using before
  next => exact bounded

theorem parentStep_bounded (bounded : Bounded setting s) :
    Bounded setting (parentStep setting.owner setting.code s) := by
  have drained : ∀ which more done buffer, (∀ s, (done s).pipes = s.pipes) →
      Bounded setting (drainStep which s more done buffer) := by
    intro which more done buffer quiet
    unfold drainStep
    split
    next => exact bounded
    next =>
      intro stream
      rw [quiet]
      exact bounded stream
    next =>
      intro stream
      have before := bounded stream
      by_cases same : stream = which
      · subst same
        simp only [System.pipe, if_true, List.length_drop]
        omega
      · simpa only [System.pipe, same, if_false] using before
  have replied : ∀ (s : System) reply next, (s.reply reply next).pipes = s.pipes := by
    intro s reply next
    unfold System.reply
    split <;> rfl
  unfold parentStep
  split
  next =>
    intro stream
    rw [replied]
    exact bounded stream
  next =>
    apply drained
    intro s
    rw [endOfStdout, replied]
  next =>
    apply drained
    intro s
    unfold endOfStderr
    dsimp only
    split
    · rfl
    · rw [replied]
  next => exact bounded
  next => exact bounded

theorem run_bounded (spawned : Spawned) (schedule : List Turn) :
    Bounded setting (turns setting (spawned.start writes) schedule) := by
  apply Steps.run_always (Bounded setting)
  · intro s next bounded
    cases next with
    | child count => exact childStep_bounded count bounded
    | parent => exact parentStep_bounded bounded
  · exact fun _ => Nat.zero_le _

/-- A child that is left alone is over with its writes in the end, or it is stuck. -/
theorem child_alone (setting : Setting) (writes : List (Stream × List UInt8)) {s : System} (phase : s.phase = .waiting)
    (child : s.child = .running writes) :
    ∃ schedule, Deadlocked setting (turns setting s schedule) ∨
      (turns setting s schedule).phase = .waiting ∧ (turns setting s schedule).child = .running [] := by
  induction writes generalizing s with
  | nil => exact ⟨[], .inr ⟨phase, child⟩⟩
  | cons write writes ih =>
    obtain ⟨stream, bytes⟩ := write
    have drained : ∀ {s : System}, s.phase = .waiting → s.child = .running ((stream, []) :: writes) →
        ∃ schedule, Deadlocked setting (turns setting s schedule) ∨
          (turns setting s schedule).phase = .waiting ∧ (turns setting s schedule).child = .running [] := by
      intro s phase child
      have next : turn setting s (.child 0) = { s with child := .running writes } := by
        simp only [turn, childStep, child]
      obtain ⟨schedule, ends⟩ := ih (s := turn setting s (.child 0)) (by rw [next]; exact phase) (by rw [next])
      exact ⟨.child 0 :: schedule, ends⟩
    cases bytes with
    | nil => exact drained phase child
    | cons byte bytes =>
      let moved := min (bytes.length + 1) (setting.capacity stream - (s.pipes stream).length)
      have next : turn setting s (.child (bytes.length + 1)) =
          { s.pipe stream (s.pipes stream ++ (byte :: bytes).take moved) with
            child := .running ((stream, (byte :: bytes).drop moved) :: writes) } := by
        simp only [turn, childStep, child]
        rfl
      cases rest : (byte :: bytes).drop moved with
      | nil =>
        rw [rest] at next
        obtain ⟨schedule, ends⟩ := drained (s := turn setting s (.child (bytes.length + 1))) (by rw [next]; exact phase)
          (by rw [next])
        exact ⟨.child (bytes.length + 1) :: schedule, ends⟩
      | cons left lefts =>
        refine ⟨[.child (bytes.length + 1)], .inl ⟨?_, stream, left, lefts, writes, ?_, ?_⟩⟩
        · rw [turns, List.foldl_cons, List.foldl_nil, next]
          exact phase
        · rw [turns, List.foldl_cons, List.foldl_nil, next, rest]
        · have some_left : moved < bytes.length + 1 := by
            have length := congrArg List.length rest
            simp at length
            omega
          rw [turns, List.foldl_cons, List.foldl_nil, next]
          simp only [System.pipe, if_true, List.length_append, List.length_take, List.length_cons]
          omega

/-- `M.run` is faithful exactly when each pipe has room for all that is ever written to it. -/
theorem run_faithful_iff (setting : Setting) (spawned : Spawned) (writes : List (Stream × List UInt8)) :
    Faithful setting spawned writes ↔ ∀ stream, (written writes stream).length ≤ setting.capacity stream := by
  constructor
  · intro faithful stream
    obtain ⟨schedule, stuck | ⟨phase, child⟩⟩ := child_alone setting writes (s := spawned.start writes) rfl rfl
    · exact absurd stuck (faithful schedule).1
    have kept := run_kept setting spawned writes schedule
    rw [Kept, phase] at kept
    have whole := kept.2.2.2 stream
    rw [child] at whole
    have all : (turns setting (spawned.start writes) schedule).pipes stream = written writes stream := by
      simpa [pending, written] using whole
    rw [← all]
    exact run_bounded spawned schedule stream
  · intro fits schedule
    have kept := run_kept setting spawned writes schedule
    constructor
    · rintro ⟨phase, stream, byte, bytes, rest, child, full⟩
      rw [Kept, phase] at kept
      have whole := congrArg List.length (kept.2.2.2 stream)
      rw [child] at whole
      simp [pending, written] at whole
      have room := fits stream
      simp [written] at room
      omega
    · intro result phase
      rw [Kept, phase] at kept
      exact kept

/-- A child that writes one byte more than a pipe can hold. -/
def overfull : List (Stream × List UInt8) := [(.err, [101]), (.out, [97, 98, 99])]

def someProcess : Spawned where
  proc := { pid := 7, inFile := some 3, outFile := some 4, errFile := some 5 }
  table := {}
  alive := by decide
  out := rfl
  err := rfl

def twoBytes : Setting where
  capacity := fun _ => 2
  owner := .handle 0
  code := 0

theorem overfull_deadlocked : ¬ Faithful twoBytes someProcess overfull := by
  intro faithful
  apply (faithful [.child 1, .child 0, .parent, .child 3]).1
  exact ⟨rfl, .out, 99, [], [], rfl, Nat.le_refl 2⟩

end Ltf.Proofs.ProcRun
