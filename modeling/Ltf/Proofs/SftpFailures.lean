import Ltf.Proofs.SftpSend

/-! What a transfer leaves behind that fails. -/

namespace Ltf.Proofs.SftpFailures
open Ltf.Sftp CString Steps SftpSend
open Ssh (LSftpSession)

def Failed (t : Transfer) : Prop := (∃ err, t.phase = .raised err) ∨ ∃ message, t.phase = .refused message

/-- No handle is left: a session that is there can open a file, and is really shut down. -/
structure Released (u : LSftpSession) : Prop where
  closed : u.sftpHandle = none
  opens : u.sftpSession.isSome → u.session.isSome → ∀ filename mode handle,
    lModuleSshSftpOpen (.value filename) (.value mode) (.ok handle) u = ({ u with sftpHandle := some handle }, .ok ())
  shuts : u.sftpSession.isSome → u.session.isSome → (lModuleSshSftpShutdown u).sftpSession = none

def RemoteOpens (setting : Setting) : Prop :=
  (lModuleSshSftpOpen setting.opts.remoteFile (.value 0) setting.server.openFile setting.u).2 = .ok ()

/-- What is promised of a transfer that fails, and of a receive that cannot open its remote file. -/
structure Restores (setting : Setting) (direction : Direction) : Prop where
  released : ∀ n, Failed (turns setting direction n) → Released (turns setting direction n).u
  spared : direction = .receive → ¬ RemoteOpens setting → ∀ content, setting.localFile = some content →
    ∀ n, (turns setting direction n).localFile = some content

/-- The next read or write is not one that raises an error while the handle stays open. -/
def Accepts (setting : Setting) (t : Transfer) : Prop :=
  match t.phase with
  | .sending _ => ∃ n, chunkSize setting = .value n ∧ 0 ≤ n ∧ (n ≠ 0 → setting.system.allocates t.calls = true)
  | .writing _ chunk offset remaining => 0 < remaining → Passes (piece chunk offset remaining)
  | .receiving => ∃ n bytes, chunkSize setting = .value n ∧ 0 ≤ n ∧ setting.server.read t.calls = .bytes bytes
  | _ => True

structure Meets (setting : Setting) (direction : Direction) : Prop where
  fresh : setting.u.sftpHandle = none
  accepts : ∀ n, Accepts setting (turns setting direction n)
  /-- A local file that is opened for nothing has nothing in it. -/
  empty : direction = .receive → ¬ RemoteOpens setting → ∀ path, setting.opts.localFile = .value path →
    setting.system.openWrite path = .ok () → ∀ content, setting.localFile = some content → content = []

variable {setting : Setting} {direction : Direction} {t : Transfer} {u : LSftpSession}

theorem released (closed : u.sftpHandle = none) : Released u where
  closed := closed
  opens := by
    intro sftpSession session filename mode handle
    simp [lModuleSshSftpOpen, Option.isSome_iff_ne_none.mp sftpSession, Option.isSome_iff_ne_none.mp session, closed]
  shuts := by
    intro sftpSession session
    simp [lModuleSshSftpShutdown, Option.isSome_iff_ne_none.mp sftpSession, Option.isSome_iff_ne_none.mp session,
      closed]

/-- A call of `open` opens a handle, or it changes nothing and says why. -/
theorem open_cases (filename : TableField CStr) (mode : TableField Int) (handle : Except CStr Nat) (u : LSftpSession) :
    (∃ after, lModuleSshSftpOpen filename mode handle u = (after, .ok ()) ∧ Opened after ∧ u.sftpHandle = none) ∨
      ∃ err, lModuleSshSftpOpen filename mode handle u = (u, .error err) := by
  unfold lModuleSshSftpOpen
  split
  · exact .inr ⟨_, rfl⟩
  next sftpSession =>
    split
    · exact .inr ⟨_, rfl⟩
    next sftpHandle =>
      split
      · exact .inr ⟨_, rfl⟩
      next session =>
        split
        · exact .inr ⟨_, rfl⟩
        · exact .inr ⟨_, rfl⟩
        · exact .inr ⟨_, rfl⟩
        · refine .inl ⟨_, rfl, ⟨?_, rfl, ?_⟩, ?_⟩
          · simpa [Option.isSome_iff_ne_none] using sftpSession
          · simpa [Option.isSome_iff_ne_none] using session
          · simpa using sftpHandle

section Read
variable {size : TableField Int} {answer : ReadAnswer}

theorem read_same (size : TableField Int) (answer : ReadAnswer) (u : LSftpSession) :
    (lModuleSshSftpRead size answer u).1 = u := by
  unfold lModuleSshSftpRead
  split
  · rfl
  · rfl
  · split
    · rfl
    · dsimp only
      split <;> rfl

theorem read_bytes (opened : Opened u) {n : Int} (positive : 0 ≤ n) (bytes : List UInt8) :
    ∃ chunk, lModuleSshSftpRead (.value n) (.bytes bytes) u = (u, .ok chunk) := by
  simp only [lModuleSshSftpRead, opened.initialized, TableField.orElse_value, TableField.check_value,
    if_neg (Int.not_lt.mpr positive)]
  exact ⟨_, rfl⟩

theorem read_rejected (opened : Opened u) (given : size ≠ .nil)
    (rejected : ¬ ∃ n bytes, size = .value n ∧ 0 ≤ n ∧ answer = .bytes bytes) :
    ∃ err, lModuleSshSftpRead size answer u = (u, .error err) := by
  unfold lModuleSshSftpRead
  rw [opened.initialized]
  cases size with
  | nil => exact absurd rfl given
  | other => exact ⟨_, rfl⟩
  | value n =>
    simp only [TableField.orElse_value, TableField.check_value]
    split
    · exact ⟨_, rfl⟩
    next positive =>
      cases answer with
      | outOfMemory => exact ⟨_, rfl⟩
      | failed err => exact ⟨_, rfl⟩
      | bytes bytes => exact absurd ⟨n, bytes, rfl, Int.not_lt.mp positive, rfl⟩ rejected

end Read

section Start

/-- A transfer is in a loop with its handle open, or it failed at once and left the object alone. -/
def Begins (u : LSftpSession) (t : Transfer) : Prop :=
  (Opened t.u ∧ u.sftpHandle = none ∧ ¬ Failed t) ∨ (Failed t ∧ t.u = u)

theorem send_begins (setting : Setting) : Begins setting.u (startSend setting) := by
  unfold startSend sendOpen
  cases sendLocal setting.system setting.opts with
  | error err => exact .inr ⟨.inl ⟨err, rfl⟩, rfl⟩
  | ok content =>
    cases sendMode setting.server setting.opts setting.u with
    | error err => exact .inr ⟨.inl ⟨err, rfl⟩, rfl⟩
    | ok _ =>
      obtain ⟨after, opens, opened, fresh⟩ | ⟨err, refuses⟩ := open_cases setting.opts.remoteFile
        (setting.opts.filePermissions.orElse 420) setting.server.openFile setting.u
      · simp only [opens]
        exact .inl ⟨opened, fresh, by simp [Failed]⟩
      · simp only [refuses]
        exact .inr ⟨.inl ⟨err, rfl⟩, rfl⟩

theorem receive_begins (setting : Setting) : Begins setting.u (startReceive setting) := by
  unfold startReceive
  cases setting.opts.localFile.check with
  | error err => exact .inr ⟨.inl ⟨err, rfl⟩, rfl⟩
  | ok path =>
    dsimp only
    cases setting.system.openWrite path with
    | error oerr => exact .inr ⟨.inr ⟨_, rfl⟩, rfl⟩
    | ok _ =>
      obtain ⟨after, opens, opened, fresh⟩ | ⟨err, refuses⟩ := open_cases setting.opts.remoteFile (.value 0)
        setting.server.openFile setting.u
      · simp only [opens]
        exact .inl ⟨opened, fresh, by simp [Failed]⟩
      · simp only [refuses]
        exact .inr ⟨.inl ⟨err, rfl⟩, rfl⟩

theorem begins (setting : Setting) (direction : Direction) : Begins setting.u (start setting direction) := by
  cases direction with
  | send => exact send_begins setting
  | receive => exact receive_begins setting

end Start

section Steps

/-- In a loop the handle is open. -/
def Valid (t : Transfer) : Prop :=
  match t.phase with
  | .sending _ | .writing _ _ _ _ | .receiving => Opened t.u
  | _ => True

theorem Begins.valid (begins : Begins u t) : Valid t := by
  unfold Valid
  obtain ⟨opened, -⟩ | ⟨⟨err, phase⟩ | ⟨message, phase⟩, -⟩ := begins
  · split <;> first | exact opened | trivial
  · rw [phase]
    trivial
  · rw [phase]
    trivial

theorem failed_still (failed : Failed t) : step setting t = t := by
  obtain ⟨err, phase⟩ | ⟨message, phase⟩ := failed <;> simp only [step, phase]

theorem step_valid (valid : Valid t) : Valid (step setting t) := by
  unfold Valid at valid
  cases phase : t.phase with
  | sending rest =>
    rw [phase] at valid
    simp only [step, phase, sendStep]
    split
    · trivial
    · trivial
    · exact valid
  | writing rest chunk offset remaining =>
    rw [phase] at valid
    simp only [step, phase, writeStep]
    split
    · split
      next => trivial
      next ran =>
        obtain ⟨rfl, -⟩ := write_ok ran
        exact valid
    · exact valid
  | receiving =>
    rw [phase] at valid
    simp only [step, phase, receiveStep]
    split
    next => trivial
    next u chunk ran =>
      split
      · trivial
      · obtain rfl : t.u = u := (read_same _ _ _).symm.trans (congrArg Prod.fst ran)
        unfold Valid
        exact valid
  | returned => simp only [step, phase, Valid]
  | refused message => simp only [step, phase, Valid]
  | raised err => simp only [step, phase, Valid]

theorem fRead_value {n : Int} {allocates : Bool} (positive : 0 ≤ n) (memory : n ≠ 0 → allocates = true) (fails : Bool)
    (rest : List UInt8) : ∃ chunk, fRead allocates fails (.value n) rest = .ok chunk := by
  have fits : ¬ (n < 0 ∨ (n ≠ 0 ∧ allocates = false)) := by
    rintro (negative | ⟨some, refused⟩)
    · exact Int.not_lt.mpr positive negative
    · cases (memory some).symm.trans refused
  simp only [fRead, TableField.check_value, bind_of_ok rfl, if_neg fits]
  split <;> exact ⟨_, rfl⟩

/-- A step that is accepted leaves no handle if it fails. -/
theorem step_accepted (valid : Valid t) (accepts : Accepts setting t) (closed : Failed t → t.u.sftpHandle = none)
    (failed : Failed (step setting t)) : (step setting t).u.sftpHandle = none := by
  unfold Accepts at accepts
  unfold Valid at valid
  cases phase : t.phase with
  | sending rest =>
    rw [phase] at accepts
    obtain ⟨n, chunkSize, positive, memory⟩ := accepts
    obtain ⟨chunk, read⟩ := fRead_value positive memory (setting.system.readFails t.calls) rest
    simp only [step, phase, sendStep, chunkSize, read] at failed
    cases chunk <;> simp [Failed] at failed
  | writing rest chunk offset remaining =>
    rw [phase] at valid accepts
    simp only [step, phase, writeStep] at failed ⊢
    split
    next more =>
      have passes := accepts more
      cases answer : setting.server.write t.calls with
      | error err =>
        obtain ⟨message, fails⟩ := write_fails valid passes err
        simp only [fails]
      | ok n => simp [more, answer, write_passes valid passes, Failed] at failed
    next done => simp [done, Failed] at failed
  | receiving =>
    rw [phase] at valid accepts
    obtain ⟨n, bytes, chunkSize, positive, answer⟩ := accepts
    obtain ⟨chunk, read⟩ := read_bytes valid positive bytes
    simp only [step, phase, receiveStep, chunkSize, answer, read] at failed
    split at failed <;> simp [Failed] at failed
  | returned =>
    simp only [step, phase] at failed ⊢
    exact closed failed
  | refused message =>
    simp only [step, phase] at failed ⊢
    exact closed failed
  | raised err =>
    simp only [step, phase] at failed ⊢
    exact closed failed

theorem chunkSize_given (setting : Setting) : chunkSize setting ≠ .nil := by
  unfold chunkSize
  cases setting.opts.chunkSize <;> exact nofun

theorem step_rejected (valid : Valid t) (rejected : ¬ Accepts setting t) :
    Failed (step setting t) ∧ (step setting t).u.sftpHandle.isSome := by
  unfold Accepts at rejected
  unfold Valid at valid
  cases phase : t.phase with
  | sending rest =>
    rw [phase] at valid rejected
    have raises : ∃ err, fRead (setting.system.allocates t.calls) (setting.system.readFails t.calls) (chunkSize setting)
        rest = .error err := by
      cases given : chunkSize setting with
      | nil => exact absurd given (chunkSize_given setting)
      | other => exact ⟨_, rfl⟩
      | value n =>
        have refused : n < 0 ∨ (n ≠ 0 ∧ setting.system.allocates t.calls = false) := by
          obtain negative | positive := Int.lt_or_le n 0
          · exact .inl negative
          · refine .inr ⟨fun zero => rejected ⟨n, given, positive, fun some => absurd zero some⟩, ?_⟩
            exact Bool.eq_false_iff.mpr fun memory => rejected ⟨n, given, positive, fun _ => memory⟩
        simp only [fRead, TableField.check_value, bind_of_ok rfl, if_pos refused]
        exact ⟨_, rfl⟩
    obtain ⟨err, raises⟩ := raises
    simp only [step, phase, sendStep, raises]
    exact ⟨.inl ⟨err, rfl⟩, valid.sftpHandle⟩
  | writing rest chunk offset remaining =>
    rw [phase] at valid rejected
    simp only [Classical.not_imp] at rejected
    obtain ⟨err, raises⟩ := write_rejected valid rejected.2 (setting.server.write t.calls)
    simp only [step, phase, writeStep, if_pos rejected.1, raises]
    exact ⟨.inl ⟨err, rfl⟩, valid.sftpHandle⟩
  | receiving =>
    rw [phase] at valid rejected
    obtain ⟨err, raises⟩ := read_rejected valid (chunkSize_given setting) rejected
    simp only [step, phase, receiveStep, raises]
    exact ⟨.inl ⟨err, rfl⟩, valid.sftpHandle⟩
  | returned | refused message | raised err =>
    rw [phase] at rejected
    exact absurd trivial rejected

end Steps

theorem turns_succ (setting : Setting) (direction : Direction) (n : Nat) :
    turns setting direction (n + 1) = step setting (turns setting direction n) :=
  Function.iterate_succ_apply' (step setting) n (start setting direction)

theorem turns_valid (setting : Setting) (direction : Direction) (n : Nat) : Valid (turns setting direction n) :=
  iterate_always Valid (fun _ => step_valid) (begins setting direction).valid n

theorem Meets.closed (meets : Meets setting direction) (n : Nat) (failed : Failed (turns setting direction n)) :
    (turns setting direction n).u.sftpHandle = none := by
  induction n with
  | zero =>
    obtain ⟨-, -, busy⟩ | ⟨-, same⟩ := begins setting direction
    · exact absurd failed busy
    · exact (congrArg _ same).trans meets.fresh
  | succ n ih =>
    rw [turns_succ] at failed ⊢
    exact step_accepted (turns_valid setting direction n) (meets.accepts n) ih failed

theorem turns_failed (failed : Failed (start setting direction)) (n : Nat) :
    turns setting direction n = start setting direction := by
  induction n with
  | zero => rfl
  | succ n ih => rw [turns_succ, ih, failed_still failed]

/-- Without the remote file there is nothing in the local file that was opened for it. -/
theorem receive_missing (missing : ¬ RemoteOpens setting) {path : CStr} (named : setting.opts.localFile = .value path)
    (opens : setting.system.openWrite path = .ok ()) :
    Failed (start setting .receive) ∧ (start setting .receive).localFile = some [] := by
  obtain ⟨after, remote, -⟩ | ⟨err, refuses⟩ := open_cases setting.opts.remoteFile (.value 0) setting.server.openFile
    setting.u
  · exact absurd (congrArg Prod.snd remote) missing
  · refine ⟨.inl ⟨err, ?_⟩, ?_⟩ <;> simp only [start, startReceive, named, TableField.check_value, opens, refuses]

theorem receive_unopened
    (closed : ∀ path, setting.opts.localFile = .value path → setting.system.openWrite path ≠ .ok ()) :
    Failed (start setting .receive) ∧ (start setting .receive).localFile = setting.localFile := by
  unfold start startReceive
  cases named : setting.opts.localFile with
  | nil | other => exact ⟨.inl ⟨_, rfl⟩, rfl⟩
  | value path =>
    simp only [TableField.check_value]
    cases opens : setting.system.openWrite path with
    | error oerr => exact ⟨.inr ⟨_, rfl⟩, rfl⟩
    | ok _ => exact absurd opens (closed path named)

theorem Meets.spared (meets : Meets setting .receive) (missing : ¬ RemoteOpens setting) {content : List UInt8}
    (known : setting.localFile = some content) (n : Nat) : (turns setting .receive n).localFile = some content := by
  by_cases opened : ∃ path, setting.opts.localFile = .value path ∧ setting.system.openWrite path = .ok ()
  · obtain ⟨path, named, opens⟩ := opened
    obtain ⟨failed, emptied⟩ := receive_missing missing named opens
    rw [turns_failed failed, meets.empty rfl missing path named opens content known]
    exact emptied
  · simp only [not_exists, not_and] at opened
    obtain ⟨failed, same⟩ := receive_unopened opened
    rw [turns_failed failed]
    exact same.trans known

theorem Restores.fresh (restores : Restores setting direction) : setting.u.sftpHandle = none := by
  obtain ⟨-, fresh, -⟩ | ⟨failed, same⟩ := begins setting direction
  · exact fresh
  · rw [← same]
    exact (restores.released 0 failed).closed

/-- Exactly when no handle is left from before, every read and write that is made meanwhile
is one that may fail, and no local file with content is opened for nothing. -/
theorem restores_iff (setting : Setting) (direction : Direction) :
    Restores setting direction ↔ Meets setting direction := by
  constructor
  · intro restores
    refine ⟨restores.fresh, ?_, ?_⟩
    · intro n
      by_contra rejected
      obtain ⟨failed, left⟩ := step_rejected (turns_valid setting direction n) rejected
      rw [← turns_succ] at failed left
      rw [(restores.released _ failed).closed] at left
      cases left
    · intro receives missing path named opens content known
      subst receives
      have emptied := (receive_missing missing named opens).2
      have same := restores.spared rfl missing content known 0
      exact (Option.some.inj (emptied.symm.trans same)).symm
  · intro meets
    refine ⟨fun n failed => released (meets.closed n failed), ?_⟩
    intro receives missing content known n
    subst receives
    exact meets.spared missing known n

/-- A receive of three bytes that a failed read ends, and one of a file that is not there. -/
def download (openFile : Except CStr Nat) : Setting where
  system := {
    fileInfo := fun _ => .ok none
    resolveSymlink := fun _ => .ok none
    openRead := fun _ => .error (.lit "")
    openWrite := fun _ => .ok () }
  server := {
    fileInfo := .ok true
    openFile
    write := fun _ => .ok 1
    read := fun _ => .failed (.lit "-7: LIBSSH2_ERROR_SOCKET_SEND") }
  opts := { localFile := .value (.lit "log.txt"), remoteFile := .value (.lit "/var/log/messages") }
  u := { sftpSession := some 0, session := some 0 }
  localFile := some [111, 108, 100]

/-- The second byte of a file is NUL, a read fails, or the remote file is not there. A handle
that is left keeps the session from being shut down. -/
theorem failures_remain :
    (¬ Restores (upload [104, 0, 105]) .send ∧
      lModuleSshSftpShutdown (turns (upload [104, 0, 105]) .send 2).u = (turns (upload [104, 0, 105]) .send 2).u) ∧
    (¬ Restores (download (.ok 0)) .receive ∧
      lModuleSshSftpShutdown (turns (download (.ok 0)) .receive 1).u = (turns (download (.ok 0)) .receive 1).u) ∧
    (¬ Restores (download (.error (.lit "UNKNOWN"))) .receive ∧
      (turns (download (.error (.lit "UNKNOWN"))) .receive 0).localFile = some []) := by
  refine ⟨⟨?_, rfl⟩, ⟨?_, rfl⟩, ?_, rfl⟩
  · intro restores
    exact nomatch (restores.released 2 (.inl ⟨_, rfl⟩)).closed
  · intro restores
    exact nomatch (restores.released 1 (.inl ⟨_, rfl⟩)).closed
  · intro restores
    exact nomatch restores.spared rfl nofun _ rfl 0

end Ltf.Proofs.SftpFailures
