import Ltf.Base.Steps
import Ltf.Sftp

/-! What reaches the server of a file that is sent, in chunks and pieces of chunks. -/

namespace Ltf.Proofs.SftpSend
open Ltf.Sftp CString Steps
open Ssh (LSftpSession)

/-- There is an SFTP session with a handle. -/
structure Opened (u : LSftpSession) : Prop where
  sftpSession : u.sftpSession.isSome
  sftpHandle : u.sftpHandle.isSome
  session : u.session.isSome

/-- The other system calls of a send of a regular file succeed, and each write of the
server takes a part of what it is offered. -/
structure Uploads (setting : Setting) (content : List UInt8) (size : Nat) : Prop where
  nonempty : content ≠ []
  positive : 0 < size
  chunkSize : chunkSize setting = .value size
  localFile : ∃ path info, setting.opts.localFile = .value path ∧ setting.system.fileInfo path = .ok (some info) ∧
    info.type = .lit "file" ∧ info.size = content.length ∧ setting.system.openRead path = .ok content
  allocates : ∀ k, setting.system.allocates k = true
  reads : ∀ k, setting.system.readFails k = false
  mode : setting.opts.mode = .value (.lit "overwrite") ∨
    setting.opts.mode.orElse (.lit "create") = .value (.lit "create") ∧ setting.server.fileInfo = .ok false
  remoteFile : ∃ path, setting.opts.remoteFile = .value path
  filePermissions : setting.opts.filePermissions ≠ .other
  openFile : ∃ handle, setting.server.openFile = .ok handle
  sftpSession : setting.u.sftpSession.isSome
  sftpHandle : setting.u.sftpHandle = none
  session : setting.u.session.isSome
  writes : ∀ k, ∃ n, setting.server.write k = .ok n ∧ 0 < n

/-- The send returns, and the server has taken the content of the file. -/
def Completes (setting : Setting) (content : List UInt8) : Prop :=
  ∃ n, (turns setting .send n).phase = .returned ∧ (turns setting .send n).accepted = content

variable {setting : Setting} {content rest chunk p : List UInt8} {size offset remaining : Nat} {t : Transfer}
  {u : LSftpSession} {answer : Except CStr Nat}

section Start

theorem uploads_start (uploads : Uploads setting content size) :
    (start setting .send).phase = .sending content ∧ Opened (start setting .send).u ∧
      (start setting .send).accepted = [] := by
  obtain ⟨path, info, named, found, type, length, opens⟩ := uploads.localFile
  obtain ⟨remote, remoteFile⟩ := uploads.remoteFile
  obtain ⟨handle, openFile⟩ := uploads.openFile
  have sftpSession := uploads.sftpSession
  have session := uploads.session
  have file : sendLocal setting.system setting.opts = .ok content := by
    have regular : info.type ≠ .lit "symlink" ∧ info.type ≠ .lit "directory" := by
      rw [type]
      decide
    have size : info.size ≠ 0 := by
      rw [length]
      simpa using uploads.nonempty
    simp [sendLocal, named, found, sendPath, regular, size, opens, bind, Except.bind, pure, Except.pure]
  have mode : sendMode setting.server setting.opts setting.u = .ok () := by
    have other : CStr.lit "overwrite" ≠ .lit "create" := by decide
    obtain overwrite | ⟨create, missing⟩ := uploads.mode
    · simp [sendMode, overwrite, other, bind, Except.bind, pure, Except.pure]
    · simp [sendMode, create, lModuleSshSftpFileInfo, remoteFile, missing, Option.isSome_iff_ne_none.mp sftpSession,
        bind, Except.bind, pure, Except.pure]
  have opened : lModuleSshSftpOpen setting.opts.remoteFile (setting.opts.filePermissions.orElse 420)
      setting.server.openFile setting.u = ({ setting.u with sftpHandle := some handle }, .ok ()) := by
    have permissions : ∃ mode, (setting.opts.filePermissions.orElse 420).check = .ok mode := by
      have taken := uploads.filePermissions
      cases given : setting.opts.filePermissions with
      | nil => exact ⟨420, rfl⟩
      | value mode => exact ⟨mode, rfl⟩
      | other => exact absurd given taken
    obtain ⟨mode, permissions⟩ := permissions
    simp [lModuleSshSftpOpen, Option.isSome_iff_ne_none.mp sftpSession, Option.isSome_iff_ne_none.mp session,
      uploads.sftpHandle, remoteFile, permissions, openFile]
  have ready : start setting .send = {
      u := { setting.u with sftpHandle := some handle }
      localFile := setting.localFile
      phase := .sending content } := by
    simp [start, startSend, sendOpen, file, mode, opened]
  rw [ready]
  exact ⟨rfl, ⟨sftpSession, rfl, session⟩, rfl⟩

end Start

section Write

/-- A piece that the check of `l_module_ssh_sftp_write` lets through. -/
def Passes (p : List UInt8) : Prop := 0 ≤ toInt p.length ∧ (toInt p.length).toNat ≤ strlen p

theorem Opened.initialized (opened : Opened u) (function : String) : Sftp.initialized function u = .ok () := by
  simp [Sftp.initialized, Option.isSome_iff_ne_none.mp opened.sftpSession,
    Option.isSome_iff_ne_none.mp opened.sftpHandle, Option.isSome_iff_ne_none.mp opened.session]

theorem write_passes (opened : Opened u) (passes : Passes p) (n : Nat) :
    lModuleSshSftpWrite p p.length (.ok n) u = (u, .ok (min n (toInt p.length).toNat)) := by
  simp [lModuleSshSftpWrite, opened.initialized, Int.not_lt.mpr passes.1, Nat.not_lt.mpr passes.2]

theorem write_fails (opened : Opened u) (passes : Passes p) (err : CStr) :
    ∃ message, lModuleSshSftpWrite p p.length (.error err) u = ({ u with sftpHandle := none }, .error message) := by
  simp only [lModuleSshSftpWrite, opened.initialized, if_neg (Int.not_lt.mpr passes.1),
    if_neg (Nat.not_lt.mpr passes.2)]
  exact ⟨_, rfl⟩

theorem write_rejected (opened : Opened u) (rejected : ¬ Passes p) (answer : Except CStr Nat) :
    ∃ err, lModuleSshSftpWrite p p.length answer u = (u, .error err) := by
  unfold lModuleSshSftpWrite
  rw [opened.initialized]
  dsimp only
  split
  · exact ⟨_, rfl⟩
  next positive =>
    rw [if_pos (Nat.not_le.mp fun long => rejected ⟨Int.not_lt.mp positive, long⟩)]
    exact ⟨_, rfl⟩

theorem strlen_eq (clean : (0 : UInt8) ∉ p) : strlen p = p.length := by
  rw [strlen, List.takeWhile_eq_self_iff.mpr]
  intro byte inside
  exact decide_eq_true fun zero => clean (zero ▸ inside)

theorem passes_small (clean : (0 : UInt8) ∉ p) (small : p.length < 2147483648) : Passes p := by
  unfold Passes
  rw [toInt_of_lt small, strlen_eq clean]
  omega

/-- What is written has no NUL byte. -/
theorem passes_clean (passes : Passes p) (n : Nat) : (0 : UInt8) ∉ p.take (min n (toInt p.length).toNat) := by
  intro inside
  have before : p.take (min n (toInt p.length).toNat) <+: p.takeWhile (· ≠ 0) := by
    apply List.prefix_of_prefix_length_le (List.take_prefix _ _) (List.takeWhile_prefix _)
    rw [List.length_take]
    have short := passes.2
    rw [strlen] at short
    omega
  simpa using List.mem_takeWhile_imp (before.subset inside)

end Write

section Loops
variable {left : List UInt8}

/-- The inner loop has a part of its chunk left to write. -/
def Writing (t : Transfer) (rest left : List UInt8) : Prop :=
  ∃ chunk offset, t.phase = .writing rest chunk offset left.length ∧ 1 ≤ offset ∧ chunk.drop (offset - 1) = left

theorem Writing.piece (same : chunk.drop (offset - 1) = left) : piece chunk offset left.length = left := by
  rw [Sftp.piece, same, List.take_length]

/-- After the call the state has what the server took. -/
theorem write_step (writing : Writing t rest left) (opened : Opened t.u) (some : left ≠ []) (passes : Passes left)
    {n : Nat} (takes : setting.server.write t.calls = .ok n) :
    let written := min n (toInt left.length).toNat
    Writing (step setting t) rest (left.drop written) ∧ (step setting t).u = t.u ∧
      (step setting t).accepted = t.accepted ++ left.take written := by
  obtain ⟨chunk, offset, phase, positive, same⟩ := writing
  have taken : step setting t = { t with
      calls := t.calls + 1
      accepted := t.accepted ++ left.take (min n (toInt left.length).toNat)
      phase := .writing rest chunk (offset + min n (toInt left.length).toNat)
        (left.length - min n (toInt left.length).toNat) } := by
    have more : left.length > 0 := List.length_pos_iff.mpr some
    simp only [step, phase, writeStep, more, if_true, Writing.piece same, takes, write_passes opened passes]
  rw [taken]
  refine ⟨⟨chunk, offset + min n (toInt left.length).toNat, ?_, ?_, ?_⟩, rfl, rfl⟩
  · rw [List.length_drop]
  · omega
  · rw [← same, List.drop_drop]
    congr 1
    omega

theorem write_ends (writing : Writing t rest []) : step setting t = { t with phase := .sending rest } := by
  obtain ⟨chunk, offset, phase, -, -⟩ := writing
  simp [step, phase, writeStep]

/-- A chunk without NUL bytes is written whole, however short the writes are. -/
theorem writes_chunk (short : ∀ k, ∃ n, setting.server.write k = .ok n ∧ 0 < n) (writing : Writing t rest left)
    (opened : Opened t.u) (clean : (0 : UInt8) ∉ left) (small : left.length < 2147483648) :
    ∃ after, Reaches (step setting) t after ∧ after.phase = .sending rest ∧ after.u = t.u ∧
      after.accepted = t.accepted ++ left := by
  induction counted : left.length using Nat.strongRecOn generalizing t left with
  | ind total ih =>
    by_cases empty : left = []
    · subst empty
      refine ⟨_, .head (.refl _), ?_⟩
      rw [write_ends writing]
      exact ⟨rfl, rfl, (List.append_nil _).symm⟩
    · obtain ⟨n, takes, positive⟩ := short t.calls
      obtain ⟨writing, same, accepted⟩ := write_step writing opened empty (passes_small clean small) takes
      have some := List.length_pos_iff.mpr empty
      rw [toInt_of_lt small, Int.toNat_natCast] at writing accepted
      have shorter : (left.drop (min n left.length)).length < total := by
        rw [List.length_drop]
        omega
      obtain ⟨after, reaches, phase, kept, all⟩ := ih _ shorter writing (same ▸ opened)
        (fun inside => clean (List.mem_of_mem_drop inside)) (by omega) rfl
      refine ⟨after, .head reaches, phase, kept.trans same, ?_⟩
      rw [all, accepted, List.append_assoc, List.take_append_drop]

theorem read_chunk (uploads : Uploads setting content size) (phase : t.phase = .sending rest) (some : rest ≠ []) :
    Writing (step setting t) (rest.drop size) (rest.take size) ∧ (step setting t).u = t.u ∧
      (step setting t).accepted = t.accepted := by
  have read : fRead (setting.system.allocates t.calls) (setting.system.readFails t.calls) (.value size) rest =
      .ok (.some (rest.take size)) := by
    simp [fRead, uploads.allocates, uploads.reads, some, bind, Except.bind, pure, Except.pure]
  have taken : step setting t = { t with
      calls := t.calls + 1
      phase := .writing (rest.drop (rest.take size).length) (rest.take size) 1 (rest.take size).length } := by
    simp only [step, phase, sendStep, uploads.chunkSize, read]
  have same : rest.drop (rest.take size).length = rest.drop size := by
    rw [List.length_take]
    obtain less | more := Nat.le_total size rest.length
    · rw [Nat.min_eq_left less]
    · rw [Nat.min_eq_right more, List.drop_length, List.drop_of_length_le more]
  rw [taken, same]
  exact ⟨⟨_, 1, rfl, Nat.le_refl 1, rfl⟩, rfl, rfl⟩

theorem sends_rest (uploads : Uploads setting content size) (phase : t.phase = .sending rest) (opened : Opened t.u)
    (clean : (0 : UInt8) ∉ rest) (small : min size rest.length < 2147483648) :
    ∃ after, Reaches (step setting) t after ∧ after.phase = .returned ∧ after.accepted = t.accepted ++ rest := by
  induction counted : rest.length using Nat.strongRecOn generalizing t rest with
  | ind total ih =>
    have positive := uploads.positive
    by_cases empty : rest = []
    · subst empty
      have ends : step setting t = { t with u := lModuleSshSftpClose t.u, phase := .returned } := by
        have read : fRead (setting.system.allocates t.calls) (setting.system.readFails t.calls) (.value size) [] =
            .ok none := by
          simp [fRead, uploads.allocates, bind, Except.bind, pure, Except.pure]
        simp only [step, phase, sendStep, uploads.chunkSize, read]
      refine ⟨_, .head (.refl _), ?_⟩
      rw [ends]
      exact ⟨rfl, (List.append_nil _).symm⟩
    · obtain ⟨writing, same, accepted⟩ := read_chunk uploads phase empty
      have some := List.length_pos_iff.mpr empty
      have chunk : (rest.take size).length < 2147483648 := by rwa [List.length_take]
      obtain ⟨middle, reaches, phase, kept, written⟩ := writes_chunk uploads.writes writing (same ▸ opened)
        (fun inside => clean (List.mem_of_mem_take inside)) chunk
      have opened : Opened middle.u := by
        rw [kept, same]
        exact opened
      have shorter : (rest.drop size).length < total := by
        rw [List.length_drop]
        omega
      obtain ⟨after, reaches', phase, all⟩ := ih _ shorter phase opened
        (fun inside => clean (List.mem_of_mem_drop inside)) (by omega) rfl
      refine ⟨after, .head (reaches.trans reaches'), phase, ?_⟩
      rw [all, written, accepted, List.append_assoc, List.take_append_drop]

end Loops

section Limits

theorem write_ok {after : LSftpSession} {written : Nat}
    (ran : lModuleSshSftpWrite p p.length answer u = (after, .ok written)) :
    after = u ∧ Passes p ∧ ∃ n, written = min n (toInt p.length).toNat := by
  unfold lModuleSshSftpWrite at ran
  split at ran
  · cases ran
  · split at ran
    · cases ran
    next positive =>
      split at ran
      · cases ran
      next short =>
        cases answer with
        | error err => cases ran
        | ok n =>
          cases ran
          exact ⟨rfl, ⟨Int.not_lt.mp positive, Nat.not_lt.mp short⟩, n, rfl⟩

/-- What the server takes never has a NUL byte. -/
def Clean (t : Transfer) : Prop := (0 : UInt8) ∉ t.accepted

theorem step_clean (clean : Clean t) : Clean (step setting t) := by
  unfold step
  split
  · unfold sendStep
    split <;> exact clean
  · unfold writeStep
    split
    · dsimp only
      split
      next => exact clean
      next ran =>
        obtain ⟨-, passes, n, rfl⟩ := write_ok ran
        rw [Clean, List.mem_append, not_or]
        exact ⟨clean, passes_clean passes n⟩
    · exact clean
  · unfold receiveStep
    split
    · exact clean
    · split <;> exact clean
  all_goals exact clean

theorem start_clean (setting : Setting) : Clean (start setting .send) := by
  unfold start startSend
  dsimp only
  split <;> exact List.not_mem_nil

theorem Completes.clean (completes : Completes setting content) : (0 : UInt8) ∉ content := by
  obtain ⟨n, -, all⟩ := completes
  rw [← all]
  exact iterate_always Clean (fun _ => step_clean) (start_clean setting) n

/-- A piece that an `int` cannot count is never written to its end. -/
def Endless (t : Transfer) : Prop :=
  (∃ err, t.phase = .raised err) ∨
    ∃ rest chunk offset remaining, t.phase = .writing rest chunk offset remaining ∧ 2147483648 ≤ remaining ∧
      1 ≤ offset ∧ offset - 1 + remaining = chunk.length

theorem step_endless (endless : Endless t) : Endless (step setting t) := by
  obtain ⟨err, phase⟩ | ⟨rest, chunk, offset, remaining, phase, large, positive, ends⟩ := endless
  · refine .inl ⟨err, ?_⟩
    simp only [step, phase]
  · have more : remaining > 0 := by omega
    have length : (piece chunk offset remaining).length = remaining := by
      rw [piece, List.length_take, List.length_drop]
      omega
    simp only [step, phase, writeStep, more, if_true]
    split
    next err ran => exact .inl ⟨err, rfl⟩
    next written ran =>
      obtain ⟨-, passes, n, same⟩ := write_ok ran
      have positive' := passes.1
      rw [length] at same positive'
      -- an `int` that is not negative leaves a multiple of `2 ^ 32` behind
      have left : 2147483648 ≤ remaining - written ∧ written ≤ remaining := by
        simp only [toInt] at same positive'
        split at positive' <;> omega
      exact .inr ⟨rest, chunk, offset + written, remaining - written, rfl, left.1, by omega, by omega⟩

/-- The first chunk is not written to its end if an `int` cannot count it. -/
theorem Completes.counted (uploads : Uploads setting content size) (completes : Completes setting content) :
    min size content.length < 2147483648 := by
  by_contra large
  obtain ⟨phase, -, -⟩ := uploads_start uploads
  obtain ⟨⟨chunk, offset, writing, positive, same⟩, -⟩ :=
    read_chunk uploads phase uploads.nonempty
  have endless : Endless (step setting (start setting .send)) := by
    have ends := congrArg List.length same
    rw [List.length_drop] at ends
    rw [List.length_take] at writing ends
    exact .inr ⟨_, chunk, offset, _, writing, Nat.not_lt.mp large, positive, by omega⟩
  obtain ⟨n, returned, -⟩ := completes
  cases n with
  | zero => cases phase.symm.trans returned
  | succ n =>
    have never : Endless ((step setting)^[n] (step setting (start setting .send))) :=
      iterate_always Endless (fun _ => step_endless) endless n
    rw [turns, Function.iterate_succ_apply] at returned
    obtain ⟨err, raised⟩ | ⟨rest, chunk, offset, remaining, still, -⟩ := never
    · cases returned.symm.trans raised
    · cases returned.symm.trans still

end Limits

/-- Exactly when the file has no NUL byte and its longest chunk can be counted by an `int`. -/
theorem completes_iff (uploads : Uploads setting content size) :
    Completes setting content ↔ (0 : UInt8) ∉ content ∧ min size content.length < 2147483648 := by
  constructor
  · intro completes
    exact ⟨completes.clean, completes.counted uploads⟩
  · intro fine
    obtain ⟨phase, opened, accepted⟩ := uploads_start uploads
    obtain ⟨after, ⟨n, ran⟩, returned, all⟩ := sends_rest uploads phase opened fine.1 fine.2
    rw [accepted, List.nil_append] at all
    refine ⟨n, ?_⟩
    rw [turns, ran]
    exact ⟨returned, all⟩

/-- A send of this content to a new file on a server that takes a byte at a time. -/
def upload (content : List UInt8) : Setting where
  system := {
    fileInfo := fun _ => .ok (some { type := .lit "file", size := content.length })
    resolveSymlink := fun _ => .ok none
    openRead := fun _ => .ok content
    openWrite := fun _ => .error (.lit "") }
  server := { fileInfo := .ok false, openFile := .ok 0, write := fun _ => .ok 1, read := fun _ => .bytes [] }
  opts := { localFile := .value (.lit "report.bin"), remoteFile := .value (.lit "/tmp/report.bin") }
  u := { sftpSession := some 0, session := some 0 }
  localFile := some content

theorem upload_uploads (nonempty : content ≠ []) : Uploads (upload content) content 1024 where
  nonempty := nonempty
  positive := by omega
  chunkSize := rfl
  localFile := ⟨.lit "report.bin", _, rfl, rfl, rfl, rfl, rfl⟩
  allocates _ := rfl
  reads _ := rfl
  mode := .inr ⟨rfl, rfl⟩
  remoteFile := ⟨_, rfl⟩
  filePermissions := nofun
  openFile := ⟨0, rfl⟩
  sftpSession := rfl
  sftpHandle := rfl
  session := rfl
  writes _ := ⟨1, rfl, Nat.one_pos⟩

theorem hi_completes : Completes (upload [104, 105]) [104, 105] :=
  (completes_iff (upload_uploads (by simp))).mpr ⟨by simp, by simp⟩

/-- A file of three bytes, of which the second one is NUL. -/
theorem nul_rejected :
    Uploads (upload [104, 0, 105]) [104, 0, 105] 1024 ∧ ¬ Completes (upload [104, 0, 105]) [104, 0, 105] := by
  refine ⟨upload_uploads (by simp), ?_⟩
  intro completes
  exact completes.clean (by simp)

end Ltf.Proofs.SftpSend
