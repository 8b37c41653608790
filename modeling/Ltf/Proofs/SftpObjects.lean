import Ltf.Proofs.SftpFailures

/-! A call that a transfer makes does to its object what the model of all SSH objects says. -/

namespace Ltf.Proofs.SftpObjects
open Ltf.Sftp CString Steps SftpSend SftpFailures
open Ssh (LSftpSession)

variable {w after : Ssh.World} {f : Nat} {u : LSftpSession}

/-- A call that does nothing with libssh2 leaves the object alone. -/
theorem kept (found : w.sftps.get f = some u) (ran : (pure w : Ssh.Exec Ssh.World) = .ok after) :
    after.sftps.get f = some u := by
  cases ran
  exact found

theorem written (found : w.sftps.get f = some u) (value : LSftpSession) : (w.sftps.put f value).get f = some value := by
  rw [Store.put_get (by rw [found]; rfl), if_pos rfl]

theorem open_object (found : w.sftps.get f = some u) {works : Bool}
    (ran : Ssh.lModuleSshSftpOpen f works u w = .ok after) (filename rc : CStr) (mode : Int) :
    after.sftps.get f = some (lModuleSshSftpOpen (.value filename) (.value mode)
      (if works then .ok w.lib.handles.length else .error rc) u).1 := by
  obtain ⟨sftp, handle, session⟩ := u
  cases sftp with
  | none => exact kept found ran
  | some sftp =>
    cases handle with
    | some handle => exact kept found ran
    | none =>
      cases session with
      | none => exact kept found ran
      | some session =>
        obtain ⟨_, -, ran⟩ := bind_ok.mp ran
        cases works with
        | true =>
          cases ran
          exact written found _
        | false =>
          obtain ⟨_, -, ran⟩ := bind_ok.mp ran
          exact kept found ran

theorem read_object (found : w.sftps.get f = some u) (ran : Ssh.lModuleSshSftpRead u w = .ok after)
    (size : TableField Int) (answer : ReadAnswer) : after.sftps.get f = some (lModuleSshSftpRead size answer u).1 := by
  rw [read_same]
  unfold Ssh.lModuleSshSftpRead at ran
  split at ran
  · obtain ⟨_, -, ran⟩ := bind_ok.mp ran
    exact kept found ran
  · exact kept found ran

theorem write_object (found : w.sftps.get f = some u) {works : Bool}
    (ran : Ssh.lModuleSshSftpWrite f works u w = .ok after) {p : List UInt8} (passes : Passes p) (n : Nat) (err : CStr) :
    after.sftps.get f = some (lModuleSshSftpWrite p p.length (if works then .ok n else .error err) u).1 := by
  obtain ⟨sftp, handle, session⟩ := u
  cases sftp with
  | none => exact kept found ran
  | some sftp =>
    cases handle with
    | none => exact kept found ran
    | some handle =>
      cases session with
      | none => exact kept found ran
      | some session =>
        have opened : Opened ⟨some sftp, some handle, some session⟩ := ⟨rfl, rfl, rfl⟩
        obtain ⟨_, -, ran⟩ := bind_ok.mp ran
        cases works with
        | true =>
          rw [if_pos rfl, write_passes opened passes]
          exact kept found ran
        | false =>
          obtain ⟨_, -, ran⟩ := bind_ok.mp ran
          obtain ⟨lib, -, ran⟩ := bind_ok.mp ran
          obtain ⟨message, fails⟩ := write_fails opened passes err
          rw [if_neg nofun, fails]
          cases ran
          exact written found _

theorem close_object (found : w.sftps.get f = some u) (ran : Ssh.lModuleSshSftpClose f u w = .ok after) :
    after.sftps.get f = some (lModuleSshSftpClose u) := by
  obtain ⟨sftp, handle, session⟩ := u
  cases sftp with
  | none => exact kept found ran
  | some sftp =>
    cases handle with
    | none => exact kept found ran
    | some handle =>
      cases session with
      | none => exact kept found ran
      | some session =>
        obtain ⟨lib, -, ran⟩ := bind_ok.mp ran
        cases ran
        exact written found _

theorem shutdown_object (found : w.sftps.get f = some u) (ran : Ssh.lModuleSshSftpShutdown f u w = .ok after) :
    after.sftps.get f = some (lModuleSshSftpShutdown u) := by
  obtain ⟨sftp, handle, session⟩ := u
  cases sftp with
  | none => exact kept found ran
  | some sftp =>
    cases handle with
    | some handle => exact kept found ran
    | none =>
      cases session with
      | none => exact kept found ran
      | some session =>
        obtain ⟨lib, -, ran⟩ := bind_ok.mp ran
        cases ran
        exact written found _

end Ltf.Proofs.SftpObjects
