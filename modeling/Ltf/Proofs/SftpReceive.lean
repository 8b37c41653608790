import Ltf.Proofs.SftpSend

/-! What is in the local file after a receive, however the server cuts the remote file into
pieces, and what comes back of a file that was sent. -/

namespace Ltf.Proofs.SftpReceive
open Ltf.Sftp CString Steps SftpSend

/-- The most a read asks for. -/
def readLimit (size : Nat) : Nat := min (if size = 0 then defaultChunkSize else size) maxChunk

/-- Both files are opened, and the server hands out the remote file in pieces until its end. -/
structure Downloads (setting : Setting) (pieces : List (List UInt8)) : Prop where
  localFile : ∃ path, setting.opts.localFile = .value path ∧ setting.system.openWrite path = .ok ()
  remoteFile : ∃ path, setting.opts.remoteFile = .value path
  chunkSize : ∃ size : Nat, chunkSize setting = .value size ∧ ∀ piece ∈ pieces, piece.length ≤ readLimit size
  openFile : ∃ handle, setting.server.openFile = .ok handle
  sftpSession : setting.u.sftpSession.isSome
  sftpHandle : setting.u.sftpHandle = none
  session : setting.u.session.isSome
  nonempty : [] ∉ pieces
  reads : ∀ k piece, pieces[k]? = some piece → setting.server.read k = .bytes piece
  ends : setting.server.read pieces.length = .bytes []

/-- What a write leaves of a piece. Nobody looks whether it failed. -/
def written (setting : Setting) (k : Nat) (piece : List UInt8) : List UInt8 :=
  if setting.system.writeFails k then [] else piece

def stored (setting : Setting) : Nat → List (List UInt8) → List UInt8
  | _, [] => []
  | k, piece :: pieces => written setting k piece ++ stored setting (k + 1) pieces

variable {setting : Setting} {pieces : List (List UInt8)} {t : Transfer}

theorem downloads_start (downloads : Downloads setting pieces) :
    (start setting .receive).phase = .receiving ∧ Opened (start setting .receive).u ∧
      (start setting .receive).localFile = some [] ∧ (start setting .receive).calls = 0 := by
  obtain ⟨path, named, opens⟩ := downloads.localFile
  obtain ⟨remote, remoteFile⟩ := downloads.remoteFile
  obtain ⟨handle, openFile⟩ := downloads.openFile
  have sftpSession := downloads.sftpSession
  have session := downloads.session
  have opened : lModuleSshSftpOpen setting.opts.remoteFile (.value 0) setting.server.openFile setting.u =
      ({ setting.u with sftpHandle := some handle }, .ok ()) := by
    simp [lModuleSshSftpOpen, Option.isSome_iff_ne_none.mp sftpSession, Option.isSome_iff_ne_none.mp session,
      downloads.sftpHandle, remoteFile, openFile]
  have ready : start setting .receive =
      { u := { setting.u with sftpHandle := some handle }, localFile := some [], phase := .receiving } := by
    simp [start, startReceive, named, opens, opened]
  rw [ready]
  exact ⟨rfl, ⟨sftpSession, rfl, session⟩, rfl, rfl⟩

theorem read_piece (downloads : Downloads setting pieces) (opened : Opened t.u) {piece : List UInt8}
    (answer : setting.server.read t.calls = .bytes piece) (short : piece = [] ∨ piece ∈ pieces) :
    lModuleSshSftpRead (chunkSize setting) (setting.server.read t.calls) t.u = (t.u, .ok piece) := by
  obtain ⟨size, asked, fits⟩ := downloads.chunkSize
  have whole : piece.take (readLimit size) = piece := by
    apply List.take_of_length_le
    rcases short with rfl | inside
    · exact Nat.zero_le _
    · exact fits piece inside
  have natural : ¬ (size : Int) < 0 := by omega
  rw [lModuleSshSftpRead, opened.initialized, asked, answer]
  simp only [TableField.orElse_value, TableField.check_value, if_neg natural, Int.toNat_natCast]
  exact congrArg (fun bytes => (t.u, Except.ok bytes)) whole

/-- From the piece that is asked for next to the end of the remote file. -/
theorem receives_rest (downloads : Downloads setting pieces) {done rest : List (List UInt8)} (split : pieces = done ++ rest)
    (phase : t.phase = .receiving) (opened : Opened t.u) (calls : t.calls = done.length) :
    ∃ after, Reaches (step setting) t after ∧ after.phase = .returned ∧ after.u = lModuleSshSftpClose t.u ∧
      after.localFile = t.localFile.map (· ++ stored setting done.length rest) := by
  induction rest generalizing done t with
  | nil =>
    rw [List.append_nil] at split
    have answer : setting.server.read t.calls = .bytes [] := by
      rw [calls, ← split]
      exact downloads.ends
    have ends : step setting t = { t with u := lModuleSshSftpClose t.u, phase := .returned } := by
      simp only [step, phase, receiveStep, read_piece downloads opened answer (.inl rfl), List.length_nil, if_true]
    refine ⟨_, .head (.refl _), ?_⟩
    rw [ends]
    exact ⟨rfl, rfl, by simp [stored]⟩
  | cons piece rest ih =>
    have here : pieces[done.length]? = some piece := by simp [split]
    have inside : piece ∈ pieces := List.mem_of_getElem? here
    have answer : setting.server.read t.calls = .bytes piece := by
      rw [calls]
      exact downloads.reads _ _ here
    have some : piece.length ≠ 0 := fun empty => downloads.nonempty (List.length_eq_zero_iff.mp empty ▸ inside)
    have taken : step setting t = { t with
        calls := t.calls + 1
        localFile := t.localFile.map (· ++ written setting t.calls piece) } := by
      simp only [step, phase, receiveStep, read_piece downloads opened answer (.inr inside), if_neg some]
      rfl
    obtain ⟨after, reaches, returned, closed, all⟩ := @ih (step setting t) (done ++ [piece]) (by simp [split])
      (by rw [taken]; exact phase) (by rw [taken]; exact opened) (by rw [taken]; simp [calls])
    refine ⟨after, .head reaches, returned, ?_, ?_⟩
    · rw [closed, taken]
    · rw [all, taken]
      simp [stored, calls, Function.comp_def]

variable (setting) in
theorem stored_length (k : Nat) (pieces : List (List UInt8)) : (stored setting k pieces).length ≤ pieces.flatten.length := by
  induction pieces generalizing k with
  | nil => exact Nat.le_refl 0
  | cons piece pieces ih =>
    have least : (written setting k piece).length ≤ piece.length := by
      unfold written
      split <;> simp
    rw [stored, List.length_append, List.flatten_cons, List.length_append]
    exact Nat.add_le_add least (ih (k + 1))

variable (setting) in
/-- The whole content is there only if no write of a piece failed. -/
theorem stored_iff (k : Nat) {pieces : List (List UInt8)} (nonempty : [] ∉ pieces) :
    stored setting k pieces = pieces.flatten ↔ ∀ i < pieces.length, setting.system.writeFails (k + i) = false := by
  induction pieces generalizing k with
  | nil => simp [stored]
  | cons piece pieces ih =>
    rw [List.mem_cons, not_or] at nonempty
    have later : ∀ i, k + 1 + i = k + (i + 1) := by omega
    rw [stored, List.flatten_cons, List.length_cons, Nat.forall_lt_succ_left]
    cases fails : setting.system.writeFails k with
    | false => simp [written, fails, ih (k + 1) nonempty.2, later]
    | true =>
      refine iff_of_false (fun same => ?_) (by simp)
      have shorter := stored_length setting (k + 1) pieces
      have lengths := congrArg List.length same
      have some : piece.length ≠ 0 := fun empty => nonempty.1 (List.length_eq_zero_iff.mp empty).symm
      simp only [written, fails, if_true, List.nil_append, List.length_append] at lengths
      omega

theorem received (downloads : Downloads setting pieces) :
    ∃ n, (turns setting .receive n).phase = .returned ∧ (turns setting .receive n).u.sftpHandle = none ∧
      (turns setting .receive n).localFile = some (stored setting 0 pieces) := by
  obtain ⟨phase, opened, empty, calls⟩ := downloads_start downloads
  have split : pieces = [] ++ pieces := rfl
  obtain ⟨after, ⟨n, ran⟩, returned, closed, all⟩ := receives_rest downloads split phase opened calls
  refine ⟨n, ?_⟩
  rw [turns, ran]
  refine ⟨returned, ?_, by simp [all, empty]⟩
  simp [closed, lModuleSshSftpClose, Option.isSome_iff_ne_none.mp opened.sftpSession,
    Option.isSome_iff_ne_none.mp opened.sftpHandle, Option.isSome_iff_ne_none.mp opened.session]

/-- A file that was sent comes back: a receive of what the server has taken, in whatever
pieces, returns with its handle closed, and the local file is the one that was sent exactly
when no write to it failed. -/
theorem sent_comes_back {up : Setting} {content : List UInt8} {size : Nat} (uploads : Uploads up content size)
    (clean : (0 : UInt8) ∉ content) (counted : min size content.length < 2147483648) :
    ∃ n, (turns up .send n).phase = .returned ∧ (turns up .send n).accepted = content ∧
      ∀ down pieces, Downloads down pieces → pieces.flatten = (turns up .send n).accepted →
        ∃ m, (turns down .receive m).phase = .returned ∧ (turns down .receive m).u.sftpHandle = none ∧
          ((turns down .receive m).localFile = some content ↔ ∀ i < pieces.length, down.system.writeFails i = false) := by
  obtain ⟨phase, opened, nothing⟩ := uploads_start uploads
  obtain ⟨after, ⟨n, ran⟩, returned, all⟩ := sends_rest uploads phase opened clean counted
  have sent : (turns up .send n).accepted = content := by
    rw [turns, ran, all, nothing, List.nil_append]
  refine ⟨n, by rw [turns, ran]; exact returned, sent, fun down pieces downloads same => ?_⟩
  obtain ⟨m, back, closed, file⟩ := received downloads
  refine ⟨m, back, closed, ?_⟩
  have whole := stored_iff down 0 downloads.nonempty
  simp only [Nat.zero_add] at whole
  rw [file, Option.some.injEq, ← sent, ← same, whole]

/-- A receive from a server that hands out these pieces. -/
def download (pieces : List (List UInt8)) : Setting where
  system := {
    fileInfo := fun _ => .ok none
    resolveSymlink := fun _ => .ok none
    openRead := fun _ => .error (.lit "")
    openWrite := fun _ => .ok () }
  server := {
    fileInfo := .ok true
    openFile := .ok 0
    write := fun _ => .ok 0
    read := fun k => .bytes (pieces.getD k []) }
  opts := { localFile := .value (.lit "copy.bin"), remoteFile := .value (.lit "/tmp/report.bin") }
  u := { sftpSession := some 0, session := some 0 }
  localFile := none

theorem sent_comes_back_hi : ∃ m, (turns (download [[104], [105]]) .receive m).phase = .returned ∧
    (turns (download [[104], [105]]) .receive m).localFile = some [104, 105] := by
  have downloads : Downloads (download [[104], [105]]) [[104], [105]] := {
    localFile := ⟨_, rfl, rfl⟩
    remoteFile := ⟨_, rfl⟩
    chunkSize := ⟨1024, rfl, by decide⟩
    openFile := ⟨0, rfl⟩
    sftpSession := rfl
    sftpHandle := rfl
    session := rfl
    nonempty := by decide
    reads := fun k piece here => by
      show ReadAnswer.bytes (List.getD _ k []) = _
      rw [List.getD_eq_getElem?_getD, here]
      rfl
    ends := rfl }
  have uploads : Uploads (upload [104, 105]) [104, 105] 1024 := upload_uploads (by simp)
  obtain ⟨n, _, accepted, comes⟩ := sent_comes_back uploads (by decide) (by decide)
  obtain ⟨m, returned, _, whole⟩ := comes _ _ downloads accepted.symm
  exact ⟨m, returned, whole.mpr fun _ _ => rfl⟩

end Ltf.Proofs.SftpReceive
