import Ltf.Base.CString
import Ltf.Ssh

/-! `send` and `receive` of `lib/ltf/ssh/sftp.lua` on one SFTP object, over the functions
of `ltf-ssh-sftp.c` with their arguments, results and errors. What the local system and
the server answer is chosen by the caller; handles are told apart by their numbers. -/

namespace Ltf.Sftp
open CString
open Ssh (LSftpSession)

/-- A value from a table of options: nothing, one of its type, or one that C does not take. -/
inductive TableField (α : Type) where
  | nil
  | value (given : α)
  | other

namespace TableField

/-- `field or default` -/
def orElse {α : Type} (field : TableField α) (standard : α) : TableField α :=
  match field with
  | .nil => .value standard
  | field => field

/-- One of the checks of `lauxlib`. -/
def check {α : Type} : TableField α → Except CStr α
  | .value given => .ok given
  | _ => .error (.lit "bad argument")

@[simp] theorem check_value {α : Type} (given : α) : (TableField.value given).check = .ok given := rfl

@[simp] theorem orElse_value {α : Type} (given standard : α) :
    (TableField.value given).orElse standard = .value given := rfl

end TableField

/-- The userdata after a call, and what the call returns or the message of its error. -/
abbrev Reply (α : Type) := LSftpSession × Except CStr α

/-- The checks at the start of a function, which name the first thing that is missing. -/
def initialized (function : String) (u : LSftpSession) : Except CStr Unit :=
  let failed (what : String) : Except CStr Unit :=
    .error (.concat [.lit function, .lit " failed because ", .lit what, .lit " was not initialized"])
  if u.sftpSession.isNone then failed "sftp_session"
  else if u.sftpHandle.isNone then failed "sftp_handle"
  else if u.session.isNone then failed "session"
  else .ok ()

/-- `handle` is what `libssh2_sftp_open_ex` returns, or the name of the error. -/
def lModuleSshSftpOpen (filename : TableField CStr) (mode : TableField Int) (handle : Except CStr Nat)
    (u : LSftpSession) : Reply Unit :=
  if u.sftpSession.isNone then
    (u, .error (.lit "l_module_ssh_sftp_open() failed because sftp_session was not initialized"))
  else if u.sftpHandle.isSome then
    (u, .error (.lit "l_module_ssh_sftp_open() failed because sftp_handle for this sftp_session already exist"))
  else if u.session.isNone then
    (u, .error (.lit "l_module_ssh_sftp_open() failed because session was not initialized"))
  else
    match filename.check, mode.check, handle with
    | .error err, _, _ => (u, .error err)
    | .ok _, .error err, _ => (u, .error err)
    | .ok _, .ok _, .error rc => (u, .error (.concat [.lit "libssh2_sftp_open() failed with code: ", rc]))
    | .ok _, .ok _, .ok handle => ({ u with sftpHandle := some handle }, .ok ())

/-- How `malloc` and `libssh2_sftp_read` answer. -/
inductive ReadAnswer where
  | outOfMemory
  | failed (err : CStr)
  | bytes (bytes : List UInt8)

def defaultChunkSize : Nat := 4096

/-- 64MB safety cap -/
def maxChunk : Nat := 67108864

def lModuleSshSftpRead (size : TableField Int) (answer : ReadAnswer) (u : LSftpSession) : Reply (List UInt8) :=
  match initialized "l_module_ssh_sftp_read()" u, (size.orElse defaultChunkSize).check with
  | .error err, _ => (u, .error err)
  | .ok (), .error err => (u, .error err)
  | .ok (), .ok v =>
    if v < 0 then (u, .error (.lit "l_module_ssh_sftp_read() failed: size is negative"))
    else
      let len := min (if v.toNat = 0 then defaultChunkSize else v.toNat) maxChunk
      match answer with
      | .outOfMemory => (u, .error (.lit "l_module_ssh_sftp_read() failed: out of memory"))
      | .failed err => (u, .error (.concat [.lit "l_module_ssh_sftp_read() failed with code ", err]))
      | .bytes bytes => (u, .ok (bytes.take len))

def strlen (s : List UInt8) : Nat := (s.takeWhile (· ≠ 0)).length

/-- `size` is a length, which becomes an `int`. `answer` is an error, or how many bytes the
server takes, if it is offered so many. -/
def lModuleSshSftpWrite (s : List UInt8) (size : Nat) (answer : Except CStr Nat) (u : LSftpSession) : Reply Nat :=
  match initialized "l_module_ssh_sftp_write()" u with
  | .error err => (u, .error err)
  | .ok () =>
    if toInt size < 0 then (u, .error (.lit "l_module_ssh_sftp_write() failed because argument 3 is negative"))
    else if strlen s < (toInt size).toNat then
      (u, .error (.lit "l_module_ssh_sftp_write() failed because size of string is biger then 3rd argument"))
    else
      match answer with
      | .error err =>
        ({ u with sftpHandle := none }, .error (.concat [.lit "l_module_ssh_sftp_write() failed with code: ", err]))
      | .ok rc => (u, .ok (min rc (toInt size).toNat))

def lModuleSshSftpClose (u : LSftpSession) : LSftpSession :=
  if u.sftpSession.isNone ∨ u.sftpHandle.isNone ∨ u.session.isNone then u else { u with sftpHandle := none }

def lModuleSshSftpShutdown (u : LSftpSession) : LSftpSession :=
  if u.sftpSession.isNone ∨ u.sftpHandle.isSome ∨ u.session.isNone then u
  else { u with sftpSession := none, session := none }

/-- Whether the remote file exists. -/
def lModuleSshSftpFileInfo (path : TableField CStr) (answer : Except CStr Bool) (u : LSftpSession) :
    Except CStr Bool := do
  if u.sftpSession.isNone then throw (.lit "sftp_session not initialized")
  let _ ← path.check
  answer

/-- What `file_info` of `ltf.util` tells of a file, as far as it is looked at. -/
structure FileInfo where
  type : CStr
  size : Int

/-- How the local system answers; reads and writes are numbered. -/
structure LocalSystem where
  fileInfo : CStr → Except CStr (Option FileInfo)
  resolveSymlink : CStr → Except CStr (Option CStr)
  /-- `io.open(path, "rb")`, with what is in the file -/
  openRead : CStr → Except CStr (List UInt8)
  /-- `io.open(path, "wb")` -/
  openWrite : CStr → Except CStr Unit
  /-- Whether Lua has memory for a chunk. -/
  allocates : Nat → Bool := fun _ => true
  readFails : Nat → Bool := fun _ => false
  writeFails : Nat → Bool := fun _ => false

/-- How the server answers; reads and writes are numbered. -/
structure Server where
  fileInfo : Except CStr Bool
  openFile : Except CStr Nat
  write : Nat → Except CStr Nat
  read : Nat → ReadAnswer

/-- `sftp_file_transfer_opts`. A chunk size that is a string, which `f:read` would take for a format, is left out. -/
structure TransferOpts where
  localFile : TableField CStr
  remoteFile : TableField CStr
  resolveSymlinks : Option Bool := none
  mode : TableField CStr := .nil
  filePermissions : TableField Int := .nil
  chunkSize : TableField Int := .nil

/-- What a transfer depends on: the object and the local file before it, too. -/
structure Setting where
  system : LocalSystem
  server : Server
  opts : TransferOpts
  u : LSftpSession
  localFile : Option (List UInt8)

/-- The path that is sent. A dangling symlink stays one. -/
def sendPath (system : LocalSystem) (opts : TransferOpts) (path : CStr) (info : FileInfo) :
    Except CStr (CStr × FileInfo) :=
  if info.type = .lit "symlink" ∧ (opts.resolveSymlinks = some true ∨ true) then do
    match ← system.resolveSymlink path with
    | none => return (path, info)
    | some resolved =>
      match ← system.fileInfo resolved with
      | none => throw (.concat [.lit "Unknown error, file ", resolved, .lit " does not exist"])
      | some info => return (resolved, info)
  else return (path, info)

/-- `send` until the local file is open, with what is in it. -/
def sendLocal (system : LocalSystem) (opts : TransferOpts) : Except CStr (List UInt8) := do
  let localFile ← opts.localFile.check
  match ← system.fileInfo localFile with
  | none => throw (.concat [.lit "File ", localFile, .lit " does not exist"])
  | some info =>
    let (path, info) ← sendPath system opts localFile info
    if info.type = .lit "directory" then throw (.lit "Transferring directories is unsupported at the moment")
    if info.size = 0 then throw (.concat [.lit "File ", localFile, .lit " is of size 0"])
    match system.openRead path with
    | .error ferr => throw (.concat [.lit "fopen: ", path, .lit "failed with code: ", ferr])
    | .ok content => return content

/-- The mode of a transfer, and the file that it would overwrite. -/
def sendMode (server : Server) (opts : TransferOpts) (u : LSftpSession) : Except CStr Unit := do
  let mode ← (opts.mode.orElse (.lit "create")).check
  if mode = .lit "create" then
    if ← lModuleSshSftpFileInfo opts.remoteFile server.fileInfo u then
      let remoteFile ← opts.remoteFile.check
      throw (.concat [.lit "File ", remoteFile,
        .lit " already exists on the remote host. Use 'mode = \"overwrite\"' if you want to overwrite it."])
  else if mode ≠ .lit "overwrite" then throw (.concat [.lit "Unknown mode ", mode])

/-- `send` until its loop, with what is in the local file. -/
def sendOpen (setting : Setting) : Reply (List UInt8) :=
  match sendLocal setting.system setting.opts with
  | .error err => (setting.u, .error err)
  | .ok content =>
    match sendMode setting.server setting.opts setting.u with
    | .error err => (setting.u, .error err)
    | .ok () =>
      match lModuleSshSftpOpen setting.opts.remoteFile (setting.opts.filePermissions.orElse 420)
        setting.server.openFile setting.u with
      | (u, .error err) => (u, .error err)
      | (u, .ok ()) => (u, .ok content)

/-- Where a transfer is: before a read of `rest`, before a write of what `remaining` says of
`chunk`, before a read from the server, or at an end. -/
inductive Phase where
  | sending (rest : List UInt8)
  | writing (rest chunk : List UInt8) (offset remaining : Nat)
  | receiving
  | returned
  /-- `nil` and a message -/
  | refused (message : CStr)
  | raised (err : CStr)

/-- With the bytes that the server has taken so far, and what is in the local file of a
`receive` if there is one. -/
structure Transfer where
  u : LSftpSession
  localFile : Option (List UInt8)
  accepted : List UInt8 := []
  calls : Nat := 0
  phase : Phase

def startSend (setting : Setting) : Transfer :=
  match sendOpen setting with
  | (u, .error err) => { u, localFile := setting.localFile, phase := .raised err }
  | (u, .ok content) => { u, localFile := setting.localFile, phase := .sending content }

/-- `receive` until its loop. The local file is emptied when it is opened. -/
def startReceive (setting : Setting) : Transfer :=
  match setting.opts.localFile.check with
  | .error err => { u := setting.u, localFile := setting.localFile, phase := .raised err }
  | .ok path =>
    match setting.system.openWrite path with
    | .error oerr =>
      { u := setting.u, localFile := setting.localFile
        phase := .refused (.concat [.lit "fopen failed: ", path, .lit " (", oerr, .lit ")"]) }
    | .ok () =>
      match lModuleSshSftpOpen setting.opts.remoteFile (.value 0) setting.server.openFile setting.u with
      | (u, .error err) => { u, localFile := some [], phase := .raised err }
      | (u, .ok ()) => { u, localFile := some [], phase := .receiving }

/-- `f:read(size)`, of which the rest of the file is known. Lua asks for memory for the whole
chunk first. A read that fails gives `nil` too. -/
def fRead (allocates fails : Bool) (size : TableField Int) (rest : List UInt8) : Except CStr (Option (List UInt8)) := do
  let size ← size.check
  if size < 0 ∨ (size ≠ 0 ∧ allocates = false) then throw (.lit "not enough memory")
  if fails ∨ rest = [] then return none
  return some (rest.take size.toNat)

def chunkSize (setting : Setting) : TableField Int := setting.opts.chunkSize.orElse 1024

/-- `chunk:sub(offset, offset + remaining - 1)` -/
def piece (chunk : List UInt8) (offset remaining : Nat) : List UInt8 := (chunk.drop (offset - 1)).take remaining

/-- The outer loop of `send` reads a chunk or comes to its end. -/
def sendStep (setting : Setting) (t : Transfer) (rest : List UInt8) : Transfer :=
  match fRead (setting.system.allocates t.calls) (setting.system.readFails t.calls) (chunkSize setting) rest with
  | .error err => { t with phase := .raised err }
  | .ok none => { t with u := lModuleSshSftpClose t.u, phase := .returned }
  | .ok (some chunk) =>
    { t with calls := t.calls + 1, phase := .writing (rest.drop chunk.length) chunk 1 chunk.length }

/-- The inner loop of `send` writes a piece or goes back to the outer one. -/
def writeStep (setting : Setting) (t : Transfer) (rest chunk : List UInt8) (offset remaining : Nat) : Transfer :=
  if remaining > 0 then
    let piece := piece chunk offset remaining
    match lModuleSshSftpWrite piece piece.length (setting.server.write t.calls) t.u with
    | (u, .error err) => { t with u, phase := .raised err }
    | (u, .ok written) =>
      { t with u, calls := t.calls + 1, accepted := t.accepted ++ piece.take written,
               phase := .writing rest chunk (offset + written) (remaining - written) }
  else { t with phase := .sending rest }

/-- `out:write` is not asked whether it succeeded. -/
def receiveStep (setting : Setting) (t : Transfer) : Transfer :=
  match lModuleSshSftpRead (chunkSize setting) (setting.server.read t.calls) t.u with
  | (u, .error err) => { t with u, phase := .raised err }
  | (u, .ok chunk) =>
    if chunk.length = 0 then { t with u := lModuleSshSftpClose u, phase := .returned }
    else
      let written := if setting.system.writeFails t.calls then [] else chunk
      { t with u, calls := t.calls + 1, localFile := t.localFile.map (· ++ written) }

def step (setting : Setting) (t : Transfer) : Transfer :=
  match t.phase with
  | .sending rest => sendStep setting t rest
  | .writing rest chunk offset remaining => writeStep setting t rest chunk offset remaining
  | .receiving => receiveStep setting t
  | .returned | .refused _ | .raised _ => t

inductive Direction where
  | send
  | receive

def start (setting : Setting) : Direction → Transfer
  | .send => startSend setting
  | .receive => startReceive setting

/-- A transfer after so many turns of its loops. -/
def turns (setting : Setting) (direction : Direction) (n : Nat) : Transfer :=
  (step setting)^[n] (start setting direction)

end Ltf.Sftp
