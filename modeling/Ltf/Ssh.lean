import Ltf.Base.Store
import Mathlib.Data.List.Basic

/-! The sessions, channels and SFTP objects of `modules/ssh`, with the raw pointers they
keep to each other. What libssh2 and the system answer is chosen by the caller of each
operation; memory allocation succeeds. -/

namespace Ltf.Ssh

/-- Memory that is used although it must not be. -/
inductive Fault where
  /-- a userdata that was collected, through a pointer that is left -/
  | freedObject
  /-- `active_channels` after `da_free` -/
  | freedChannels
  /-- what `da_get` returns out of bounds -/
  | nullPointer
  | freedSession
  | freedChannel
  /-- an SFTP session or handle whose SSH session was freed -/
  | freedSftp
deriving DecidableEq

abbrev Exec := Except Fault

/-- What libssh2 knows: to which SSH session a channel or an SFTP session belongs, to which
SFTP session a handle, and what was released. -/
structure Libssh2 where
  sessions : Nat := 0
  channels : List Nat := []
  sftps : List Nat := []
  handles : List Nat := []
  freedSessions : List Nat := []
  freedChannels : List Nat := []
  shutdowns : List Nat := []
  closedHandles : List Nat := []

namespace Libssh2

/-- A call that reads an SSH session. -/
def sessionCall (lib : Libssh2) (session : Nat) : Exec Unit :=
  if session ∈ lib.freedSessions then .error .freedSession else .ok ()

/-- `libssh2_channel_close`, which fails on `NULL`. -/
def channelClose (lib : Libssh2) (channel : Option Nat) (works : Bool) : Exec Bool :=
  match channel with
  | none => .ok false
  | some channel => if channel ∈ lib.freedChannels then .error .freedChannel else .ok works

/-- `libssh2_channel_free`. When it fails the channel stays with its session. -/
def channelFree (lib : Libssh2) (channel : Option Nat) (works : Bool) : Libssh2 :=
  { lib with freedChannels := (if works then channel.toList else []) ++ lib.freedChannels }

/-- The channels a session still has. -/
def channelsOf (lib : Libssh2) (session : Nat) : List Nat :=
  (List.range lib.channels.length).filter fun channel =>
    lib.channels[channel]? = some session ∧ channel ∉ lib.freedChannels

/-- `libssh2_session_free`, which frees these channels too. -/
def sessionFree (lib : Libssh2) (session : Nat) : Libssh2 :=
  { lib with
    freedSessions := session :: lib.freedSessions
    freedChannels := lib.channelsOf session ++ lib.freedChannels }

/-- A call on an SFTP session. -/
def sftpCall (lib : Libssh2) (sftp : Nat) : Exec Unit :=
  if (lib.sftps[sftp]?).any (· ∈ lib.freedSessions) then .error .freedSftp else .ok ()

/-- A call on a handle. -/
def handleCall (lib : Libssh2) (handle : Nat) : Exec Unit :=
  match lib.handles[handle]? with
  | none => .ok ()
  | some sftp => lib.sftpCall sftp

/-- `libssh2_sftp_close`, which does nothing with `NULL` and whose result nothing looks at. -/
def sftpClose (lib : Libssh2) (handle : Option Nat) : Exec Libssh2 :=
  match handle with
  | none => return lib
  | some handle => do
    lib.handleCall handle
    return { lib with closedHandles := handle :: lib.closedHandles }

def sftpShutdown (lib : Libssh2) (sftp : Nat) : Exec Libssh2 := do
  lib.sftpCall sftp
  return { lib with shutdowns := sftp :: lib.shutdowns }

end Libssh2

/-- `l_ssh_session_t`: whether there is a socket, and the list of channels until it is freed. -/
structure LSshSession where
  session : Option Nat
  sockFd : Bool := false
  activeChannels : Option (List Nat) := some []
deriving DecidableEq

/-- `l_ssh_channel_t`. The pointer to the session object is its number. -/
structure LSshChannel where
  channel : Option Nat := none
  session : Option Nat := none
deriving DecidableEq

/-- `l_sftp_session_t`. The session is that of libssh2. -/
structure LSftpSession where
  sftpSession : Option Nat := none
  sftpHandle : Option Nat := none
  session : Option Nat := none
deriving DecidableEq

/-- libssh2 and the userdata of the three kinds. -/
structure World where
  lib : Libssh2 := {}
  sessions : Store LSshSession := ∅
  channels : Store LSshChannel := ∅
  sftps : Store LSftpSession := ∅

/-- `active_channels` is read or written. -/
def LSshSession.list (u : LSshSession) : Exec (List Nat) :=
  match u.activeChannels with
  | none => .error .freedChannels
  | some list => .ok list

/-- A session object is reached through a raw pointer. -/
def World.session (w : World) (i : Nat) : Exec LSshSession :=
  match w.sessions.get i with
  | none => .error .freedObject
  | some s => .ok s

def lModuleSshSessionInitUserpass (works : Bool) (w : World) : World :=
  if works then
    { w with
      lib := { w.lib with sessions := w.lib.sessions + 1 }
      sessions := w.sessions.add { session := some w.lib.sessions } }
  else w

/-- The handshake and the password may fail afterwards, which changes nothing here. -/
def lModuleSshSessionConnect (i : Nat) (connects : Bool) (u : LSshSession) (w : World) : Exec World :=
  match u.session with
  | none => return w
  | some session =>
    if u.sockFd then return w
    else if !connects then return w
    else do
      w.lib.sessionCall session
      return { w with sessions := w.sessions.put i { u with sockFd := true } }

/-- How the calls that end a session answer, the ones of the loop by position. -/
structure CloseAnswers where
  channelClose : Nat → Bool := fun _ => true
  channelFree : Nat → Bool := fun _ => true
  disconnect : Bool := true
  socketClose : Bool := true
  sessionFree : Bool := true

/-- The object afterwards, and whether there was no message. -/
def lModuleSshSessionDisconnect (answers : CloseAnswers) (u : LSshSession) (w : World) : Exec (LSshSession × Bool) :=
  match u.session with
  | none => return (u, false)
  | some session =>
    if !u.sockFd then return (u, false)
    else do
      w.lib.sessionCall session
      if !answers.disconnect then return (u, false)
      if !answers.socketClose then return (u, false)
      return ({ u with sockFd := false }, true)

/-- The loop of `l_module_ssh_session_close` from position `n` on, and whether it came to its end. -/
def closeChannels (answers : CloseAnswers) : Nat → List Nat → World → Exec (World × Bool)
  | _, [], w => return (w, true)
  | n, c :: rest, w =>
    match w.channels.get c with
    | none => .error .freedObject
    | some val => do
      let closed ← w.lib.channelClose val.channel (answers.channelClose n)
      if !closed then return (w, false)
      closeChannels answers (n + 1) rest { w with
        lib := w.lib.channelFree val.channel (answers.channelFree n)
        channels := w.channels.put c { channel := none, session := none } }

/-- The part of `l_module_ssh_session_close` after the loop. -/
def closeSession (i : Nat) (answers : CloseAnswers) (session : Nat) (u : LSshSession) (w : World) : Exec World := do
  let u := { u with activeChannels := none }
  let (u, down) ← (if u.sockFd then lModuleSshSessionDisconnect answers u w else .ok (u, true))
  if !down then return { w with sessions := w.sessions.put i u }
  w.lib.sessionCall session
  if !answers.sessionFree then return { w with sessions := w.sessions.put i u }
  return { w with
    lib := w.lib.sessionFree session
    sessions := w.sessions.put i { u with session := none, sockFd := false } }

def lModuleSshSessionClose (i : Nat) (answers : CloseAnswers) (u : LSshSession) (w : World) : Exec World :=
  match u.session with
  | none => return w
  | some session => do
    let list ← u.list
    let (w, closed) ← closeChannels answers 0 list w
    if !closed then return w
    closeSession i answers session u w

def lModuleSshChannelOpenSession (i : Nat) (works : Bool) (s : LSshSession) (w : World) : Exec World :=
  match s.session with
  | none => return w
  | some session => do
    w.lib.sessionCall session
    if !works then return w
    let list ← s.list
    return { w with
      lib := { w.lib with channels := w.lib.channels ++ [session] }
      sessions := w.sessions.put i { s with activeChannels := some (list ++ [w.channels.next]) }
      channels := w.channels.add { channel := some w.lib.channels.length, session := some i } }

/-- The loop of `l_module_ssh_channel_close`: the list, the bound, which shrinks with the
list, and `cleanup`. -/
def removeCounting (u : Nat) (list : List Nat) : Exec (List Nat × Nat × Nat) :=
  (List.range list.length).foldlM (fun (list, size, cleanup) i =>
    if i < size then
      match list[i]? with
      | none => .error .nullPointer
      | some val =>
        if val = u then .ok (list.eraseIdx i, size - 1, cleanup + 1) else .ok (list, size, cleanup)
    else .ok (list, size, cleanup)) (list, list.length, 0)

/-- The loop of `l_channel_ssh_gc`, whose bound stays what it was. -/
def removeAll (u : Nat) (list : List Nat) : Exec (List Nat) :=
  (List.range list.length).foldlM (fun list i =>
    match list[i]? with
    | none => .error .nullPointer
    | some val => if val = u then .ok (list.eraseIdx i) else .ok list) list

def lModuleSshChannelClose (c : Nat) (closes frees : Bool) (u : LSshChannel) (w : World) : Exec World :=
  match u.channel, u.session with
  | some channel, some i => do
    let closed ← w.lib.channelClose (some channel) closes
    if !closed then return w
    let s ← w.session i
    let (list, _, cleanup) ← removeCounting c (← s.list)
    let w := { w with
      lib := w.lib.channelFree (some channel) frees
      sessions := w.sessions.put i { s with activeChannels := some list } }
    if cleanup ≠ 1 then return w
    return { w with channels := w.channels.put c { channel := none, session := none } }
  | _, _ => return w

/-- `check_channel_udata` raises an error for a channel that is closed. -/
def lChannelSshGc (c : Nat) (closes frees : Bool) (u : LSshChannel) (w : World) : Exec World :=
  match u.channel, u.session with
  | some channel, some i => do
    let _ ← w.lib.channelClose (some channel) closes
    let s ← w.session i
    let list ← removeAll c (← s.list)
    return { w with
      lib := w.lib.channelFree (some channel) frees
      sessions := w.sessions.put i { s with activeChannels := some list }
      channels := w.channels.put c { channel := none, session := none } }
  | _, _ => return w

def lModuleSshSftpInit (works : Bool) (s : LSshSession) (w : World) : Exec World :=
  match s.session with
  | none => return w
  | some session => do
    w.lib.sessionCall session
    if !works then return w
    return { w with
      lib := { w.lib with sftps := w.lib.sftps ++ [session] }
      sftps := w.sftps.add { sftpSession := some w.lib.sftps.length, session := some session } }

def lModuleSshSftpOpen (f : Nat) (works : Bool) (u : LSftpSession) (w : World) : Exec World :=
  match u.sftpSession, u.sftpHandle, u.session with
  | some sftp, none, some _ => do
    w.lib.sftpCall sftp
    if works then
      return { w with
        lib := { w.lib with handles := w.lib.handles ++ [sftp] }
        sftps := w.sftps.put f { u with sftpHandle := some w.lib.handles.length } }
    else
      -- the error code is asked for
      w.lib.sftpCall sftp
      return w
  | _, _, _ => return w

def lModuleSshSftpRead (u : LSftpSession) (w : World) : Exec World :=
  match u.sftpSession, u.sftpHandle, u.session with
  | some _, some handle, some _ => do
    w.lib.handleCall handle
    return w
  | _, _, _ => return w

/-- A write that fails closes the handle. -/
def lModuleSshSftpWrite (f : Nat) (works : Bool) (u : LSftpSession) (w : World) : Exec World :=
  match u.sftpSession, u.sftpHandle, u.session with
  | some sftp, some handle, some _ => do
    w.lib.handleCall handle
    if works then return w
    else
      w.lib.sftpCall sftp
      let lib ← w.lib.sftpClose (some handle)
      return { w with lib, sftps := w.sftps.put f { u with sftpHandle := none } }
  | _, _, _ => return w

def lModuleSshSftpClose (f : Nat) (u : LSftpSession) (w : World) : Exec World :=
  match u.sftpSession, u.sftpHandle, u.session with
  | some _, some handle, some _ => do
    let lib ← w.lib.sftpClose (some handle)
    return { w with lib, sftps := w.sftps.put f { u with sftpHandle := none } }
  | _, _, _ => return w

def lModuleSshSftpShutdown (f : Nat) (u : LSftpSession) (w : World) : Exec World :=
  match u.sftpSession, u.sftpHandle, u.session with
  | some sftp, none, some _ => do
    let lib ← w.lib.sftpShutdown sftp
    return { w with lib, sftps := w.sftps.put f { u with sftpSession := none, session := none } }
  | _, _, _ => return w

/-- The calls of `l_module_ssh_sftp_file_info` and `l_module_ssh_sftp_resolve_symlink`:
`libssh2_sftp_stat_ex`, then the error code, the real path, or nothing, then its error code. -/
structure StatAnswers where
  stat : Bool
  realpath : Option Bool

def lModuleSshSftpFileInfo (answers : StatAnswers) (u : LSftpSession) (w : World) : Exec World :=
  match u.sftpSession with
  | none => return w
  | some sftp => do
    w.lib.sftpCall sftp
    if !answers.stat then
      w.lib.sftpCall sftp
      return w
    if answers.realpath.isSome then w.lib.sftpCall sftp
    return w

def lModuleSshSftpResolveSymlink (answers : StatAnswers) (u : LSftpSession) (w : World) : Exec World :=
  match u.sftpSession with
  | none => return w
  | some sftp => do
    w.lib.sftpCall sftp
    if !answers.stat then
      w.lib.sftpCall sftp
      return w
    match answers.realpath with
    | none => return w
    | some true =>
      w.lib.sftpCall sftp
      return w
    | some false =>
      w.lib.sftpCall sftp
      w.lib.sftpCall sftp
      return w

def lSftpSessionGc (f : Nat) (u : LSftpSession) (w : World) : Exec World :=
  match u.sftpSession with
  | none => return w
  | some sftp => do
    let lib ← w.lib.sftpClose u.sftpHandle
    let lib ← lib.sftpShutdown sftp
    return { w with lib, sftps := w.sftps.put f {} }

/-- What Lua may ask for. A collected object has no method called on it any more. -/
inductive Op where
  | sessionInit (works : Bool)
  | sessionConnect (i : Nat) (connects : Bool)
  | sessionDisconnect (i : Nat) (answers : CloseAnswers)
  | sessionClose (i : Nat) (answers : CloseAnswers)
  | sessionCollect (i : Nat) (answers : CloseAnswers)
  | channelOpen (i : Nat) (works : Bool)
  | channelClose (c : Nat) (closes frees : Bool)
  | channelCollect (c : Nat) (closes frees : Bool)
  | sftpInit (i : Nat) (works : Bool)
  | sftpOpen (f : Nat) (works : Bool)
  | sftpRead (f : Nat)
  | sftpWrite (f : Nat) (works : Bool)
  | sftpClose (f : Nat)
  | sftpShutdown (f : Nat)
  | sftpFileInfo (f : Nat) (answers : StatAnswers)
  | sftpResolveSymlink (f : Nat) (answers : StatAnswers)
  | sftpCollect (f : Nat)

/-- A method is called on an object, if Lua has it. -/
def onObject (store : Store α) (i : Nat) (w : World) (method : α → World → Exec World) : Exec World :=
  match store.get i with
  | none => return w
  | some u => method u w

def step (w : World) : Op → Exec World
  | .sessionInit works => return lModuleSshSessionInitUserpass works w
  | .sessionConnect i connects => onObject w.sessions i w (lModuleSshSessionConnect i connects)
  | .sessionDisconnect i answers =>
    onObject w.sessions i w fun u w => do
      let (u, _) ← lModuleSshSessionDisconnect answers u w
      return { w with sessions := w.sessions.put i u }
  | .sessionClose i answers => onObject w.sessions i w (lModuleSshSessionClose i answers)
  | .sessionCollect i answers =>
    onObject w.sessions i w fun u w => do
      let w ← lModuleSshSessionClose i answers u w
      return { w with sessions := w.sessions.drop i }
  | .channelOpen i works => onObject w.sessions i w (lModuleSshChannelOpenSession i works)
  | .channelClose c closes frees => onObject w.channels c w (lModuleSshChannelClose c closes frees)
  | .channelCollect c closes frees =>
    onObject w.channels c w fun u w => do
      let w ← lChannelSshGc c closes frees u w
      return { w with channels := w.channels.drop c }
  | .sftpInit i works => onObject w.sessions i w (lModuleSshSftpInit works)
  | .sftpOpen f works => onObject w.sftps f w (lModuleSshSftpOpen f works)
  | .sftpRead f => onObject w.sftps f w lModuleSshSftpRead
  | .sftpWrite f works => onObject w.sftps f w (lModuleSshSftpWrite f works)
  | .sftpClose f => onObject w.sftps f w (lModuleSshSftpClose f)
  | .sftpShutdown f => onObject w.sftps f w (lModuleSshSftpShutdown f)
  | .sftpFileInfo f answers => onObject w.sftps f w (lModuleSshSftpFileInfo answers)
  | .sftpResolveSymlink f answers => onObject w.sftps f w (lModuleSshSftpResolveSymlink answers)
  | .sftpCollect f =>
    onObject w.sftps f w fun u w => do
      let w ← lSftpSessionGc f u w
      return { w with sftps := w.sftps.drop f }

def run (ops : List Op) : Exec World := ops.foldlM step {}

end Ltf.Ssh
