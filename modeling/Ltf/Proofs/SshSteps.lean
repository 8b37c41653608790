import Ltf.Base.Steps
import Ltf.Ssh

/-! What one operation on an SFTP object can do, and why it may fault. -/

namespace Ltf.Proofs.SshSteps
open Ltf.Ssh Steps

/-- The object refers to an SFTP session or a handle whose SSH session was freed. -/
def Dangling (w : World) (u : LSftpSession) : Prop :=
  ∃ sftp, (u.sftpSession = some sftp ∨ ∃ handle, u.sftpHandle = some handle ∧ w.lib.handles[handle]? = some sftp) ∧
    ∃ session ∈ w.lib.freedSessions, w.lib.sftps[sftp]? = some session

/-- What an operation on an SFTP object changes. -/
inductive SftpEffect (w : World) (f : Nat) (u : LSftpSession) : World → Prop where
  | none : SftpEffect w f u w
  | opened {sftp : Nat} (session : u.sftpSession = some sftp) (closed : u.sftpHandle = none) :
    SftpEffect w f u { w with
      lib := { w.lib with handles := w.lib.handles ++ [sftp] }
      sftps := w.sftps.put f { u with sftpHandle := some w.lib.handles.length } }
  | closed {handle : Nat} (opened : u.sftpHandle = some handle) :
    SftpEffect w f u { w with
      lib := { w.lib with closedHandles := handle :: w.lib.closedHandles }
      sftps := w.sftps.put f { u with sftpHandle := none } }
  | shut {sftp : Nat} (session : u.sftpSession = some sftp) :
    SftpEffect w f u { w with
      lib := { w.lib with
        closedHandles := u.sftpHandle.toList ++ w.lib.closedHandles
        shutdowns := sftp :: w.lib.shutdowns }
      sftps := w.sftps.put f {} }

/-- An operation on an SFTP object has such an effect, or it faults on a dangling one. -/
def Effective (w : World) (f : Nat) (u : LSftpSession) : Exec World → Prop :=
  Sound (SftpEffect w f u) fun fault => fault = .freedSftp ∧ Dangling w u

section Calls
variable {w : World} {u : LSftpSession} {sftp handle : Nat}

/-- A call says nothing about the state but faults only on a dangling object. -/
def Calls (w : World) (u : LSftpSession) (call : Exec α) (holds : α → Prop) : Prop :=
  Sound holds (fun fault => fault = .freedSftp ∧ Dangling w u) call

theorem sftpCall_calls (own : u.sftpSession = some sftp ∨
      ∃ handle, u.sftpHandle = some handle ∧ w.lib.handles[handle]? = some sftp) :
    Calls w u (w.lib.sftpCall sftp) fun _ => True := by
  rw [Calls, Libssh2.sftpCall]
  split
  next freed =>
    obtain ⟨session, found, gone⟩ := (Option.any_eq_true _ _).mp freed
    exact ⟨rfl, sftp, own, session, by simpa using gone, found⟩
  next => trivial

theorem handleCall_calls (own : u.sftpHandle = some handle) : Calls w u (w.lib.handleCall handle) fun _ => True := by
  rw [Calls, Libssh2.handleCall]
  split
  next => trivial
  next sftp found => exact sftpCall_calls (.inr ⟨handle, own, found⟩)

theorem sftpClose_calls :
    Calls w u (w.lib.sftpClose u.sftpHandle) fun lib =>
      lib = { w.lib with closedHandles := u.sftpHandle.toList ++ w.lib.closedHandles } := by
  cases own : u.sftpHandle with
  | none => exact rfl
  | some handle => exact (handleCall_calls own).bind fun _ _ => rfl

theorem sftpShutdown_calls (own : u.sftpSession = some sftp) (closed : List Nat) :
    Calls w u (({ w.lib with closedHandles := closed } : Libssh2).sftpShutdown sftp) fun lib =>
      lib = { w.lib with closedHandles := closed, shutdowns := sftp :: w.lib.shutdowns } :=
  (sftpCall_calls (.inl own)).bind fun _ _ => rfl

end Calls

/-- A call in front of something that does no more than an operation may. -/
theorem Calls.followed {f : Nat} {call : Exec α} {next : α → Exec World} (called : Calls w u call fun _ => True)
    (rest : ∀ value, Effective w f u (next value)) : Effective w f u (call >>= next) :=
  called.bind fun value _ => rest value

section Operations
variable (w : World) (f : Nat) (u : LSftpSession)

theorem sftpOpen_effective (works : Bool) : Effective w f u (lModuleSshSftpOpen f works u w) := by
  unfold lModuleSshSftpOpen
  split
  next sftp _ own closed _ =>
    refine (sftpCall_calls (.inl own)).followed fun _ => ?_
    split
    next => exact .opened own closed
    next => exact (sftpCall_calls (.inl own)).followed fun _ => .none
  next => exact .none

theorem sftpRead_effective : Effective w f u (lModuleSshSftpRead u w) := by
  unfold lModuleSshSftpRead
  split
  next _ handle _ _ opened _ => exact (handleCall_calls opened).followed fun _ => .none
  next => exact .none

theorem sftpWrite_effective (works : Bool) : Effective w f u (lModuleSshSftpWrite f works u w) := by
  unfold lModuleSshSftpWrite
  split
  next sftp handle _ own opened _ =>
    apply Sound.bind (handleCall_calls opened)
    intro _ _
    split
    next => exact .none
    next =>
      apply Sound.bind (sftpCall_calls (.inl own))
      intro _ _
      apply Sound.bind (opened ▸ sftpClose_calls)
      rintro _ rfl
      exact .closed opened
  next => exact .none

theorem sftpClose_effective : Effective w f u (lModuleSshSftpClose f u w) := by
  unfold lModuleSshSftpClose
  split
  next _ handle _ _ opened _ =>
    apply Sound.bind (opened ▸ sftpClose_calls)
    rintro _ rfl
    exact .closed opened
  next => exact .none

theorem sftpShutdown_effective : Effective w f u (lModuleSshSftpShutdown f u w) := by
  unfold lModuleSshSftpShutdown
  split
  next sftp session own closed _ =>
    apply Sound.bind (sftpShutdown_calls own w.lib.closedHandles)
    rintro _ rfl
    have effect := SftpEffect.shut (w := w) (f := f) own
    simp only [closed, Option.toList_none, List.nil_append] at effect
    exact closed ▸ effect
  next => exact .none

theorem sftpFileInfo_effective (answers : StatAnswers) : Effective w f u (lModuleSshSftpFileInfo answers u w) := by
  unfold lModuleSshSftpFileInfo
  split
  next => exact .none
  next sftp own =>
    have call : Calls w u (w.lib.sftpCall sftp) fun _ => True := sftpCall_calls (.inl own)
    refine call.followed fun _ => ?_
    split
    next => exact call.followed fun _ => .none
    next =>
      split
      next => exact call.followed fun _ => .none
      next => exact .none

theorem sftpResolveSymlink_effective (answers : StatAnswers) :
    Effective w f u (lModuleSshSftpResolveSymlink answers u w) := by
  unfold lModuleSshSftpResolveSymlink
  split
  next => exact .none
  next sftp own =>
    have call : Calls w u (w.lib.sftpCall sftp) fun _ => True := sftpCall_calls (.inl own)
    refine call.followed fun _ => ?_
    split
    next => exact call.followed fun _ => .none
    next =>
      split
      next => exact .none
      next => exact call.followed fun _ => .none
      next => exact call.followed fun _ => call.followed fun _ => .none

theorem sftpGc_effective : Effective w f u (lSftpSessionGc f u w) := by
  unfold lSftpSessionGc
  split
  next => exact .none
  next sftp own =>
    apply Sound.bind sftpClose_calls
    rintro _ rfl
    apply Sound.bind (sftpShutdown_calls own _)
    rintro _ rfl
    exact .shut own

end Operations

/-- What an operation on an SFTP object leaves, which may also have been collected. -/
inductive SftpStep (w : World) (f : Nat) (u : LSftpSession) : World → Prop where
  | used {after : World} (effect : SftpEffect w f u after) : SftpStep w f u after
  | collected {after : World} (effect : SftpEffect w f u after) :
    SftpStep w f u { after with sftps := after.sftps.drop f }

/-- Sessions and channels are left alone. -/
structure SameSsh (w after : World) : Prop where
  sessions : after.sessions = w.sessions
  channels : after.channels = w.channels
  made : after.lib.sessions = w.lib.sessions
  opened : after.lib.channels = w.lib.channels
  freedSessions : after.lib.freedSessions = w.lib.freedSessions
  freedChannels : after.lib.freedChannels = w.lib.freedChannels

theorem SftpEffect.same {w after : World} {f : Nat} {u : LSftpSession} (effect : SftpEffect w f u after) :
    SameSsh w after := by
  cases effect <;> exact ⟨rfl, rfl, rfl, rfl, rfl, rfl⟩

theorem SftpStep.same {w after : World} {f : Nat} {u : LSftpSession} (taken : SftpStep w f u after) :
    SameSsh w after := by
  cases taken with
  | used effect => exact effect.same
  | collected effect =>
    have same := effect.same
    exact ⟨same.sessions, same.channels, same.made, same.opened, same.freedSessions, same.freedChannels⟩

def sftpObject : Op → Option Nat
  | .sftpOpen f _ | .sftpRead f | .sftpWrite f _ | .sftpClose f | .sftpShutdown f | .sftpFileInfo f _
  | .sftpResolveSymlink f _ | .sftpCollect f => some f
  | _ => none

theorem sftp_step {w : World} {op : Op} {f : Nat} {u : LSftpSession} (on : sftpObject op = some f)
    (live : w.sftps.get f = some u) :
    Sound (SftpStep w f u) (fun fault => fault = .freedSftp ∧ Dangling w u) (step w op) := by
  cases op <;> simp only [sftpObject, Option.some.injEq, reduceCtorEq] at on <;> subst on <;>
    simp only [step, onObject, live]
  case sftpOpen => exact (sftpOpen_effective ..).imp fun _ => .used
  case sftpRead => exact (sftpRead_effective ..).imp fun _ => .used
  case sftpWrite => exact (sftpWrite_effective ..).imp fun _ => .used
  case sftpClose => exact (sftpClose_effective ..).imp fun _ => .used
  case sftpShutdown => exact (sftpShutdown_effective ..).imp fun _ => .used
  case sftpFileInfo => exact (sftpFileInfo_effective ..).imp fun _ => .used
  case sftpResolveSymlink => exact (sftpResolveSymlink_effective ..).imp fun _ => .used
  case sftpCollect => exact (sftpGc_effective ..).bind fun _ => .collected

theorem sftp_step_absent {w : World} {op : Op} {f : Nat} (on : sftpObject op = some f)
    (absent : w.sftps.get f = none) : step w op = .ok w := by
  cases op <;> simp only [sftpObject, Option.some.injEq, reduceCtorEq] at on <;> subst on <;>
    simp only [step, onObject, absent] <;> rfl

/-- What libssh2 knows of SFTP. -/
def sftpPart (lib : Libssh2) : List Nat × List Nat × List Nat × List Nat :=
  (lib.sftps, lib.handles, lib.shutdowns, lib.closedHandles)

/-- No SSH session is opened, freed or given up, and SFTP is left alone. -/
structure SameSessions (w after : World) : Prop where
  sftps : after.sftps = w.sftps
  part : sftpPart after.lib = sftpPart w.lib
  made : after.lib.sessions = w.lib.sessions
  next : after.sessions.next = w.sessions.next
  freed : after.lib.freedSessions = w.lib.freedSessions
  sessions : ∀ i u, after.sessions.get i = some u → ∃ u', w.sessions.get i = some u' ∧ u'.session = u.session

/-- The SSH session of an object is freed, and SFTP is left alone. -/
structure FreesSession (w after : World) (i : Nat) : Prop where
  sftps : after.sftps = w.sftps
  part : sftpPart after.lib = sftpPart w.lib
  made : after.lib.sessions = w.lib.sessions
  next : after.sessions.next = w.sessions.next
  freed : after.lib.freedSessions = i :: w.lib.freedSessions
  sessions : ∀ j u, after.sessions.get j = some u →
    u.session = none ∨ j ≠ i ∧ ∃ u', w.sessions.get j = some u' ∧ u'.session = u.session

/-- Every open session object has an SSH session of its own, which was not freed. -/
structure Held (w : World) : Prop where
  made : w.lib.sessions = w.sessions.next
  freed : ∀ session ∈ w.lib.freedSessions, session < w.sessions.next
  held : ∀ i u session, w.sessions.get i = some u → u.session = some session →
    session = i ∧ i ∉ w.lib.freedSessions

theorem held_start : Held {} := by
  refine ⟨rfl, ?_, ?_⟩
  · intro _ freed
    cases freed
  · intro _ _ _ found
    cases found

theorem SameSessions.refl (w : World) : SameSessions w w :=
  ⟨rfl, rfl, rfl, rfl, rfl, fun _ u found => ⟨u, found, rfl⟩⟩

theorem SameSessions.trans {w middle after : World} (first : SameSessions w middle) (rest : SameSessions middle after) :
    SameSessions w after := by
  refine ⟨rest.sftps.trans first.sftps, rest.part.trans first.part, rest.made.trans first.made,
    rest.next.trans first.next, rest.freed.trans first.freed, ?_⟩
  intro i u found
  obtain ⟨u', found', same'⟩ := rest.sessions i u found
  obtain ⟨u'', found'', same''⟩ := first.sessions i u' found'
  exact ⟨u'', found'', same''.trans same'⟩

theorem SameSessions.held {w after : World} (same : SameSessions w after) (held : Held w) : Held after := by
  refine ⟨by rw [same.made, same.next, held.made], ?_, ?_⟩
  · rw [same.freed, same.next]
    exact held.freed
  · intro i u session found own
    obtain ⟨u', found', same'⟩ := same.sessions i u found
    rw [same.freed]
    exact held.held i u' session found' (same'.trans own)

theorem FreesSession.held {w after : World} {i : Nat} (frees : FreesSession w after i) (below : i < w.sessions.next)
    (held : Held w) : Held after := by
  refine ⟨by rw [frees.made, frees.next, held.made], ?_, ?_⟩
  · rw [frees.freed, frees.next]
    exact List.forall_mem_cons.mpr ⟨below, held.freed⟩
  · intro j u session found own
    obtain closed | ⟨other, u', found', same⟩ := frees.sessions j u found
    · rw [closed] at own
      cases own
    obtain ⟨rfl, kept⟩ := held.held j u' session found' (same.trans own)
    rw [frees.freed]
    exact ⟨rfl, by simp [other, kept]⟩

theorem SameSsh.held {w after : World} (same : SameSsh w after) (held : Held w) : Held after := by
  obtain ⟨sessions, _, made, _, freed, _⟩ := same
  exact ⟨by rw [made, sessions, held.made], by rw [freed, sessions]; exact held.freed,
    by rw [freed, sessions]; exact held.held⟩

theorem init_held {w : World} (held : Held w) (works : Bool) : Held (lModuleSshSessionInitUserpass works w) := by
  unfold lModuleSshSessionInitUserpass
  split
  next =>
    refine ⟨by simp [held.made], ?_, ?_⟩
    · intro session freed
      exact Nat.lt_succ_of_lt (held.freed session freed)
    · intro i u session found own
      rw [Store.add_get] at found
      split at found
      next here =>
        cases found
        cases own
        exact ⟨held.made.trans here.symm, fun freed => absurd (held.freed i freed) (by omega)⟩
      next => exact held.held i u session found own
  next => exact held

theorem put_session {store : Store LSshSession} {i : Nat} {u u' : LSshSession} (found : store.get i = some u)
    (same : u.session = u'.session) (j : Nat) (v : LSshSession) (after : (store.put i u').get j = some v) :
    ∃ v', store.get j = some v' ∧ v'.session = v.session := by
  rw [Store.put_get (by rw [found]; rfl)] at after
  split at after
  next here =>
    cases after
    exact ⟨u, here ▸ found, same⟩
  next => exact ⟨v, after, rfl⟩

theorem SameSessions.drop {w after : World} (same : SameSessions w after) (i : Nat) :
    SameSessions w { after with sessions := after.sessions.drop i } := by
  refine ⟨same.sftps, same.part, same.made, same.next, same.freed, ?_⟩
  intro j u found
  rw [Store.drop_get] at found
  split at found
  · cases found
  · exact same.sessions j u found

theorem FreesSession.drop {w after : World} {i : Nat} (frees : FreesSession w after i) :
    FreesSession w { after with sessions := after.sessions.drop i } i := by
  refine ⟨frees.sftps, frees.part, frees.made, frees.next, frees.freed, ?_⟩
  intro j u found
  rw [Store.drop_get] at found
  split at found
  · cases found
  · exact frees.sessions j u found

/-- Nothing of SFTP is at fault. -/
def Apart (holds : World → Prop) : Exec World → Prop := Sound holds (· ≠ .freedSftp)

section Sessions
variable {w : World} {i : Nat} {u : LSshSession}

theorem Held.call (held : Held w) {session : Nat} (found : w.sessions.get i = some u)
    (own : u.session = some session) : w.lib.sessionCall session = .ok () := by
  obtain ⟨rfl, kept⟩ := held.held i u session found own
  exact if_neg kept

theorem SameSessions.put (found : w.sessions.get i = some u) {u' : LSshSession} (same : u.session = u'.session) :
    SameSessions w { w with sessions := w.sessions.put i u' } :=
  ⟨rfl, rfl, rfl, rfl, rfl, put_session found same⟩

theorem connect_ok (held : Held w) (found : w.sessions.get i = some u) (connects : Bool) :
    lModuleSshSessionConnect i connects u w = .ok w ∨
      lModuleSshSessionConnect i connects u w =
        .ok { w with sessions := w.sessions.put i { u with sockFd := true } } := by
  unfold lModuleSshSessionConnect
  split
  next => exact .inl rfl
  next session own =>
    split
    next => exact .inl rfl
    split
    next => exact .inl rfl
    next =>
      rw [held.call found own]
      exact .inr rfl

/-- A disconnect changes nothing but the socket. -/
theorem disconnect_ok (held : Held w) (found : w.sessions.get i = some u) (answers : CloseAnswers) {u' : LSshSession}
    (same : u'.session = u.session) :
    ∃ socket down, lModuleSshSessionDisconnect answers u' w = .ok ({ u' with sockFd := socket }, down) ∧
      (down = true → answers.disconnect = true ∧ answers.socketClose = true) := by
  unfold lModuleSshSessionDisconnect
  split
  next => exact ⟨u'.sockFd, false, rfl, nofun⟩
  next session own =>
    split
    next => exact ⟨u'.sockFd, false, rfl, nofun⟩
    rw [held.call found (same ▸ own), bind_of_ok rfl]
    split
    next => exact ⟨u'.sockFd, false, rfl, nofun⟩
    next works =>
      split
      next => exact ⟨u'.sockFd, false, rfl, nofun⟩
      next closes => exact ⟨false, true, rfl, fun _ => ⟨by simpa using works, by simpa using closes⟩⟩

/-- The close of a channel object by the loop over a session. -/
def closedChannel (w : World) (c : Nat) (channel : Option Nat) (frees : Bool) : World :=
  { w with lib := w.lib.channelFree channel frees, channels := w.channels.put c { channel := none, session := none } }

def channelOf (w : World) (c : Nat) : Option Nat := (w.channels.get c).bind (·.channel)

theorem closedChannel_sessions (w : World) (c : Nat) (channel : Option Nat) (frees : Bool) :
    SameSessions w (closedChannel w c channel frees) :=
  ⟨rfl, rfl, rfl, rfl, rfl, fun _ u found => ⟨u, found, rfl⟩⟩

theorem channelOf_closed {c d : Nat} {channel : Option Nat} {frees : Bool}
    (opened : channelOf (closedChannel w c channel frees) d ≠ none) : channelOf w d ≠ none := by
  by_cases same : d = c
  · subst same
    simp only [channelOf, closedChannel, Store.put, if_true] at opened
    cases found : w.channels.get d with
    | none => simp [found] at opened
    | some v => simp [found] at opened
  · simpa only [channelOf, closedChannel, Store.put_get_of_ne same] using opened

/-- The loop over a session ends only if all its channels are open and close. -/
theorem closeChannels_sessions (answers : CloseAnswers) (n : Nat) (list : List Nat) (w : World) :
    Sound (fun result => SameSessions w result.1 ∧ result.1.sessions = w.sessions ∧
        (result.2 = true → ∀ m c, list[m]? = some c → answers.channelClose (n + m) = true ∧ channelOf w c ≠ none))
      (· ≠ .freedSftp) (closeChannels answers n list w) := by
  induction list generalizing n w with
  | nil => exact ⟨.refl w, rfl, by simp⟩
  | cons c rest ih =>
    rw [closeChannels]
    split
    next => exact nofun
    next val found =>
      cases own : val.channel with
      | none => exact ⟨.refl w, rfl, nofun⟩
      | some channel =>
        show Sound _ _ ((if _ then _ else _) >>= _)
        split
        next => exact nofun
        show Sound _ _ (if _ then _ else _)
        split
        next => exact ⟨.refl w, rfl, nofun⟩
        next works =>
          apply (ih (n + 1) _).imp
          rintro ⟨after, closed⟩ ⟨same, sessions, all⟩
          refine ⟨(closedChannel_sessions w c (some channel) (answers.channelFree n)).trans same, sessions, ?_⟩
          intro done m d position
          cases m with
          | zero =>
            obtain rfl : c = d := by simpa using position
            exact ⟨by simpa using works, by simp [channelOf, found, own]⟩
          | succ m =>
            obtain ⟨closes, opened⟩ := all done m d (by simpa using position)
            exact ⟨by rw [← closes]; congr 1; omega, channelOf_closed opened⟩

/-- Every answer that a close of the session needs to free it is given. -/
def Frees (w : World) (u : LSshSession) (answers : CloseAnswers) : Prop :=
  (∀ m c, (u.activeChannels.getD [])[m]? = some c → answers.channelClose m = true ∧ channelOf w c ≠ none) ∧
    (u.sockFd = true → answers.disconnect = true ∧ answers.socketClose = true) ∧ answers.sessionFree = true

theorem closeSession_sessions (held : Held w) (found : w.sessions.get i = some u) (own : u.session = some i)
    (answers : CloseAnswers) :
    Apart (fun after => SameSessions w after ∨ FreesSession w after i ∧
        (u.sockFd = true → answers.disconnect = true ∧ answers.socketClose = true) ∧ answers.sessionFree = true)
      (closeSession i answers i u w) := by
  unfold closeSession
  let u' : LSshSession := { u with activeChannels := none }
  have disconnects : Sound (fun result : LSshSession × Bool => result.1.session = u.session ∧
        (result.2 = true → u.sockFd = true → answers.disconnect = true ∧ answers.socketClose = true))
      (· ≠ .freedSftp) (if u'.sockFd then lModuleSshSessionDisconnect answers u' w else .ok (u', true)) := by
    split
    next connected =>
      have same : u'.session = u.session := rfl
      obtain ⟨socket, down, ran, works⟩ := disconnect_ok held found answers same
      rw [ran]
      exact ⟨same, fun done _ => works done⟩
    next apart => exact ⟨rfl, fun _ connected => absurd connected apart⟩
  apply disconnects.bind
  rintro ⟨v, down⟩ ⟨same, works⟩
  show Apart _ (if _ then _ else _)
  split
  next => exact .inl (.put found same.symm)
  next done =>
    rw [held.call found own]
    show Apart _ (if _ then _ else _)
    split
    next => exact .inl (.put found same.symm)
    next frees =>
      refine .inr ⟨⟨rfl, rfl, rfl, rfl, rfl, ?_⟩, works (by simpa using done), by simpa using frees⟩
      intro j v' after
      rw [Store.put_get (by rw [found]; rfl)] at after
      split at after
      next =>
        cases after
        exact .inl rfl
      next other => exact .inr ⟨other, v', after, rfl⟩

/-- A close frees the SSH session of its object or leaves it as it is. -/
theorem close_sessions (held : Held w) (found : w.sessions.get i = some u) (answers : CloseAnswers) :
    Apart (fun after => SameSessions w after ∨ FreesSession w after i ∧ u.session = some i ∧ Frees w u answers)
      (lModuleSshSessionClose i answers u w) := by
  unfold lModuleSshSessionClose
  split
  next => exact .inl (.refl w)
  next session own =>
    obtain ⟨rfl, _⟩ := held.held i u session found own
    rw [LSshSession.list]
    split
    next => exact nofun
    next list active =>
      apply Sound.bind (closeChannels_sessions answers 0 list w)
      rintro ⟨middle, closed⟩ ⟨same, sessions, all⟩
      show Apart _ (if _ then _ else _)
      split
      next => exact .inl same
      next done =>
        have there : middle.sessions.get session = some u := by rw [sessions, found]
        apply (closeSession_sessions (same.held held) there own answers).imp
        rintro after (kept | ⟨frees, answered⟩)
        · exact .inl (same.trans kept)
        refine .inr ⟨⟨frees.sftps.trans same.sftps, frees.part.trans same.part, frees.made.trans same.made,
          frees.next.trans same.next, by rw [frees.freed, same.freed], ?_⟩, own, ?_, answered⟩
        · intro j v after
          obtain closed | ⟨other, v', found', same'⟩ := frees.sessions j v after
          · exact .inl closed
          · obtain ⟨v'', found'', same''⟩ := same.sessions j v' found'
            exact .inr ⟨other, v'', found'', same''.trans same'⟩
        · simpa [active] using all (by simpa using done)

theorem channelOpen_sessions (held : Held w) (found : w.sessions.get i = some u) (works : Bool) :
    Apart (SameSessions w) (lModuleSshChannelOpenSession i works u w) := by
  unfold lModuleSshChannelOpenSession
  split
  next => exact .refl w
  next session own =>
    rw [held.call found own]
    show Apart _ (if _ then _ else _)
    split
    next => exact .refl w
    next =>
      rw [LSshSession.list]
      split
      next => exact nofun
      next list active => exact ⟨rfl, rfl, rfl, rfl, rfl, put_session found rfl⟩

theorem channelClose_apart (lib : Libssh2) (channel : Option Nat) (works : Bool) :
    Sound (fun _ => True) (· ≠ Fault.freedSftp) (lib.channelClose channel works) := by
  unfold Libssh2.channelClose
  split
  next => trivial
  next =>
    split
    next => exact nofun
    next => trivial

theorem session_apart (w : World) (i : Nat) :
    Sound (fun u => w.sessions.get i = some u) (· ≠ Fault.freedSftp) (w.session i) := by
  unfold World.session
  split
  next => exact nofun
  next u found => exact found

theorem list_apart (u : LSshSession) : Sound (fun _ => True) (· ≠ Fault.freedSftp) u.list := by
  unfold LSshSession.list
  split
  next => exact nofun
  next => trivial

/-- A loop whose only fault is a null pointer. -/
theorem foldlM_apart {step : σ → Nat → Exec σ} (each : ∀ state i, Sound (fun _ => True) (· ≠ .freedSftp) (step state i))
    (start : σ) (positions : List Nat) :
    Sound (fun _ => True) (· ≠ .freedSftp) (positions.foldlM step start) :=
  Sound.foldlM (fun state i _ (_ : True) => each state i) trivial fun _ _ _ _ _ _ => trivial

theorem removeCounting_apart (c : Nat) (list : List Nat) :
    Sound (fun _ => True) (· ≠ .freedSftp) (removeCounting c list) := by
  apply foldlM_apart
  rintro ⟨list, size, cleanup⟩ i
  show Sound _ _ (if _ then _ else _)
  split
  next =>
    split
    next => exact nofun
    next => split <;> trivial
  next => trivial

theorem removeAll_apart (c : Nat) (list : List Nat) : Sound (fun _ => True) (· ≠ .freedSftp) (removeAll c list) := by
  apply foldlM_apart
  intro list i
  split
  next => exact nofun
  next => split <;> trivial

theorem channelClose_sessions (w : World) (c : Nat) (closes frees : Bool) (v : LSshChannel) :
    Apart (SameSessions w) (lModuleSshChannelClose c closes frees v w) := by
  unfold lModuleSshChannelClose
  split
  next channel i _ _ =>
    apply Sound.bind (channelClose_apart w.lib (some channel) closes)
    intro closed _
    split
    next => exact .refl w
    next =>
      apply Sound.bind (session_apart w i)
      intro u found
      apply Sound.bind (list_apart u)
      intro list _
      apply Sound.bind (removeCounting_apart c list)
      rintro ⟨list, size, cleanup⟩ _
      show Apart _ (if _ then _ else _)
      split
      · exact ⟨rfl, rfl, rfl, rfl, rfl, put_session found rfl⟩
      · exact ⟨rfl, rfl, rfl, rfl, rfl, put_session found rfl⟩
  next => exact .refl w

theorem channelGc_sessions (w : World) (c : Nat) (closes frees : Bool) (v : LSshChannel) :
    Apart (SameSessions w) (lChannelSshGc c closes frees v w) := by
  unfold lChannelSshGc
  split
  next channel i _ _ =>
    apply Sound.bind (channelClose_apart w.lib (some channel) closes)
    intro _ _
    apply Sound.bind (session_apart w i)
    intro u found
    apply Sound.bind (list_apart u)
    intro list _
    apply Sound.bind (removeAll_apart c list)
    intro list _
    exact ⟨rfl, rfl, rfl, rfl, rfl, put_session found rfl⟩
  next => exact .refl w

theorem sftpInit_ok (held : Held w) (found : w.sessions.get i = some u) (works : Bool) :
    ∃ after, lModuleSshSftpInit works u w = .ok after ∧ SameSsh w after := by
  unfold lModuleSshSftpInit
  split
  next => exact ⟨w, rfl, ⟨rfl, rfl, rfl, rfl, rfl, rfl⟩⟩
  next session own =>
    rw [held.call found own, bind_of_ok rfl]
    split <;> exact ⟨_, rfl, ⟨rfl, rfl, rfl, rfl, rfl, rfl⟩⟩

end Sessions

/-- The session object that an operation ends. -/
def closeOf : Op → Option (Nat × CloseAnswers)
  | .sessionClose i answers | .sessionCollect i answers => some (i, answers)
  | _ => none

/-- What an operation that is not on an SFTP object does to the SSH sessions. -/
inductive SshStep (w : World) (op : Op) : World → Prop where
  | opened {works : Bool} (init : op = .sessionInit works) : SshStep w op (lModuleSshSessionInitUserpass works w)
  | begun {i : Nat} {works : Bool} {after : World} (init : op = .sftpInit i works) (same : SameSsh w after) :
    SshStep w op after
  | same {after : World} (same : SameSessions w after) : SshStep w op after
  | freed {i : Nat} {u : LSshSession} {answers : CloseAnswers} {after : World} (close : closeOf op = some (i, answers))
    (found : w.sessions.get i = some u) (own : u.session = some i) (answered : Frees w u answers)
    (frees : FreesSession w after i) : SshStep w op after

theorem on_object {w : World} {op : Op} {store : Store α} {i : Nat} {method : α → World → Exec World}
    (each : ∀ u, store.get i = some u → Apart (SshStep w op) (method u w)) :
    Apart (SshStep w op) (onObject store i w method) := by
  unfold onObject
  split
  next => exact .same (.refl w)
  next u found => exact each u found

theorem ssh_step {w : World} (held : Held w) (op : Op) (other : sftpObject op = none) :
    Apart (SshStep w op) (step w op) := by
  cases op with
  | sessionInit works => exact .opened rfl
  | sessionConnect i connects =>
    apply on_object
    intro u found
    rcases connect_ok held found connects with ran | ran
    · rw [ran]
      exact .same (.refl w)
    · rw [ran]
      exact .same (.put found rfl)
  | sessionDisconnect i answers =>
    apply on_object
    intro u found
    obtain ⟨socket, _, ran, _⟩ := disconnect_ok held found answers rfl
    rw [bind_of_ok ran]
    exact .same (.put found rfl)
  | sessionClose i answers =>
    apply on_object
    intro u found
    apply (close_sessions held found answers).imp
    rintro after (same | ⟨frees, own, answered⟩)
    · exact .same same
    · exact .freed rfl found own answered frees
  | sessionCollect i answers =>
    apply on_object
    intro u found
    apply (close_sessions held found answers).bind
    rintro after (same | ⟨frees, own, answered⟩)
    · exact .same (same.drop i)
    · exact .freed rfl found own answered frees.drop
  | channelOpen i works =>
    apply on_object
    exact fun u found => (channelOpen_sessions held found works).imp fun _ => .same
  | channelClose c closes frees =>
    apply on_object
    exact fun v _ => (channelClose_sessions w c closes frees v).imp fun _ => .same
  | channelCollect c closes frees =>
    apply on_object
    intro v _
    apply (channelGc_sessions w c closes frees v).bind
    intro after same
    exact .same ⟨same.sftps, same.part, same.made, same.next, same.freed, same.sessions⟩
  | sftpInit i works =>
    apply on_object
    intro u found
    obtain ⟨after, ran, same⟩ := sftpInit_ok held found works
    rw [ran]
    exact .begun rfl same
  | _ => cases other

theorem SshStep.held {w after : World} {op : Op} (taken : SshStep w op after) (held : Held w) : Held after := by
  cases taken with
  | opened => exact init_held held _
  | begun _ same => exact same.held held
  | same same => exact same.held held
  | freed _ found _ _ frees => exact frees.held (Store.lt_next found) held

/-- Whatever is done, an open session object refers to an SSH session of its own that is there. -/
theorem step_held {w : World} (held : Held w) (op : Op) : Ends (step w op) Held := by
  intro after ran
  cases on : sftpObject op with
  | none => exact ((ssh_step held op on).of_ok ran).held held
  | some f =>
    cases found : w.sftps.get f with
    | none =>
      rw [sftp_step_absent on found] at ran
      cases ran
      exact held
    | some u => exact ((sftp_step on found).of_ok ran).same.held held

end Ltf.Proofs.SshSteps
