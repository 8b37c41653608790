import Mathlib.Data.List.Nodup
import Ltf.Proofs.SshSteps

/-! An SFTP object keeps the pointer of libssh2 to the SSH session it was made on, and
nobody tells it when that session is freed. What it closes, it closes once. -/

namespace Ltf.Proofs.SshSftp
open Ltf.Ssh Steps SshSteps

/-- The end of a session object frees the SSH session while an SFTP object refers to it. -/
def Strands (w : World) (i : Nat) (answers : CloseAnswers) : Prop :=
  ∃ u session, w.sessions.get i = some u ∧ u.session = some session ∧ Frees w u answers ∧
    ∃ f v, w.sftps.get f = some v ∧ v.session = some session

/-- No SSH session is freed before the SFTP objects on it are shut down or collected. -/
def Settles (w : World) : Op → Prop
  | .sessionClose i answers | .sessionCollect i answers => ¬ Strands w i answers
  | _ => True

/-- No SFTP call came too late, and no handle and no SFTP session was released twice. -/
def SftpSafe (outcome : Exec World) : Prop :=
  outcome ≠ .error .freedSftp ∧
    ∀ w, outcome = .ok w → w.lib.closedHandles.Nodup ∧ w.lib.shutdowns.Nodup

/-- What an SFTP object holds is its own and has not been released. -/
structure Fits (w : World) (f : Nat) (u : LSftpSession) : Prop where
  session : ∀ sftp, u.sftpSession = some sftp →
    sftp = f ∧ f ∉ w.lib.shutdowns ∧ ∃ session, u.session = some session ∧ w.lib.sftps[f]? = some session
  handle : ∀ handle, u.sftpHandle = some handle →
    u.sftpSession ≠ none ∧ handle ∉ w.lib.closedHandles ∧ w.lib.handles[handle]? = some f

structure Valid (w : World) : Prop where
  made : w.lib.sftps.length = w.sftps.next
  fits : ∀ f u, w.sftps.get f = some u → Fits w f u
  closed : w.lib.closedHandles.Nodup
  shut : w.lib.shutdowns.Nodup
  opened : ∀ handle ∈ w.lib.closedHandles, handle < w.lib.handles.length
  begun : ∀ sftp ∈ w.lib.shutdowns, sftp < w.lib.sftps.length

/-- The SSH session of every SFTP object in use is there. -/
def Alive (w : World) : Prop :=
  ∀ f u session, w.sftps.get f = some u → u.sftpSession ≠ none → u.session = some session →
    session ∉ w.lib.freedSessions

variable {w after : World} {f i : Nat} {u : LSftpSession}

theorem valid_start : Valid {} := by
  refine ⟨rfl, ?_, .nil, .nil, ?_, ?_⟩
  · intro _ _ found
    cases found
  · intro _ closed
    cases closed
  · intro _ shut
    cases shut

theorem Fits.nothing : Fits w f {} := by
  constructor
  · intro _ own
    cases own
  · intro _ own
    cases own

/-- Another object releases only what is its own. -/
theorem Fits.other {g : Nat} {v : LSftpSession} (fits : Fits w g v) (different : g ≠ f)
    (made : after.lib.sftps = w.lib.sftps) (opened : ∀ handle : Nat, w.lib.handles[handle]? = some g →
      after.lib.handles[handle]? = some g)
    (closed : ∀ handle ∈ after.lib.closedHandles, handle ∈ w.lib.closedHandles ∨ w.lib.handles[handle]? = some f)
    (shut : ∀ sftp ∈ after.lib.shutdowns, sftp ∈ w.lib.shutdowns ∨ sftp = f) : Fits after g v := by
  constructor
  · intro sftp own
    obtain ⟨same, kept, session, known, belongs⟩ := fits.session sftp own
    refine ⟨same, ?_, session, known, made ▸ belongs⟩
    intro gone
    rcases shut g gone with before | now
    · exact kept before
    · exact different now
  · intro handle own
    obtain ⟨used, kept, belongs⟩ := fits.handle handle own
    refine ⟨used, ?_, opened handle belongs⟩
    intro gone
    rcases closed handle gone with before | now
    · exact kept before
    · exact different (Option.some.inj (belongs.symm.trans now))

theorem Valid.drop (valid : Valid w) (f : Nat) : Valid { w with sftps := w.sftps.drop f } := by
  refine ⟨valid.made, ?_, valid.closed, valid.shut, valid.opened, valid.begun⟩
  intro g v found
  rw [Store.drop_get] at found
  split at found
  · cases found
  obtain ⟨session, handle⟩ := valid.fits g v found
  exact ⟨session, handle⟩

theorem put_fits {lib : Libssh2} {v : LSftpSession} (found : w.sftps.get f = some u)
    (own : Fits { w with lib, sftps := w.sftps.put f v } f v)
    (others : ∀ g v', g ≠ f → w.sftps.get g = some v' → Fits { w with lib, sftps := w.sftps.put f v } g v') :
    ∀ g v', (w.sftps.put f v).get g = some v' → Fits { w with lib, sftps := w.sftps.put f v } g v' := by
  intro g v' there
  rw [Store.put_get (by rw [found]; rfl)] at there
  split at there
  next here =>
    cases there
    exact here ▸ own
  next different => exact others g v' different there

/-- An object releases handles and SFTP sessions that are its own and that it still has. -/
theorem Valid.release (valid : Valid w) (found : w.sftps.get f = some u) {v : LSftpSession} {handles sftps : List Nat}
    (once : handles.Nodup)
    (own : ∀ handle ∈ handles, handle ∉ w.lib.closedHandles ∧ w.lib.handles[handle]? = some f)
    (one : sftps.Nodup) (mine : ∀ sftp ∈ sftps, sftp = f ∧ f ∉ w.lib.shutdowns ∧ f < w.lib.sftps.length)
    (fits : ∀ after : World, after.lib.shutdowns = sftps ++ w.lib.shutdowns → after.lib.sftps = w.lib.sftps →
      Fits after f v) :
    Valid { w with
      lib := { w.lib with
        closedHandles := handles ++ w.lib.closedHandles
        shutdowns := sftps ++ w.lib.shutdowns }
      sftps := w.sftps.put f v } := by
  refine ⟨valid.made, put_fits found (fits _ rfl rfl) ?_, ?_, ?_, ?_, ?_⟩
  · intro g v' different there
    apply (valid.fits g v' there).other different
    · rfl
    · exact fun _ => id
    · intro handle gone
      rcases List.mem_append.mp gone with now | before
      · exact .inr (own handle now).2
      · exact .inl before
    · intro sftp gone
      rcases List.mem_append.mp gone with now | before
      · exact .inr (mine sftp now).1
      · exact .inl before
  · apply List.nodup_append.mpr
    refine ⟨once, valid.closed, ?_⟩
    rintro handle now _ before rfl
    exact (own handle now).1 before
  · apply List.nodup_append.mpr
    refine ⟨one, valid.shut, ?_⟩
    rintro sftp now _ before rfl
    obtain ⟨rfl, kept, _⟩ := mine sftp now
    exact kept before
  · intro handle gone
    rcases List.mem_append.mp gone with now | before
    · exact (List.getElem?_eq_some_iff.mp (own handle now).2).1
    · exact valid.opened handle before
  · intro sftp gone
    rcases List.mem_append.mp gone with now | before
    · obtain ⟨rfl, _, bound⟩ := mine sftp now
      exact bound
    · exact valid.begun sftp before

theorem effect_valid (valid : Valid w) (found : w.sftps.get f = some u) (effect : SftpEffect w f u after) :
    Valid after := by
  have fits := valid.fits f u found
  cases effect with
  | none => exact valid
  | @opened sftp session free =>
    obtain ⟨rfl, kept, known⟩ := fits.session sftp session
    refine ⟨valid.made, put_fits found ?_ ?_, valid.closed, valid.shut, ?_, valid.begun⟩
    · refine ⟨fits.session, ?_⟩
      rintro _ ⟨⟩
      refine ⟨by simp [session], fun gone => ?_, by simp⟩
      exact absurd (valid.opened _ gone) (Nat.lt_irrefl _)
    · intro g v different there
      apply (valid.fits g v there).other different
      · rfl
      · intro handle belongs
        have inside : handle < w.lib.handles.length := (List.getElem?_eq_some_iff.mp belongs).1
        rw [← belongs]
        exact List.getElem?_append_left inside
      · exact fun _ => .inl
      · exact fun _ => .inl
    · intro handle gone
      have bound := valid.opened handle gone
      rw [List.length_append]
      omega
  | @closed handle opened =>
    obtain ⟨used, kept, belongs⟩ := fits.handle handle opened
    have own : ∀ other ∈ [handle], other ∉ w.lib.closedHandles ∧ w.lib.handles[other]? = some f := by
      simp [kept, belongs]
    have nothing : ∀ sftp ∈ ([] : List Nat), sftp = f ∧ f ∉ w.lib.shutdowns ∧ f < w.lib.sftps.length := by simp
    apply valid.release found (List.nodup_singleton handle) own .nil nothing
    intro after shut made
    refine ⟨?_, nofun⟩
    rw [shut, made]
    exact fits.session
  | @shut sftp session =>
    obtain ⟨rfl, kept, _, _, belongs⟩ := fits.session sftp session
    have bound : sftp < w.lib.sftps.length := (List.getElem?_eq_some_iff.mp belongs).1
    have one : u.sftpHandle.toList.Nodup := by cases u.sftpHandle <;> simp
    have own : ∀ handle ∈ u.sftpHandle.toList, handle ∉ w.lib.closedHandles ∧ w.lib.handles[handle]? = some sftp := by
      intro handle opened
      exact (fits.handle handle (by simpa using opened)).2
    have mine : ∀ other ∈ [sftp], other = sftp ∧ sftp ∉ w.lib.shutdowns ∧ sftp < w.lib.sftps.length := by
      simp [kept, bound]
    exact valid.release found one own (List.nodup_singleton sftp) mine fun _ _ _ => .nothing

/-- An object that is in use after a write referred to the same session before. -/
theorem put_alive {lib : Libssh2} {v : LSftpSession} (alive : Alive w) (found : w.sftps.get f = some u)
    (same : v.sftpSession ≠ none → u.sftpSession ≠ none ∧ v.session = u.session)
    (freed : lib.freedSessions = w.lib.freedSessions) : Alive { w with lib, sftps := w.sftps.put f v } := by
  intro g v' session there used own
  rw [Store.put_get (by rw [found]; rfl)] at there
  show session ∉ lib.freedSessions
  rw [freed]
  split at there
  next =>
    cases there
    obtain ⟨before, pointer⟩ := same used
    exact alive f u session found before (pointer ▸ own)
  next => exact alive g v' session there used own

theorem effect_alive (found : w.sftps.get f = some u) (effect : SftpEffect w f u after) (alive : Alive w) :
    Alive after := by
  cases effect with
  | none => exact alive
  | opened =>
    apply put_alive alive found
    · exact fun used => ⟨used, rfl⟩
    · rfl
  | closed =>
    apply put_alive alive found
    · exact fun used => ⟨used, rfl⟩
    · rfl
  | shut =>
    apply put_alive alive found
    · exact fun used => absurd rfl used
    · rfl

theorem Alive.drop (alive : Alive w) (f : Nat) : Alive { w with sftps := w.sftps.drop f } := by
  intro g v session found used own
  rw [Store.drop_get] at found
  split at found
  · cases found
  · exact alive g v session found used own

theorem dangling_dead (valid : Valid w) (found : w.sftps.get f = some u) (dangling : Dangling w u) : ¬ Alive w := by
  intro alive
  obtain ⟨sftp, own, session, freed, belongs⟩ := dangling
  have fits := valid.fits f u found
  have used : u.sftpSession = some sftp := by
    rcases own with direct | ⟨handle, opened, part⟩
    · exact direct
    obtain ⟨used, _, same⟩ := fits.handle handle opened
    obtain ⟨other, own⟩ := Option.ne_none_iff_exists'.mp used
    obtain rfl : f = sftp := Option.some.inj (same.symm.trans part)
    rw [own, (fits.session other own).1]
  obtain ⟨rfl, _, session', pointer, known⟩ := fits.session sftp used
  obtain rfl : session' = session := Option.some.inj (known.symm.trans belongs)
  exact alive sftp u session' found (by simp [used]) pointer freed

theorem Valid.same (valid : Valid w) (sftps : after.sftps = w.sftps) (part : sftpPart after.lib = sftpPart w.lib) :
    Valid after := by
  simp only [sftpPart, Prod.mk.injEq] at part
  obtain ⟨made, handles, shut, closed⟩ := part
  refine ⟨by rw [made, sftps, valid.made], ?_, by rw [closed]; exact valid.closed, by rw [shut]; exact valid.shut,
    by rw [closed, handles]; exact valid.opened, by rw [shut, made]; exact valid.begun⟩
  rw [sftps]
  intro f u found
  obtain ⟨session, handle⟩ := valid.fits f u found
  exact ⟨by rw [shut, made]; exact session, by rw [closed, handles]; exact handle⟩

theorem init_valid (held : Held w) (valid : Valid w) {s : LSshSession} (found : w.sessions.get i = some s)
    (works : Bool) :
    Sound (fun after => SameSsh w after ∧ Valid after ∧ (Alive w → Alive after)) (· ≠ .freedSftp)
      (lModuleSshSftpInit works s w) := by
  unfold lModuleSshSftpInit
  split
  next => exact ⟨⟨rfl, rfl, rfl, rfl, rfl, rfl⟩, valid, id⟩
  next session own =>
    rw [held.call found own]
    show Sound _ _ (if _ then _ else _)
    split
    next => exact ⟨⟨rfl, rfl, rfl, rfl, rfl, rfl⟩, valid, id⟩
    next =>
      refine ⟨⟨rfl, rfl, rfl, rfl, rfl, rfl⟩, ⟨by simp [valid.made], ?_, valid.closed, valid.shut, valid.opened, ?_⟩,
        ?_⟩
      · intro f u there
        rw [Store.add_get] at there
        split at there
        next new =>
          cases there
          refine ⟨?_, nofun⟩
          rintro _ ⟨⟩
          refine ⟨valid.made.trans new.symm, ?_, session, rfl, ?_⟩
          · intro gone
            have bound := valid.begun f gone
            have made := valid.made
            omega
          · simp [new, ← valid.made]
        next =>
          obtain ⟨own, handle⟩ := valid.fits f u there
          refine ⟨?_, handle⟩
          intro sftp used
          obtain ⟨same, kept, session, known, belongs⟩ := own sftp used
          refine ⟨same, kept, session, known, ?_⟩
          rw [← belongs]
          exact List.getElem?_append_left (List.getElem?_eq_some_iff.mp belongs).1
      · intro sftp gone
        have bound := valid.begun sftp gone
        rw [List.length_append]
        omega
      · intro alive f u session' there used pointer
        rw [Store.add_get] at there
        split at there
        next =>
          cases there
          cases pointer
          obtain ⟨same, kept⟩ := held.held i s session found own
          exact same ▸ kept
        next => exact alive f u session' there used pointer

/-- What a step keeps. The SSH sessions stay only if the step settles. -/
structure Kept (w : World) (op : Op) (after : World) : Prop where
  held : Held after
  valid : Valid after
  alive : Alive w → Settles w op → Alive after

variable {op : Op}

theorem Kept.refl (held : Held w) (valid : Valid w) : Kept w op w := ⟨held, valid, fun alive _ => alive⟩

theorem Kept.same (held : Held w) (valid : Valid w) (same : SameSessions w after) : Kept w op after := by
  refine ⟨same.held held, valid.same same.sftps same.part, ?_⟩
  intro alive _ f u session found used own
  rw [same.freed]
  exact alive f u session (same.sftps ▸ found) used own

theorem Kept.frees (held : Held w) (valid : Valid w) {s : LSshSession} {answers : CloseAnswers}
    (found : w.sessions.get i = some s) (own : s.session = some i) (answered : Frees w s answers)
    (frees : FreesSession w after i) (settles : Settles w op → ¬ Strands w i answers) : Kept w op after := by
  refine ⟨frees.held (Store.lt_next found) held, valid.same frees.sftps frees.part, ?_⟩
  intro alive settled f u session there used pointer
  rw [frees.sftps] at there
  rw [frees.freed, List.mem_cons]
  rintro (rfl | before)
  · exact settles settled ⟨s, session, found, own, answered, f, u, there, pointer⟩
  · exact alive f u session there used pointer before

theorem Settles.close (settles : Settles w op) {answers : CloseAnswers} (close : closeOf op = some (i, answers)) :
    ¬ Strands w i answers := by
  cases op <;> cases close
  case sessionClose => exact settles
  case sessionCollect => exact settles

theorem ssh_step_kept (held : Held w) (valid : Valid w) (op : Op) (other : sftpObject op = none) :
    Apart (Kept w op) (step w op) := by
  have general : ∀ after, SshStep w op after → (∀ i works, op ≠ .sftpInit i works) → Kept w op after := by
    intro after taken no_init
    cases taken with
    | @opened works _ =>
      refine ⟨init_held held works, ?_, ?_⟩
      · unfold lModuleSshSessionInitUserpass
        split
        · exact valid.same rfl rfl
        · exact valid
      · intro alive _
        unfold lModuleSshSessionInitUserpass
        split <;> exact alive
    | begun init => exact absurd init (no_init _ _)
    | same same => exact .same held valid same
    | freed close found own answered frees =>
      exact .frees held valid found own answered frees fun settles => settles.close close
  cases op with
  | sftpInit i works =>
    rw [step, onObject]
    split
    next => exact .refl held valid
    next s found =>
      apply (init_valid held valid found works).imp
      rintro after ⟨same, valid', alive⟩
      exact ⟨same.held held, valid', fun before _ => alive before⟩
  | _ => exact (ssh_step held _ other).imp fun after taken => general after taken (by simp)

theorem SftpStep.kept (held : Held w) (valid : Valid w) (found : w.sftps.get f = some u)
    (taken : SftpStep w f u after) : Kept w op after := by
  refine ⟨taken.same.held held, ?_, fun alive _ => ?_⟩
  · cases taken with
    | used effect => exact effect_valid valid found effect
    | collected effect => exact (effect_valid valid found effect).drop f
  · cases taken with
    | used effect => exact effect_alive found effect alive
    | collected effect => exact (effect_alive found effect alive).drop f

/-- A step faults on an SFTP call only when the SSH session of some object is gone already. -/
theorem stepped (held : Held w) (valid : Valid w) (op : Op) :
    Sound (Kept w op) (fun fault => fault = .freedSftp → ¬ Alive w) (step w op) := by
  cases on : sftpObject op with
  | none => exact (ssh_step_kept held valid op on).excuse fun fault apart same => absurd same apart
  | some f =>
    cases found : w.sftps.get f with
    | none =>
      rw [sftp_step_absent on found]
      exact .refl held valid
    | some u =>
      have taken := sftp_step on found
      refine (taken.imp fun _ => SftpStep.kept held valid found).excuse ?_
      rintro _ ⟨_, dangling⟩ _
      exact dangling_dead valid found dangling

/-- Whatever is done in whatever order, a handle is closed once and an SFTP session shut down once. -/
theorem run_valid (ops : List Op) : Ends (run ops) fun w => Held w ∧ Valid w := by
  refine Ends.foldlM ?_ ⟨held_start, valid_start⟩
  rintro w op ⟨held, valid⟩ after taken
  have kept := (stepped held valid op).of_ok taken
  exact ⟨kept.held, kept.valid⟩

/-- When every step settles, no SFTP call comes too late. -/
theorem run_alive {ops : List Op}
    (settled : ∀ before op rest w, ops = before ++ op :: rest → run before = .ok w → Settles w op) :
    Sound (fun w => (Held w ∧ Valid w) ∧ Alive w) (· ≠ .freedSftp) (run ops) := by
  refine Sound.foldlM ?_ ⟨⟨held_start, valid_start⟩, fun _ _ _ found => by cases found⟩ settled
  rintro w op ⟨⟨held, valid⟩, alive⟩ settles
  refine ((stepped held valid op).imp ?_).excuse ?_
  · exact fun after kept => ⟨⟨kept.held, kept.valid⟩, kept.alive alive settles⟩
  · exact fun fault late same => late same alive

/-- SFTP is used safely in every run in which each step settles. -/
theorem sftp_safe (ops : List Op)
    (settled : ∀ before op rest w, ops = before ++ op :: rest → run before = .ok w → Settles w op)
    (done rest : List Op) (part : ops = done ++ rest) : SftpSafe (run done) := by
  have alive : Sound (fun w => (Held w ∧ Valid w) ∧ Alive w) (· ≠ .freedSftp) (run done) := by
    apply run_alive
    intro before op more w split ran
    exact settled before op (more ++ rest) w (by simp [part, split]) ran
  constructor
  · intro late
    rw [late] at alive
    exact alive rfl
  · intro w ran
    obtain ⟨_, valid⟩ := run_valid done w ran
    exact ⟨valid.closed, valid.shut⟩

/-- A file is opened, and the object is collected before its session is closed. -/
def collectedFirst : List Op :=
  [.sessionInit true, .sftpInit 0 true, .sftpOpen 0 true, .sftpCollect 0, .sessionClose 0 {}]

theorem collectedFirst_safe : SftpSafe (run collectedFirst) := by
  have each : ∀ n op, collectedFirst[n]? = some op → ∀ w, run (collectedFirst.take n) = .ok w → Settles w op := by
    intro n op position w ran
    match n, position with
    | 0, rfl | 1, rfl | 2, rfl | 3, rfl => trivial
    | 4, rfl =>
      cases ran
      rintro ⟨_, _, _, _, _, f, _, found, _⟩
      have first : f < 1 := Store.lt_next found
      obtain rfl : f = 0 := by omega
      cases found
  refine sftp_safe collectedFirst ?_ collectedFirst [] (List.append_nil _).symm
  intro before op rest w split ran
  exact of_positions (motive := fun before op => ∀ w, run before = .ok w → Settles w op) each before op rest split w ran

/-- The session is closed while an SFTP object on it is left for the collector. -/
def stranded : List Op := [.sessionInit true, .sftpInit 0 true, .sessionClose 0 {}, .sftpCollect 0]

theorem stranded_late : ¬ SftpSafe (run stranded) := fun safe => safe.1 rfl

end Ltf.Proofs.SshSftp
