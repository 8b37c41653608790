import Mathlib.Data.List.Nodup
import Ltf.Proofs.SshSteps

/-! The channel objects of a session are the ones in its list. A close that stops half
way, a list that is freed too early and a bound that does not shrink break this. -/

namespace Ltf.Proofs.SshChannels
open Ltf.Ssh Steps SshSteps

/-- The object of an open channel, which belongs to this session object. -/
def Open (w : World) (i c : Nat) : Prop := w.channels.get c = some { channel := some c, session := some i }

/-- What is promised of a state: no channel was freed twice, the entries of a list are
objects of open channels of its session, and an open session can still be closed. -/
structure Intact (w : World) : Prop where
  once : w.lib.freedChannels.Nodup
  entries : ∀ i u list, w.sessions.get i = some u → u.activeChannels = some list → ∀ c ∈ list,
    ∃ channel, w.channels.get c = some { channel := some channel, session := some i } ∧
      channel ∉ w.lib.freedChannels ∧ w.lib.channels[channel]? = u.session
  closes : ∀ i u, w.sessions.get i = some u → u.session ≠ none →
    ∃ after u', step w (.sessionClose i {}) = .ok after ∧ after.sessions.get i = some u' ∧ u'.session = none

/-- The state is intact, or there is none because an SFTP call came too late. Any other
fault is a use of a list, an object or a channel that is gone. -/
def ChannelsSafe (outcome : Exec World) : Prop := Sound Intact (· = .freedSftp) outcome

/-- The answers on which the part of a close after the loop comes to its end. -/
def Ended (u : LSshSession) (answers : CloseAnswers) : Prop :=
  (u.sockFd = true → answers.disconnect = true ∧ answers.socketClose = true) ∧ answers.sessionFree = true

/-- The answers to a close of a session with this list: it does nothing or comes to its end. -/
def AllOrNothing (answers : CloseAnswers) (u : LSshSession) (list : List Nat) : Prop :=
  (list ≠ [] ∧ answers.channelClose 0 = false) ∨
    (∀ m < list.length, answers.channelClose m = true) ∧ Ended u answers

/-- A close of an open session does nothing or comes to its end, an open channel outlives its
session object only as long as it is not closed, and it is collected as the last of the list. -/
def Calm (w : World) : Op → Prop
  | .sessionClose i answers => ∀ u list, w.sessions.get i = some u → u.session ≠ none →
    u.activeChannels = some list → AllOrNothing answers u list
  | .channelClose c closes _ => ∀ channel i, w.channels.get c = some { channel := some channel, session := some i } →
    closes = true → w.sessions.get i ≠ none
  | .channelCollect c _ _ => ∀ channel i, w.channels.get c = some { channel := some channel, session := some i } →
    ∃ u before, w.sessions.get i = some u ∧ u.activeChannels = some (before ++ [c])
  | _ => True

/-- An open session object has the list of its open channels, and a closed one has none. -/
structure Fits (w : World) (i : Nat) (u : LSshSession) : Prop where
  free : u.session = none → u.activeChannels = none ∧ ∀ c, ¬ Open w i c
  listed : u.session ≠ none → ∃ list, u.activeChannels = some list ∧ list.Nodup ∧ ∀ c, c ∈ list ↔ Open w i c

/-- The invariant, but for the list of a session object that is busy closing. -/
structure Valid (w : World) (busy : Option Nat) : Prop where
  made : w.lib.channels.length = w.channels.next
  fits : ∀ i u, busy ≠ some i → w.sessions.get i = some u → Fits w i u
  own : ∀ c v, w.channels.get c = some v → v.channel ≠ none →
    ∃ i, v = { channel := some c, session := some i } ∧ c ∉ w.lib.freedChannels ∧ i < w.sessions.next ∧
      w.lib.channels[c]? = some i
  once : w.lib.freedChannels.Nodup
  bound : ∀ c ∈ w.lib.freedChannels, c < w.channels.next

section Loops
variable {c : Nat} {before rest list : List Nat}

/-- The positions of a list around the one of an entry. -/
theorem positions_split (before rest : List Nat) (c : Nat) :
    List.range (before ++ c :: rest).length =
      List.range before.length ++ before.length :: List.range' (before.length + 1) rest.length := by
  have length : (before ++ c :: rest).length = before.length + (1 + rest.length) := by simp; omega
  rw [length, List.range_eq_range', List.range_eq_range', List.range'_append_1.symm, Nat.zero_add, Nat.add_comm 1,
    List.range'_succ]

theorem erase_middle (before rest : List Nat) (c : Nat) :
    (before ++ c :: rest).eraseIdx before.length = before ++ rest := by
  rw [List.eraseIdx_append_of_length_le (Nat.le_refl _), Nat.sub_self, List.eraseIdx_cons_zero]

theorem fresh_of_nodup (nodup : (before ++ c :: rest).Nodup) : c ∉ before ++ rest :=
  (List.nodup_cons.mp (List.nodup_middle.mp nodup)).1

/-- Up to the entry the loop of the collector does nothing, and at the entry it takes it out. -/
theorem removeAll_reaches (fresh : c ∉ before) :
    removeAll c (before ++ c :: rest) =
      (List.range' (before.length + 1) rest.length).foldlM (fun list i =>
        match list[i]? with
        | none => .error .nullPointer
        | some val => if val = c then .ok (list.eraseIdx i) else .ok list) (before ++ rest) := by
  rw [removeAll, positions_split, List.foldlM_append, bind_of_ok (foldlM_still ?_), List.foldlM_cons]
  · have here : (before ++ c :: rest)[before.length]? = some c := by simp
    simp only [here, if_true, erase_middle]
    rfl
  · intro i inside
    have bound : i < before.length := by simpa using inside
    have other : before[i] ≠ c := fun same => fresh (same ▸ List.getElem_mem bound)
    simp only [List.getElem?_append_left bound, List.getElem?_eq_getElem bound, if_neg other]

theorem removeAll_last (fresh : c ∉ before) : removeAll c (before ++ [c]) = .ok before := by
  rw [removeAll_reaches fresh]
  simp [pure, Except.pure]

/-- An entry that another one follows makes the loop run over the end. -/
theorem removeAll_inner {d : Nat} (fresh : c ∉ before ++ d :: rest) :
    removeAll c (before ++ c :: d :: rest) = .error .nullPointer := by
  rw [removeAll_reaches fun inside => fresh (List.mem_append_left _ inside), List.length_cons,
    List.range'_1_concat, List.foldlM_append, bind_of_ok (foldlM_still ?_), List.foldlM_cons]
  · have beyond : (before ++ d :: rest)[before.length + 1 + rest.length]? = none := by
      rw [List.getElem?_eq_none_iff]
      simp
      omega
    simp only [beyond]
    rfl
  · intro i inside
    have bound : i < (before ++ d :: rest).length := by
      rw [List.mem_range'_1] at inside
      simp
      omega
    have other : (before ++ d :: rest)[i] ≠ c := fun same => fresh (same ▸ List.getElem_mem bound)
    simp only [List.getElem?_eq_getElem bound, if_neg other]

theorem removeCounting_once (fresh : c ∉ before ++ rest) :
    removeCounting c (before ++ c :: rest) = .ok (before ++ rest, (before ++ rest).length, 1) := by
  rw [removeCounting, positions_split, List.foldlM_append, bind_of_ok (foldlM_still ?_), List.foldlM_cons]
  · have here : (before ++ c :: rest)[before.length]? = some c := by simp
    have size : (before ++ c :: rest).length - 1 = (before ++ rest).length := by simp
    have within : before.length < (before ++ c :: rest).length := by simp
    simp only [here, within, if_true, erase_middle, size]
    apply foldlM_still
    intro i inside
    show (if _ then _ else _) = _
    split
    next bound =>
      have other : (before ++ rest)[i] ≠ c := fun same => fresh (same ▸ List.getElem_mem bound)
      simp only [List.getElem?_eq_getElem bound, if_neg other]
    next => rfl
  · intro i inside
    have bound : i < before.length := by simpa using inside
    have other : before[i] ≠ c := fun same => fresh (List.mem_append_left _ (same ▸ List.getElem_mem bound))
    have within : i < (before ++ c :: rest).length := by rw [List.length_append]; omega
    simp only [within, if_true, List.getElem?_append_left bound, List.getElem?_eq_getElem bound, if_neg other]

/-- Both loops come to their ends, and leave the other entries in their order. -/
def LeaveOthers (c : Nat) (list : List Nat) : Prop :=
  (removeCounting c list).map (·.1) = .ok (list.filter (· ≠ c)) ∧ removeAll c list = .ok (list.filter (· ≠ c))

/-- The bound of the collector's loop does not shrink, so it is right for the last entry only. -/
theorem leaveOthers_iff (once : list.count c = 1) : LeaveOthers c list ↔ list.getLast? = some c := by
  obtain ⟨before, rest, rfl⟩ := List.append_of_mem (List.count_pos_iff.mp (Nat.lt_of_lt_of_eq Nat.one_pos once.symm))
  have fresh : c ∉ before ++ rest := by
    rw [List.count_append, List.count_cons_self] at once
    rw [← List.count_eq_zero, List.count_append]
    omega
  have others : (before ++ c :: rest).filter (· ≠ c) = before ++ rest := by
    have kept : (before ++ rest).filter (· ≠ c) = before ++ rest := by
      rw [List.filter_eq_self]
      intro d inside
      exact decide_eq_true fun same => fresh (same ▸ inside)
    rw [List.filter_append] at kept
    rw [List.filter_append, List.filter_cons_of_neg (by simp), kept]
  rw [LeaveOthers, others, removeCounting_once fresh]
  cases rest with
  | nil =>
    rw [List.append_nil] at fresh ⊢
    rw [removeAll_last fresh]
    exact iff_of_true ⟨rfl, rfl⟩ List.getLast?_concat
  | cons d rest =>
    rw [removeAll_inner fresh]
    apply iff_of_false
    · intro both
      cases both.2
    · intro last
      rw [List.getLast?_append_cons, List.getLast?_cons_cons] at last
      exact fresh (List.mem_append_right _ (List.mem_of_getLast? last))

theorem second_left : LeaveOthers 2 [1, 2] := (leaveOthers_iff rfl).mpr rfl

/-- The first of two channels. -/
theorem first_collected : ¬ LeaveOthers 1 [1, 2] ∧ removeAll 1 [1, 2] = .error .nullPointer := by
  refine ⟨?_, rfl⟩
  intro both
  cases both.2

end Loops

variable {w middle after : World} {i c : Nat} {u : LSshSession} {busy : Option Nat}

theorem valid_start : Valid {} none := by
  refine ⟨rfl, ?_, ?_, .nil, ?_⟩
  · intro _ _ _ found
    cases found
  · intro _ _ found
    cases found
  · intro _ freed
    cases freed

theorem Open.known (opened : Open w i c) (valid : Valid w busy) :
    c ∉ w.lib.freedChannels ∧ c < w.channels.next ∧ i < w.sessions.next ∧ w.lib.channels[c]? = some i := by
  obtain ⟨j, same, kept, below, belongs⟩ := valid.own c _ opened nofun
  cases same
  exact ⟨kept, Store.lt_next opened, below, belongs⟩

theorem Open.session (opened : Open w i c) {j : Nat} (again : Open w j c) : i = j := by
  have same := opened.symm.trans again
  cases same
  rfl

theorem Fits.frame (fits : Fits w i u) (same : ∀ c, Open after i c ↔ Open w i c) : Fits after i u := by
  refine ⟨?_, ?_⟩
  · intro closed
    obtain ⟨freed, nothing⟩ := fits.free closed
    exact ⟨freed, fun c opened => nothing c ((same c).mp opened)⟩
  · intro used
    obtain ⟨list, active, nodup, all⟩ := fits.listed used
    exact ⟨list, active, nodup, fun c => (all c).trans (same c).symm⟩

theorem Valid.intact (held : Held w) (valid : Valid w none)
    (closes : ∀ i u, w.sessions.get i = some u → u.session ≠ none →
      ∃ after u', step w (.sessionClose i {}) = .ok after ∧ after.sessions.get i = some u' ∧ u'.session = none) :
    Intact w := by
  refine ⟨valid.once, ?_, closes⟩
  intro i u list found active c inside
  have fits := valid.fits i u nofun found
  have used : u.session ≠ none := by
    intro closed
    rw [(fits.free closed).1] at active
    cases active
  obtain ⟨list', active', _, all⟩ := fits.listed used
  obtain rfl : list' = list := Option.some.inj (active'.symm.trans active)
  have opened := (all c).mp inside
  obtain ⟨kept, _, _, belongs⟩ := opened.known valid
  obtain ⟨session, own⟩ := Option.ne_none_iff_exists'.mp used
  obtain ⟨rfl, _⟩ := held.held i u session found own
  exact ⟨c, opened, kept, belongs.trans own.symm⟩

/-- The loop of a close has ended these channels of a session object. -/
structure Closes (w after : World) (closed : List Nat) : Prop where
  sessions : after.sessions = w.sessions
  opened : after.lib.channels = w.lib.channels
  held : after.lib.freedSessions = w.lib.freedSessions
  next : after.channels.next = w.channels.next
  channels : ∀ c, after.channels.get c = if c ∈ closed then some {} else w.channels.get c
  freed : ∃ freed, after.lib.freedChannels = freed ++ w.lib.freedChannels ∧ freed.Nodup ∧ ∀ c ∈ freed, c ∈ closed

theorem Closes.refl (w : World) : Closes w w [] :=
  ⟨rfl, rfl, rfl, rfl, fun _ => by simp, [], rfl, .nil, by simp⟩

/-- The first channel is closed, then others. -/
theorem Closes.cons {closed : List Nat} {frees : Bool} (opened : Open w i c) (other : c ∉ closed)
    (closes : Closes (closedChannel w c (some c) frees) after closed) : Closes w after (c :: closed) := by
  obtain ⟨freed, grown, nodup, all⟩ := closes.freed
  refine ⟨closes.sessions, closes.opened, closes.held, closes.next, ?_,
    freed ++ (if frees then [c] else []), ?_, ?_, ?_⟩
  · intro d
    rw [closes.channels]
    simp only [closedChannel]
    rw [Store.put_get (by rw [opened]; rfl)]
    by_cases later : d ∈ closed
    · simp [later]
    · by_cases same : d = c <;> simp [later, same]
  · rw [grown, List.append_assoc]
    rfl
  · cases frees with
    | false => simpa using nodup
    | true =>
      rw [if_pos rfl, List.nodup_append]
      refine ⟨nodup, by simp, ?_⟩
      intro d freed e same
      obtain rfl : e = c := by simpa using same
      exact fun equal => other (equal ▸ all d freed)
  · intro d freed
    rcases List.mem_append.mp freed with before | now
    · exact List.mem_cons_of_mem _ (all d before)
    · cases frees <;> simp at now
      exact now ▸ List.mem_cons_self

/-- The loop closes the channels of the list up to the first that does not close. -/
theorem closeChannels_open (answers : CloseAnswers) (n : Nat) (list : List Nat) (nodup : list.Nodup)
    (opened : ∀ c ∈ list, Open w i c ∧ c ∉ w.lib.freedChannels) :
    ∃ after done closed rest, closeChannels answers n list w = .ok (after, done) ∧ list = closed ++ rest ∧
      Closes w after closed ∧ (∀ m < closed.length, answers.channelClose (n + m) = true) ∧
      (done = true → rest = []) ∧ (done = false → rest ≠ [] ∧ answers.channelClose (n + closed.length) = false) ∧
      (closed = [] → after = w) := by
  induction list generalizing n w with
  | nil => exact ⟨w, true, [], [], rfl, rfl, .refl w, by simp, fun _ => rfl, nofun, fun _ => rfl⟩
  | cons c list ih =>
    obtain ⟨here, kept⟩ := opened c List.mem_cons_self
    obtain ⟨other, nodup'⟩ := List.nodup_cons.mp nodup
    cases works : answers.channelClose n with
    | false =>
      refine ⟨w, false, [], c :: list, ?_, rfl, .refl w, by simp, nofun, fun _ => ⟨nofun, works⟩, fun _ => rfl⟩
      rw [closeChannels, here]
      simp [Libssh2.channelClose, kept, works, bind, Except.bind, pure, Except.pure]
    | true =>
      let middle := closedChannel w c (some c) (answers.channelFree n)
      have later : ∀ d ∈ list, Open middle i d ∧ d ∉ middle.lib.freedChannels := by
        intro d inside
        obtain ⟨open', kept'⟩ := opened d (List.mem_cons_of_mem _ inside)
        have different : d ≠ c := fun same => other (same ▸ inside)
        refine ⟨(Store.put_get_of_ne different).trans open', ?_⟩
        cases frees : answers.channelFree n <;>
          simp [middle, closedChannel, Libssh2.channelFree, frees, kept', different]
      obtain ⟨after, done, closed, rest, ran, split, closes, answered, ends, stops, _⟩ := ih (n + 1) nodup' later
      refine ⟨after, done, c :: closed, rest, ?_, by rw [split, List.cons_append], closes.cons here ?_, ?_, ends, ?_,
        nofun⟩
      · rw [closeChannels, here, ← ran]
        simp [Libssh2.channelClose, kept, works, bind, Except.bind, middle, closedChannel]
      · exact fun inside => other (split ▸ List.mem_append_left _ inside)
      · intro m bound
        cases m with
        | zero => exact works
        | succ m =>
          rw [← answered m (by simpa using bound)]
          congr 1
          omega
      · intro stopped
        obtain ⟨more, fails⟩ := stops stopped
        refine ⟨more, ?_⟩
        rw [← fails, List.length_cons]
        congr 1
        omega

theorem Valid.during (valid : Valid w none) (i : Nat) : Valid w (some i) :=
  ⟨valid.made, fun j u _ => valid.fits j u nofun, valid.own, valid.once, valid.bound⟩

/-- Only objects of the session object that is busy are touched by its close. -/
theorem Closes.valid {closed : List Nat} (closes : Closes w after closed) (valid : Valid w none)
    (opened : ∀ c ∈ closed, Open w i c) : Valid after (some i) := by
  obtain ⟨freed, grown, nodup, all⟩ := closes.freed
  refine ⟨by rw [closes.opened, closes.next, valid.made], ?_, ?_, ?_, ?_⟩
  · intro j u idle found
    rw [closes.sessions] at found
    apply (valid.fits j u nofun found).frame
    intro c
    rw [Open, closes.channels]
    split
    next inside =>
      constructor
      · nofun
      · intro open'
        exact absurd (congrArg some ((opened c inside).session open')) idle
    next => rfl
  · intro c v found used
    rw [closes.channels] at found
    split at found
    next =>
      cases found
      exact absurd rfl used
    next outside =>
      obtain ⟨j, same, kept, below, belongs⟩ := valid.own c v found used
      refine ⟨j, same, ?_, by rw [closes.sessions]; exact below, by rw [closes.opened]; exact belongs⟩
      rw [grown, List.mem_append]
      rintro (now | before)
      · exact outside (all c now)
      · exact kept before
  · rw [grown, List.nodup_append]
    refine ⟨nodup, valid.once, ?_⟩
    rintro c now _ before rfl
    exact ((opened c (all c now)).known valid).1 before
  · intro c gone
    rw [grown, List.mem_append] at gone
    rw [closes.next]
    rcases gone with now | before
    · exact ((opened c (all c now)).known valid).2.1
    · exact valid.bound c before

theorem Valid.drop (valid : Valid w (some i)) : Valid { w with sessions := w.sessions.drop i } none := by
  refine ⟨valid.made, ?_, valid.own, valid.once, valid.bound⟩
  intro j u _ found
  rw [Store.drop_get] at found
  split at found
  · cases found
  next other => exact (valid.fits j u (fun same => other (Option.some.inj same).symm) found).frame fun _ => Iff.rfl

theorem Valid.put (valid : Valid w (some i)) {u' : LSshSession} :
    Valid { w with sessions := w.sessions.put i u' } (some i) := by
  refine ⟨valid.made, ?_, valid.own, valid.once, valid.bound⟩
  intro j u idle found
  rw [Store.put_get_of_ne fun same => idle (congrArg some same.symm)] at found
  exact (valid.fits j u idle found).frame fun _ => Iff.rfl

/-- The write of an object that fits ends what it was busy with. -/
theorem Valid.settle (valid : Valid w busy) (only : ∀ j, busy = some j → j = i) (found : w.sessions.get i = some u)
    {u' : LSshSession} (fits : Fits w i u') : Valid { w with sessions := w.sessions.put i u' } none := by
  refine ⟨valid.made, ?_, valid.own, valid.once, valid.bound⟩
  intro j v _ there
  rw [Store.put_get (by rw [found]; rfl)] at there
  split at there
  next here =>
    cases there
    obtain rfl : j = i := here
    exact fits.frame fun _ => Iff.rfl
  next other => exact (valid.fits j v (fun same => other (only j same)) there).frame fun _ => Iff.rfl

/-- The channels that the end of a session frees belong to no open object. -/
theorem Valid.sessionFree (valid : Valid w (some i)) (nothing : ∀ c, ¬ Open w i c) :
    Valid { w with lib := w.lib.sessionFree i } (some i) := by
  have mine : ∀ c ∈ w.lib.channelsOf i, w.lib.channels[c]? = some i ∧ c ∉ w.lib.freedChannels := by
    intro c inside
    simpa using (List.mem_filter.mp inside).2
  refine ⟨valid.made, fun j u idle found => (valid.fits j u idle found).frame fun _ => Iff.rfl, ?_, ?_, ?_⟩
  · intro c v found used
    obtain ⟨j, same, kept, below, belongs⟩ := valid.own c v found used
    refine ⟨j, same, ?_, below, belongs⟩
    intro gone
    rcases List.mem_append.mp gone with now | before
    · obtain rfl : j = i := Option.some.inj (belongs.symm.trans (mine c now).1)
      exact nothing c (found.trans (congrArg some same))
    · exact kept before
  · apply List.nodup_append.mpr
    refine ⟨List.nodup_range.filter _, valid.once, ?_⟩
    rintro c now _ before rfl
    exact (mine c now).2 before
  · intro c gone
    rcases List.mem_append.mp gone with now | before
    · rw [← valid.made]
      exact (List.getElem?_eq_some_iff.mp (mine c now).1).1
    · exact valid.bound c before

theorem disconnect_eq (call : w.lib.sessionCall i = .ok ()) (own : u.session = some i) (connected : u.sockFd = true)
    (answers : CloseAnswers) :
    lModuleSshSessionDisconnect answers u w =
      .ok (if answers.disconnect && answers.socketClose then ({ u with sockFd := false }, true) else (u, false)) := by
  simp only [lModuleSshSessionDisconnect, own, connected, call, bind, Except.bind, pure, Except.pure]
  cases answers.disconnect <;> cases answers.socketClose <;> rfl

theorem closeSession_eq (call : w.lib.sessionCall i = .ok ()) (own : u.session = some i) (answers : CloseAnswers) :
    (Ended u answers ∧ closeSession i answers i u w = .ok { w with
        lib := w.lib.sessionFree i
        sessions := w.sessions.put i { session := none, sockFd := false, activeChannels := none } }) ∨
      ¬ Ended u answers ∧ ∃ socket, closeSession i answers i u w = .ok { w with
        sessions := w.sessions.put i { session := some i, sockFd := socket, activeChannels := none } } := by
  obtain ⟨_, connected, list⟩ := u
  cases own
  have disconnects := disconnect_eq (u := { session := some i, sockFd := true, activeChannels := none }) call rfl rfl
    answers
  cases connected with
  | false =>
    cases frees : answers.sessionFree with
    | false =>
      refine .inr ⟨by simp [Ended, frees], false, ?_⟩
      simp [closeSession, call, frees, bind, Except.bind, pure, Except.pure]
    | true =>
      refine .inl ⟨by simp [Ended, frees], ?_⟩
      simp [closeSession, call, frees, bind, Except.bind, pure, Except.pure]
  | true =>
    cases down : answers.disconnect && answers.socketClose with
    | false =>
      refine .inr ⟨?_, true, ?_⟩
      · rintro ⟨works, _⟩
        obtain ⟨first, second⟩ := works rfl
        simp [first, second] at down
      · simp [closeSession, disconnects, down, bind, Except.bind, pure, Except.pure]
    | true =>
      cases frees : answers.sessionFree with
      | false =>
        refine .inr ⟨by simp [Ended, frees], false, ?_⟩
        simp [closeSession, disconnects, down, call, frees, bind, Except.bind, pure, Except.pure]
      | true =>
        refine .inl ⟨⟨fun _ => by simpa using down, frees⟩, ?_⟩
        simp [closeSession, disconnects, down, call, frees, bind, Except.bind, pure, Except.pure]

/-- How a close of an open session can go: it stops in the loop, it comes to its end, or it
stops after the list was freed. -/
inductive CloseOutcome (w : World) (i : Nat) (u : LSshSession) (answers : CloseAnswers) (list : List Nat)
    (after : World) : Prop where
  | stopped {closed rest : List Nat} (split : list = closed ++ rest) (more : rest ≠ [])
    (some : ∀ m < closed.length, answers.channelClose m = true) (fails : answers.channelClose closed.length = false)
    (closes : Closes w after closed) (nothing : closed = [] → after = w)
  | ended (all : ∀ m < list.length, answers.channelClose m = true) (ended : Ended u answers) (valid : Valid after none)
    (object : after.sessions.get i = some { session := none, sockFd := false, activeChannels := none })
  | broken (all : ∀ m < list.length, answers.channelClose m = true) (short : ¬ Ended u answers) (socket : Bool)
    (object : after.sessions.get i = some { session := some i, sockFd := socket, activeChannels := none })

theorem close_outcome (held : Held w) (valid : Valid w none) (found : w.sessions.get i = some u)
    (own : u.session = some i) (answers : CloseAnswers) :
    ∃ list after, u.activeChannels = some list ∧ list.Nodup ∧ (∀ c, c ∈ list ↔ Open w i c) ∧
      lModuleSshSessionClose i answers u w = .ok after ∧ Valid after (some i) ∧
      CloseOutcome w i u answers list after := by
  obtain ⟨list, active, nodup, all⟩ := (valid.fits i u nofun found).listed (by simp [own])
  have opened : ∀ c ∈ list, Open w i c ∧ c ∉ w.lib.freedChannels := by
    intro c inside
    have opened := (all c).mp inside
    exact ⟨opened, (opened.known valid).1⟩
  obtain ⟨middle, done, closed, rest, loop, split, closes, answered, ends, stops, nothing⟩ :=
    closeChannels_open answers 0 list nodup opened
  have valid' : Valid middle (some i) :=
    closes.valid valid fun c inside => (opened c (split ▸ List.mem_append_left _ inside)).1
  have close : lModuleSshSessionClose i answers u w =
      if done then closeSession i answers i u middle else .ok middle := by
    simp only [lModuleSshSessionClose, own, LSshSession.list, active, loop, bind, Except.bind]
    cases done <;> rfl
  cases done with
  | false =>
    obtain ⟨more, fails⟩ := stops rfl
    simp only [Nat.zero_add] at answered fails
    exact ⟨list, middle, active, nodup, all, close, valid', .stopped split more answered fails closes nothing⟩
  | true =>
    obtain rfl := ends rfl
    rw [List.append_nil] at split
    subst split
    simp only [Nat.zero_add] at answered
    have there : middle.sessions.get i = some u := by rw [closes.sessions, found]
    have call : middle.lib.sessionCall i = .ok () := by
      rw [Libssh2.sessionCall, closes.held]
      exact if_neg (held.held i u i found own).2
    have empty : ∀ c, ¬ Open middle i c := by
      intro c open'
      rw [Open, closes.channels] at open'
      split at open'
      next => cases open'
      next outside => exact outside ((all c).mpr open')
    obtain ⟨ended, ran⟩ | ⟨short, socket, ran⟩ := closeSession_eq call own answers
    · have freed := valid'.sessionFree empty
      have closed' : Fits { middle with lib := middle.lib.sessionFree i } i
          { session := none, sockFd := false, activeChannels := none } :=
        ⟨fun _ => ⟨rfl, empty⟩, fun used => absurd rfl used⟩
      have settled := freed.settle (fun j same => (Option.some.inj same).symm) there closed'
      refine ⟨list, _, active, nodup, all, close.trans ran, settled.during i, .ended answered ended settled ?_⟩
      rw [Store.put_get (by rw [there]; rfl), if_pos rfl]
    · refine ⟨list, _, active, nodup, all, close.trans ran, valid'.put, .broken answered short socket ?_⟩
      rw [Store.put_get (by rw [there]; rfl), if_pos rfl]

/-- A close that every call answers well comes to its end. -/
theorem valid_closes (held : Held w) (valid : Valid w none) (found : w.sessions.get i = some u)
    (used : u.session ≠ none) :
    ∃ after u', step w (.sessionClose i {}) = .ok after ∧ after.sessions.get i = some u' ∧ u'.session = none := by
  obtain ⟨session, own⟩ := Option.ne_none_iff_exists'.mp used
  obtain ⟨rfl, _⟩ := held.held i u session found own
  obtain ⟨list, after, _, _, _, ran, _, outcome⟩ := close_outcome held valid found own {}
  refine ⟨after, ?_⟩
  have taken : step w (.sessionClose session {}) = .ok after := by
    rw [step, onObject, found]
    exact ran
  cases outcome with
  | stopped _ _ _ fails => cases fails
  | ended _ _ _ object => exact ⟨_, taken, object, rfl⟩
  | broken _ short => exact absurd ⟨fun _ => ⟨rfl, rfl⟩, rfl⟩ short

theorem Valid.safe (held : Held w) (valid : Valid w none) : Intact w :=
  valid.intact held fun _ _ => valid_closes held valid

theorem Valid.same (valid : Valid w none) (same : SameSsh w after) : Valid after none := by
  obtain ⟨sessions, channels, _, opened, _, freed⟩ := same
  refine ⟨by rw [opened, channels, valid.made], ?_, ?_, by rw [freed]; exact valid.once,
    by rw [freed, channels]; exact valid.bound⟩
  · intro i u idle found
    rw [sessions] at found
    apply (valid.fits i u idle found).frame
    intro c
    rw [Open, channels]
    rfl
  · rw [channels, freed, sessions, opened]
    exact valid.own

theorem init_valid (valid : Valid w none) (works : Bool) : Valid (lModuleSshSessionInitUserpass works w) none := by
  unfold lModuleSshSessionInitUserpass
  split
  next =>
    refine ⟨valid.made, ?_, ?_, valid.once, valid.bound⟩
    · intro i u idle found
      rw [Store.add_get] at found
      split at found
      next new =>
        cases found
        refine ⟨nofun, fun _ => ⟨[], rfl, .nil, ?_⟩⟩
        intro c
        constructor
        · nofun
        · intro opened
          have below := (Open.known (w := w) opened valid).2.2.1
          omega
      next => exact (valid.fits i u idle found).frame fun _ => Iff.rfl
    · intro c v found used
      obtain ⟨i, same, kept, below, belongs⟩ := valid.own c v found used
      exact ⟨i, same, kept, Nat.lt_succ_of_lt below, belongs⟩
  next => exact valid

/-- A write that leaves session and list of an object alone. -/
theorem Valid.socket (valid : Valid w none) (found : w.sessions.get i = some u) (socket : Bool) :
    Valid { w with sessions := w.sessions.put i { u with sockFd := socket } } none := by
  have fits := valid.fits i u nofun found
  exact valid.settle nofun found ⟨fits.free, fits.listed⟩

/-- The world in which a session object has one more channel. -/
def withChannel (w : World) (i : Nat) (u : LSshSession) (list : List Nat) : World :=
  { w with
    lib := { w.lib with channels := w.lib.channels ++ [i] }
    sessions := w.sessions.put i { u with activeChannels := some (list ++ [w.channels.next]) }
    channels := w.channels.add { channel := some w.lib.channels.length, session := some i } }

theorem withChannel_open {list : List Nat} (valid : Valid w none) (j d : Nat) :
    Open (withChannel w i u list) j d ↔ Open w j d ∨ j = i ∧ d = w.channels.next := by
  rw [Open, withChannel, Store.add_get, valid.made]
  split
  next new =>
    subst new
    constructor
    · rintro ⟨⟩
      exact .inr ⟨rfl, rfl⟩
    · rintro (opened | ⟨rfl, _⟩)
      · exact absurd (opened.known valid).2.1 (Nat.lt_irrefl _)
      · rfl
  next other =>
    constructor
    · exact .inl
    · rintro (opened | ⟨_, new⟩)
      · exact opened
      · exact absurd new other

theorem withChannel_valid {list : List Nat} (valid : Valid w none) (found : w.sessions.get i = some u)
    (used : u.session ≠ none) (nodup : list.Nodup) (all : ∀ c, c ∈ list ↔ Open w i c) :
    Valid (withChannel w i u list) none := by
  refine ⟨by simp [withChannel, valid.made], ?_, ?_, valid.once, ?_⟩
  · intro j v _ there
    rw [withChannel, Store.put_get (by rw [found]; rfl)] at there
    split at there
    next here =>
      cases there
      refine ⟨fun closed => absurd closed used, fun _ => ⟨list ++ [w.channels.next], rfl, ?_, ?_⟩⟩
      · refine List.nodup_append.mpr ⟨nodup, by simp, ?_⟩
        intro c inside d new
        obtain rfl : d = w.channels.next := by simpa using new
        exact Nat.ne_of_lt (((all c).mp inside).known valid).2.1
      · intro c
        rw [List.mem_append, all, withChannel_open valid, List.mem_singleton, here, eq_self, true_and]
    next other =>
      apply (valid.fits j v nofun there).frame
      intro c
      rw [withChannel_open valid, or_iff_left fun new => other new.1]
  · intro c v there open'
    rw [withChannel, Store.add_get] at there
    split at there
    next new =>
      cases there
      have below : i < w.sessions.next := Store.lt_next found
      refine ⟨i, by rw [valid.made, new], ?_, below, ?_⟩
      · intro freed
        exact absurd (valid.bound c freed) (by omega)
      · simp [withChannel, new, ← valid.made]
    next =>
      obtain ⟨j, same, kept, below, belongs⟩ := valid.own c v there open'
      refine ⟨j, same, kept, below, ?_⟩
      rw [← belongs]
      exact List.getElem?_append_left (List.getElem?_eq_some_iff.mp belongs).1
  · intro c freed
    exact Nat.lt_succ_of_lt (valid.bound c freed)

theorem channelOpen_valid (held : Held w) (valid : Valid w none) (found : w.sessions.get i = some u) (works : Bool) :
    ∃ after, lModuleSshChannelOpenSession i works u w = .ok after ∧ Valid after none := by
  cases own : u.session with
  | none => exact ⟨w, by simp [lModuleSshChannelOpenSession, own, pure, Except.pure], valid⟩
  | some session =>
    have used : u.session ≠ none := by simp [own]
    obtain ⟨list, active, nodup, all⟩ := (valid.fits i u nofun found).listed used
    have call := held.call found own
    obtain ⟨rfl, _⟩ := held.held i u session found own
    cases works with
    | false =>
      refine ⟨w, ?_, valid⟩
      simp [lModuleSshChannelOpenSession, own, call, bind, Except.bind, pure, Except.pure]
    | true =>
      refine ⟨withChannel w session u list, ?_, withChannel_valid valid found used nodup all⟩
      simp [lModuleSshChannelOpenSession, own, call, LSshSession.list, active, withChannel, bind, Except.bind, pure,
        Except.pure]

/-- An open channel object is in the list of its session object, if that is still there. -/
theorem Open.listed (opened : Open w i c) (valid : Valid w none) (found : w.sessions.get i = some u) :
    u.session ≠ none ∧ ∃ before rest, u.activeChannels = some (before ++ c :: rest) ∧ (before ++ c :: rest).Nodup ∧
      ∀ d, d ∈ before ++ c :: rest ↔ Open w i d := by
  have fits := valid.fits i u nofun found
  have used : u.session ≠ none := fun closed => (fits.free closed).2 c opened
  obtain ⟨list, active, nodup, all⟩ := fits.listed used
  obtain ⟨before, rest, rfl⟩ := List.append_of_mem ((all c).mpr opened)
  exact ⟨used, before, rest, active, nodup, all⟩

/-- A channel object that is open no more leaves the list, and its channel may be freed. -/
theorem Valid.release (valid : Valid w none) (opened : Open w i c) (found : w.sessions.get i = some u)
    (used : u.session ≠ none) {before rest : List Nat} (nodup : (before ++ c :: rest).Nodup)
    (all : ∀ d, d ∈ before ++ c :: rest ↔ Open w i d) {channels : Store LSshChannel}
    (next : channels.next = w.channels.next) (others : ∀ d, d ≠ c → channels.get d = w.channels.get d)
    (gone : ∀ v, channels.get c = some v → v.channel = none) (frees : Bool) :
    Valid { w with
      lib := w.lib.channelFree (some c) frees
      sessions := w.sessions.put i { u with activeChannels := some (before ++ rest) }
      channels } none := by
  have fresh := fresh_of_nodup nodup
  obtain ⟨kept, bound, _, _⟩ := opened.known valid
  have still : ∀ j d, channels.get d = some { channel := some d, session := some j } ↔ Open w j d ∧ d ≠ c := by
    intro j d
    by_cases same : d = c
    · subst same
      refine ⟨fun open' => ?_, fun ⟨_, other⟩ => absurd rfl other⟩
      cases gone _ open'
    · rw [others d same]
      exact ⟨fun open' => ⟨open', same⟩, And.left⟩
  refine ⟨valid.made.trans next.symm, ?_, ?_, ?_, ?_⟩
  · intro j v _ there
    rw [Store.put_get (by rw [found]; rfl)] at there
    split at there
    next here =>
      cases there
      obtain rfl : j = i := here
      refine ⟨fun closed => absurd closed used, fun _ => ⟨before ++ rest, rfl, ?_, ?_⟩⟩
      · exact (List.nodup_cons.mp (List.nodup_middle.mp nodup)).2
      · intro d
        rw [Open, still, ← all d, List.mem_append, List.mem_append, List.mem_cons]
        constructor
        · intro inside
          have other : d ≠ c := fun same => fresh (same ▸ List.mem_append.mpr inside)
          exact ⟨inside.imp_right .inr, other⟩
        · rintro ⟨first | same | last, other⟩
          · exact .inl first
          · exact absurd same other
          · exact .inr last
    next other =>
      apply (valid.fits j v nofun there).frame
      intro d
      rw [Open, still]
      refine ⟨And.left, fun open' => ⟨open', ?_⟩⟩
      rintro rfl
      exact other (open'.session opened)
  · intro d v there open'
    have different : d ≠ c := fun same => open' (gone v (same ▸ there))
    rw [others d different] at there
    obtain ⟨j, same, kept', below, belongs⟩ := valid.own d v there open'
    refine ⟨j, same, ?_, below, belongs⟩
    cases frees <;> simp [Libssh2.channelFree, kept', different]
  · cases frees <;> simp [Libssh2.channelFree, kept, valid.once]
  · intro d freed
    rw [next]
    cases frees with
    | false => exact valid.bound d (by simpa [Libssh2.channelFree] using freed)
    | true =>
      rcases List.mem_cons.mp freed with rfl | before
      · exact bound
      · exact valid.bound d before

/-- A channel object that is closed can go without a trace. -/
theorem Valid.dropChannel (valid : Valid w none) {v : LSshChannel} (found : w.channels.get c = some v)
    (closed : v.channel = none) : Valid { w with channels := w.channels.drop c } none := by
  refine ⟨valid.made, ?_, ?_, valid.once, valid.bound⟩
  · intro i u _ there
    apply (valid.fits i u nofun there).frame
    intro d
    rw [Open, Store.drop_get]
    split
    next same =>
      subst same
      refine ⟨nofun, fun opened => ?_⟩
      cases opened.symm.trans found
      cases closed
    next => rfl
  · intro d v' there opened
    rw [Store.drop_get] at there
    split at there
    · cases there
    · exact valid.own d v' there opened

theorem channelClose_valid (valid : Valid w none) {v : LSshChannel} (found : w.channels.get c = some v)
    (closes frees : Bool) (calm : Calm w (.channelClose c closes frees)) :
    ∃ after, lModuleSshChannelClose c closes frees v w = .ok after ∧ Valid after none := by
  cases own : v.channel with
  | none => exact ⟨w, by simp [lModuleSshChannelClose, own, pure, Except.pure], valid⟩
  | some channel =>
    obtain ⟨i, rfl, kept, _, _⟩ := valid.own c v found (by simp [own])
    cases closes with
    | false =>
      refine ⟨w, ?_, valid⟩
      simp [lModuleSshChannelClose, Libssh2.channelClose, kept, bind, Except.bind, pure, Except.pure]
    | true =>
      obtain ⟨u, there⟩ := Option.ne_none_iff_exists'.mp (calm c i found rfl)
      obtain ⟨used, before, rest, active, nodup, all⟩ := Open.listed found valid there
      have live : (w.channels.get c).isSome := by rw [found]; rfl
      have released := valid.release found there used nodup all (Store.put_next w.channels c {})
        (fun d other => Store.put_get_of_ne other)
        (fun v put => by rw [Store.put_get live, if_pos rfl] at put; cases put; rfl) frees
      refine ⟨_, ?_, released⟩
      simp [lModuleSshChannelClose, Libssh2.channelClose, kept, World.session, there, LSshSession.list, active,
        removeCounting_once (fresh_of_nodup nodup), bind, Except.bind, pure, Except.pure]

/-- The channel of an object whose session object is gone cannot be closed. -/
theorem channelClose_orphan (valid : Valid w none) {channel : Nat}
    (found : w.channels.get c = some { channel := some channel, session := some i }) (absent : w.sessions.get i = none)
    (frees : Bool) : step w (.channelClose c true frees) = .error .freedObject := by
  obtain ⟨j, same, kept, _, _⟩ := valid.own c _ found nofun
  cases same
  simp [step, onObject, found, lModuleSshChannelClose, Libssh2.channelClose, kept, World.session, absent, bind,
    Except.bind]

theorem channelGc_valid (valid : Valid w none) {v : LSshChannel} (found : w.channels.get c = some v)
    (closes frees : Bool) (calm : Calm w (.channelCollect c closes frees)) :
    ∃ after, lChannelSshGc c closes frees v w = .ok after ∧
      Valid { after with channels := after.channels.drop c } none := by
  cases own : v.channel with
  | none => exact ⟨w, by simp [lChannelSshGc, own, pure, Except.pure], valid.dropChannel found own⟩
  | some channel =>
    obtain ⟨i, rfl, kept, _, _⟩ := valid.own c v found (by simp [own])
    obtain ⟨u, before, there, active⟩ := calm c i found
    obtain ⟨used, before', rest, active', nodup, all⟩ := Open.listed found valid there
    have same : before ++ [c] = before' ++ c :: rest := Option.some.inj (active.symm.trans active')
    rw [← same] at nodup all
    have gone : ∀ v, ((w.channels.put c {}).drop c).get c = some v → v.channel = none := by
      intro v found
      rw [Store.drop_get, if_pos rfl] at found
      cases found
    have others : ∀ d, d ≠ c → ((w.channels.put c {}).drop c).get d = w.channels.get d :=
      fun d other => (Store.drop_get_of_ne other).trans (Store.put_get_of_ne other)
    have next : ((w.channels.put c {}).drop c).next = w.channels.next := rfl
    have released := valid.release found there used nodup all next others gone frees
    rw [List.append_nil] at released
    have fresh : c ∉ before := fun inside => fresh_of_nodup nodup (List.mem_append_left _ inside)
    have ran : lChannelSshGc c closes frees { channel := some c, session := some i } w = .ok { w with
        lib := w.lib.channelFree (some c) frees
        sessions := w.sessions.put i { u with activeChannels := some before }
        channels := w.channels.put c {} } := by
      simp [lChannelSshGc, Libssh2.channelClose, kept, World.session, there, LSshSession.list, active,
        removeAll_last fresh, bind, Except.bind, pure, Except.pure]
    exact ⟨_, ran, released⟩

/-- An open channel object is collected without a fault only as the last of the list. -/
theorem channelGc_calm (valid : Valid w none) {closes frees : Bool}
    (safe : ChannelsSafe (step w (.channelCollect c closes frees))) : Calm w (.channelCollect c closes frees) := by
  intro channel i found
  obtain ⟨j, same, kept, _, _⟩ := valid.own c _ found nofun
  cases same
  cases there : w.sessions.get i with
  | none =>
    have fault : step w (.channelCollect c closes frees) = .error .freedObject := by
      simp [step, onObject, found, lChannelSshGc, Libssh2.channelClose, kept, World.session, there, bind, Except.bind]
    rw [fault] at safe
    cases safe
  | some u =>
    obtain ⟨_, before, rest, active, nodup, _⟩ := Open.listed found valid there
    cases rest with
    | nil => exact ⟨u, before, rfl, active⟩
    | cons d rest =>
      have fault : step w (.channelCollect c closes frees) = .error .nullPointer := by
        simp [step, onObject, found, lChannelSshGc, Libssh2.channelClose, kept, World.session, there, LSshSession.list,
          active, removeAll_inner (fresh_of_nodup nodup), bind, Except.bind]
      rw [fault] at safe
      cases safe

theorem channelClose_calm (valid : Valid w none) {closes frees : Bool}
    (safe : ChannelsSafe (step w (.channelClose c closes frees))) : Calm w (.channelClose c closes frees) := by
  intro channel i found works absent
  subst works
  rw [channelClose_orphan valid found absent] at safe
  cases safe

/-- A close of an open session that stops half way leaves a closed channel in the list, and
one that stops after the loop leaves a session that cannot be closed. -/
theorem sessionClose_calm (held : Held w) (valid : Valid w none) {answers : CloseAnswers}
    (safe : ChannelsSafe (step w (.sessionClose i answers))) : Calm w (.sessionClose i answers) := by
  intro u list found used active
  obtain ⟨session, own⟩ := Option.ne_none_iff_exists'.mp used
  obtain ⟨rfl, _⟩ := held.held i u session found own
  obtain ⟨list', after, active', _, all, ran, _, outcome⟩ := close_outcome held valid found own answers
  obtain rfl : list' = list := Option.some.inj (active'.symm.trans active)
  have taken : step w (.sessionClose session answers) = .ok after := by
    rw [step, onObject, found]
    exact ran
  have intact : Intact after := safe.of_ok taken
  cases outcome with
  | @stopped closed rest split more _ fails closes =>
    cases closed with
    | nil =>
      subst split
      exact .inl ⟨more, fails⟩
    | cons c closed =>
      have there : after.sessions.get session = some u := by rw [closes.sessions, found]
      have inside : c ∈ list' := by rw [split]; simp
      obtain ⟨channel, opened, _⟩ := intact.entries session u list' there active' c inside
      rw [closes.channels, if_pos List.mem_cons_self] at opened
      cases opened
  | ended all ended => exact .inr ⟨all, ended⟩
  | broken _ _ socket object =>
    obtain ⟨later, _, again, _⟩ := intact.closes session _ object (by simp)
    rw [step, onObject, object] at again
    cases again

/-- What a method keeps, a step keeps. -/
theorem on_object_valid {store : Store α} {method : α → World → Exec World} (valid : Valid w none)
    (each : ∀ v, store.get i = some v → ∃ after, method v w = .ok after ∧ Valid after none) :
    Sound (Valid · none) (· = .freedSftp) (onObject store i w method) := by
  unfold onObject
  split
  next => exact valid
  next v found =>
    obtain ⟨after, ran, valid'⟩ := each v found
    rw [ran]
    exact valid'

theorem sessionClose_valid (held : Held w) (valid : Valid w none) {answers : CloseAnswers}
    (calm : Calm w (.sessionClose i answers)) (found : w.sessions.get i = some u) :
    ∃ after, lModuleSshSessionClose i answers u w = .ok after ∧ Valid after none := by
  cases own : u.session with
  | none => exact ⟨w, by rw [lModuleSshSessionClose, own]; rfl, valid⟩
  | some session =>
    obtain ⟨rfl, _⟩ := held.held i u session found own
    obtain ⟨list, after, active, _, _, ran, _, outcome⟩ := close_outcome held valid found own answers
    refine ⟨after, ran, ?_⟩
    have quiet := calm u list found (by simp [own]) active
    cases outcome with
    | @stopped closed rest split more before fails closes nothing =>
      rcases quiet with ⟨_, first⟩ | ⟨all, _⟩
      · cases closed with
        | nil => rwa [nothing rfl]
        | cons c closed =>
          rw [before 0 (Nat.succ_pos _)] at first
          cases first
      · have short : closed.length < list.length := by
          rw [split, List.length_append]
          have some_left := List.length_pos_of_ne_nil more
          omega
        rw [all closed.length short] at fails
        cases fails
    | ended _ _ valid' => exact valid'
    | broken all short =>
      rcases quiet with ⟨some_channel, first⟩ | ⟨_, ended⟩
      · rw [all 0 (List.length_pos_of_ne_nil some_channel)] at first
        cases first
      · exact absurd ended short

theorem sessionCollect_valid (held : Held w) (valid : Valid w none) (answers : CloseAnswers)
    (found : w.sessions.get i = some u) :
    ∃ after, lModuleSshSessionClose i answers u w = .ok after ∧ Valid after (some i) := by
  cases own : u.session with
  | none => exact ⟨w, by rw [lModuleSshSessionClose, own]; rfl, valid.during i⟩
  | some session =>
    obtain ⟨rfl, _⟩ := held.held i u session found own
    obtain ⟨_, after, _, _, _, ran, valid', _⟩ := close_outcome held valid found own answers
    exact ⟨after, ran, valid'⟩

/-- A calm step keeps the invariant, and only a late SFTP call can stop it. -/
theorem step_valid (held : Held w) (valid : Valid w none) {op : Op} (calm : Calm w op) :
    Sound (Valid · none) (· = .freedSftp) (step w op) := by
  cases on : sftpObject op with
  | some f =>
    cases found : w.sftps.get f with
    | none =>
      rw [sftp_step_absent on found]
      exact valid
    | some u =>
      refine ((sftp_step on found).imp ?_).excuse fun _ => And.left
      exact fun _ taken => valid.same taken.same
  | none =>
    cases op with
    | sessionInit works => exact init_valid valid works
    | sessionConnect i connects =>
      apply on_object_valid valid
      intro u found
      rcases connect_ok held found connects with ran | ran
      · exact ⟨w, ran, valid⟩
      · exact ⟨_, ran, valid.socket found true⟩
    | sessionDisconnect i answers =>
      apply on_object_valid valid
      intro u found
      obtain ⟨socket, _, ran, _⟩ := disconnect_ok held found answers rfl
      exact ⟨_, bind_of_ok ran, valid.socket found socket⟩
    | sessionClose i answers =>
      apply on_object_valid valid
      exact fun u found => sessionClose_valid held valid calm found
    | sessionCollect i answers =>
      apply on_object_valid valid
      intro u found
      obtain ⟨after, ran, valid'⟩ := sessionCollect_valid held valid answers found
      exact ⟨_, bind_of_ok ran, valid'.drop⟩
    | channelOpen i works =>
      apply on_object_valid valid
      exact fun u found => channelOpen_valid held valid found works
    | channelClose c closes frees =>
      apply on_object_valid valid
      exact fun v found => channelClose_valid valid found closes frees calm
    | channelCollect c closes frees =>
      apply on_object_valid valid
      intro v found
      obtain ⟨after, ran, valid'⟩ := channelGc_valid valid found closes frees calm
      exact ⟨_, bind_of_ok ran, valid'⟩
    | sftpInit i works =>
      rw [step, onObject]
      split
      next => exact valid
      next u found =>
        obtain ⟨after, ran, same⟩ := sftpInit_ok held found works
        rw [ran]
        exact valid.same same
    | _ => cases on

/-- A step after which all is as promised was calm. -/
theorem step_calm (held : Held w) (valid : Valid w none) {op : Op} (safe : ChannelsSafe (step w op)) : Calm w op := by
  cases op with
  | sessionClose => exact sessionClose_calm held valid safe
  | channelClose => exact channelClose_calm valid safe
  | channelCollect => exact channelGc_calm valid safe
  | _ => trivial

/-- In a run the lists and channels are as promised after every step exactly when each step is calm. -/
theorem channels_safe_iff (ops : List Op) :
    (∀ done rest, ops = done ++ rest → ChannelsSafe (run done)) ↔
      ∀ before op rest w, ops = before ++ op :: rest → run before = .ok w → Calm w op := by
  have kept : ∀ w op, Held w ∧ Valid w none → Calm w op →
      Sound (fun after => Held after ∧ Valid after none) (· = .freedSftp) (step w op) := by
    rintro w op ⟨held, valid⟩ calm
    exact (step_valid held valid calm).ended (step_held held op)
  apply Sound.foldlM_iff kept
  · rintro w op ⟨held, valid⟩ safe
    exact step_calm held valid safe
  · rintro w ⟨held, valid⟩
    exact valid.safe held
  · exact ⟨held_start, valid_start⟩

def twoChannels : List Op :=
  [.sessionInit true, .sessionConnect 0 true, .channelOpen 0 true, .channelOpen 0 true]

/-- The second of two channels does not close, so the first stays in the list without a channel. -/
def halfClosed : List Op := twoChannels ++ [.sessionClose 0 { channelClose := fun n => n == 0 }]

theorem halfClosed_unsafe : ¬ ∀ done rest, halfClosed = done ++ rest → ChannelsSafe (run done) := by
  intro safe
  have intact : Intact _ := safe halfClosed [] (List.append_nil _).symm
  obtain ⟨_, opened, _⟩ := intact.entries 0 _ [0, 1] rfl rfl 0 (by decide)
  cases opened

end Ltf.Proofs.SshChannels
